import RingAgreement.Node.Basic
import RingAgreement.Proofs.Medium.Basic
import RingAgreement.Proofs.Node.Distributor
import RingAgreement.Proofs.Session.Completion
import RingAgreement.Proofs.Session.Start
/-!
What a node does with an event for one of its sessions: it passes on the messages of the session,
and when the session comes to its group key, it tells its distributor and announces what follows.
-/

namespace RingAgreement

namespace NodeAction

/-- The group key of a level that an action announces. -/
def groupKey? (level : Level) : NodeAction → Option GroupKey
  | sessionEstablished other key => if other = level then some key else none
  | _ => none

/-- The cluster key that an action announces. -/
def clusterKey? : NodeAction → Option ClusterKey
  | clusterKeyReady key => some key
  | _ => none

@[simp] theorem groupKey?_sessionEstablished (level other : Level) (key : GroupKey) :
    (sessionEstablished other key).groupKey? level = if other = level then some key else none := rfl

@[simp] theorem clusterKey?_sessionEstablished (level : Level) (key : GroupKey) :
    (sessionEstablished level key).clusterKey? = none := rfl

end NodeAction

def NodeOutcome.actions {ρ : Type} (outcome : NodeOutcome ρ) : List NodeAction :=
  match outcome.result with
  | .ok actions => actions
  | .error _ => []

namespace Session

variable {K : Kem} {s : Session} {ρ : Type} [RandomSource ρ]

/-- A step announces nothing and leaves the group key, or it announces the one it makes. -/
theorem Coherent.keys_cases (coherent : s.Coherent K) (event : SessionEvent) (source : ρ) :
    let outcome := s.handle K event source
    (outcome.keys = [] ∧ outcome.session.groupKey = s.groupKey) ∨
      ∃ key, outcome.keys = [key] ∧ s.groupKey = none ∧ outcome.session.groupKey = some key := by
  intro outcome
  have announced : s.groupKey.toList ++ outcome.keys = outcome.session.groupKey.toList :=
    coherent.keys_handle event source
  clear_value outcome
  cases before : s.groupKey with
  | none =>
    rw [before, Option.toList_none, List.nil_append] at announced
    cases after : outcome.session.groupKey with
    | none => exact .inl ⟨by rw [announced, after, Option.toList_none], rfl⟩
    | some key => exact .inr ⟨key, by rw [announced, after, Option.toList_some], rfl, rfl⟩
  | some held =>
    cases after : outcome.session.groupKey with
    | none => simp [before, after] at announced
    | some key =>
      simp only [before, after, Option.toList_some, List.cons_append, List.nil_append,
        List.cons.injEq] at announced
      exact .inl ⟨announced.2, by rw [announced.1]⟩

/-- A start opens the run of a session and does not end it. -/
theorem Coherent.start_keeps (coherent : s.Coherent K) (source : ρ) :
    (s.handle K .start source).session.groupKey = s.groupKey := by
  have starts := coherent.starts source
  generalize s.handle K .start source = outcome at starts
  cases starts <;> rfl

end Session

namespace Node

variable (node : Node) {K : Kem} {ρ : Type}

/-- The group key of a ring of the node. -/
def groupKey (level : Level) : Option GroupKey := (node.session? level).bind (·.groupKey)

/-- The messages among a session's actions, as the node sends them. -/
def relay (level : Level) (actions : List SessionAction) : List NodeAction :=
  (actions.filterMap (·.envelope?)).map (.send level)

theorem session?_withSession (level : Level) (s : Session) :
    (node.withSession level s).session? = Function.update node.session? level (some s) := by
  funext other
  cases level <;> cases other <;> rfl

theorem groupKey_withSession (level : Level) (s : Session) :
    (node.withSession level s).groupKey = Function.update node.groupKey level s.groupKey := by
  funext other
  cases level <;> cases other <;> rfl

@[simp] theorem distributor_withSession (level : Level) (s : Session) :
    (node.withSession level s).distributor = node.distributor := by
  cases level <;> rfl

/-- A distributor's answer becomes actions of the node, and a failure too. -/
theorem distribute_eq (level : Level) (key : GroupKey) :
    node.distribute level key =
      let outcome := node.distributor.record level key
      let after := { node with distributor := outcome.2 }
      match outcome.1 with
      | .ok actions => (actions.map after.ofDistributor, after)
      | .error e => ([.distributionFailed e], after) := by
  cases level <;> rfl

theorem distribute_node (level : Level) (key : GroupKey) :
    (node.distribute level key).2 =
      { node with distributor := (node.distributor.record level key).2 } := by
  rw [distribute_eq]
  dsimp only
  split <;> rfl

theorem groupKeys_ofDistributor (actions : List DistributorAction) (level : Level) :
    (actions.map node.ofDistributor).filterMap (·.groupKey? level) = [] := by
  refine List.filterMap_eq_nil_iff.2 fun action member => ?_
  obtain ⟨answer, _, rfl⟩ := List.mem_map.1 member
  cases answer <;> rfl

theorem distribute_groupKeys (level other : Level) (key : GroupKey) :
    (node.distribute level key).1.filterMap (·.groupKey? other) = [] := by
  rw [distribute_eq]
  dsimp only
  split
  next actions _ => exact groupKeys_ofDistributor _ actions other
  next => rfl

/-- What a distributor makes the effective key is announced. -/
theorem clusterKeys_ofDistributor (actions : List DistributorAction) :
    (actions.map node.ofDistributor).filterMap (·.clusterKey?) = actions.filterMap (·.key?) := by
  rw [List.filterMap_map]
  congr 1
  funext action
  cases action <;> rfl

theorem distribute_clusterKeys (level : Level) (key : GroupKey) :
    (node.distribute level key).1.filterMap (·.clusterKey?) =
      (DistributorOutcome.actions (node.distributor.record level key)).filterMap (·.key?) := by
  rw [distribute_eq]
  generalize node.distributor.record level key = outcome
  obtain ⟨result, d⟩ := outcome
  cases result with
  | ok actions => exact clusterKeys_ofDistributor _ actions
  | error => rfl

/-! ## Actions of a session -/

theorem filterMap_groupKey?_send (level other : Level) (mail : List Envelope) :
    (mail.map (NodeAction.send level)).filterMap (·.groupKey? other) = [] := by
  refine List.filterMap_eq_nil_iff.2 fun action member => ?_
  obtain ⟨e, _, rfl⟩ := List.mem_map.1 member
  rfl

theorem filterMap_clusterKey?_send (level : Level) (mail : List Envelope) :
    (mail.map (NodeAction.send level)).filterMap (·.clusterKey?) = [] := by
  refine List.filterMap_eq_nil_iff.2 fun action member => ?_
  obtain ⟨e, _, rfl⟩ := List.mem_map.1 member
  rfl

theorem applySession_silent (level : Level) {actions : List SessionAction}
    (silent : actions.filterMap (·.key?) = []) :
    applySession level node actions = (relay level actions, node) := by
  induction actions with
  | nil => rfl
  | cons action rest ih =>
    cases action with
    | send e =>
      rw [applySession, ih silent]
      rfl
    | established key => cases silent

/-- The distributor is told about a new group key between the messages before and after it. -/
theorem applySession_single (level : Level) {actions : List SessionAction} {key : GroupKey}
    (single : actions.filterMap (·.key?) = [key]) :
    ∃ early late, early ++ late = actions.filterMap (·.envelope?) ∧
      applySession level node actions =
        (early.map (.send level) ++ .sessionEstablished level key ::
          ((node.distribute level key).1 ++ late.map (.send level)),
          (node.distribute level key).2) := by
  induction actions with
  | nil => cases single
  | cons action rest ih =>
    cases action with
    | send e =>
      obtain ⟨early, late, mail, applied⟩ := ih single
      refine ⟨e :: early, late, ?_, ?_⟩
      · rw [List.cons_append, mail]
        rfl
      · rw [applySession, applied]
        rfl
    | established key' =>
      obtain ⟨rfl, silent⟩ := List.cons.inj single
      refine ⟨[], rest.filterMap (·.envelope?), rfl, ?_⟩
      rw [applySession]
      simp only [applySession_silent _ level silent]
      rfl

/-- How a node ends a step of its session on a level. -/
inductive Applied (node : Node) (level : Level) (before : Session) (outcome : SessionOutcome ρ) :
    NodeOutcome ρ → Prop
  | failed {error : SessionError} (failed : outcome.result = .error error)
      (kept : outcome.session.groupKey = before.groupKey) :
      Applied node level before outcome
        ⟨.error error, node.withSession level outcome.session, outcome.source⟩
  | silent (ok : outcome.error? = none) (kept : outcome.session.groupKey = before.groupKey) :
      Applied node level before outcome
        ⟨.ok (relay level outcome.actions), node.withSession level outcome.session, outcome.source⟩
  | completed {key : GroupKey} {early late : List Envelope} {distributed : List NodeAction}
      {after : Node} (ok : outcome.error? = none) (fresh : before.groupKey = none)
      (made : outcome.session.groupKey = some key) (mail : early ++ late = outcome.sends)
      (told : (node.withSession level outcome.session).distribute level key =
        (distributed, after)) :
      Applied node level before outcome
        ⟨.ok (early.map (.send level) ++ .sessionEstablished level key ::
          (distributed ++ late.map (.send level))), after, outcome.source⟩

theorem Applied.session?_eq {node : Node} {level : Level} {before : Session}
    {step : SessionOutcome ρ} {outcome : NodeOutcome ρ}
    (applied : node.Applied level before step outcome) :
    outcome.node.session? = Function.update node.session? level (some step.session) := by
  rw [← session?_withSession]
  cases applied with
  | failed => rfl
  | silent => rfl
  | completed _ _ _ _ told =>
    have after := congrArg Prod.snd told
    rw [distribute_node] at after
    subst after
    rfl

theorem handleSession_cases [RandomSource ρ] {s : Session} (coherent : s.Coherent K) (level : Level)
    (event : SessionEvent) (source : ρ) :
    node.Applied level s (s.handle K event source) (node.handleSession K level s event source) := by
  have announced := coherent.keys_cases event source
  simp only [handleSession]
  generalize s.handle K event source = outcome at announced
  obtain ⟨result, s', source'⟩ := outcome
  cases result with
  | error e =>
    rcases announced with ⟨_, kept⟩ | ⟨key, single, _⟩
    · exact .failed rfl kept
    · cases single
  | ok actions =>
    rcases announced with ⟨silent, kept⟩ | ⟨key, single, fresh, made⟩
    · have applied : applySession level (node.withSession level s') actions = _ :=
        applySession_silent _ level silent
      dsimp only
      rw [applied]
      exact .silent rfl kept
    · obtain ⟨early, late, mail, applied⟩ :=
        applySession_single (node.withSession level s') level single
      change applySession level (node.withSession level s') actions = _ at applied
      dsimp only
      rw [applied]
      exact .completed rfl fresh made mail rfl

theorem withSession_self {node : Node} {level : Level} {s : Session}
    (here : node.session? level = some s) : node.withSession level s = node := by
  cases level with
  | cluster =>
    obtain rfl := Option.some.inj here
    rfl
  | leader =>
    have led : node.leader = some s := here
    rw [withSession, ← led]

section Handle

variable {node : Node} [RandomSource ρ] {level : Level} {s s' : Session} {event : SessionEvent}
  {source source' : ρ}

theorem handleSession_of_refused {error : SessionError}
    (refused : s.handle K event source = ⟨.error error, s, source'⟩)
    (here : node.session? level = some s) :
    node.handleSession K level s event source = ⟨.error error, node, source'⟩ := by
  rw [handleSession, refused]
  dsimp only
  rw [withSession_self here]

theorem handleSession_of_passed (passed : s.handle K event source = ⟨.ok [], s, source'⟩)
    (here : node.session? level = some s) :
    node.handleSession K level s event source = ⟨.ok [], node, source'⟩ := by
  rw [handleSession, passed]
  dsimp only [applySession]
  rw [withSession_self here]

theorem handleSession_of_sent {e : Envelope}
    (sent : s.handle K event source = ⟨.ok [.send e], s', source'⟩) :
    node.handleSession K level s event source =
      ⟨.ok [.send level e], node.withSession level s', source'⟩ := by
  rw [handleSession, sent]
  rfl

end Handle

/-! ## Starts -/

section Start

variable {node : Node} [RandomSource ρ] {source : ρ}

/-- A node without a ring of leaders starts its one session. -/
theorem start_eq_first {outcome : NodeOutcome ρ}
    (first : node.handleSession K .cluster node.cluster .start source = outcome)
    (single : outcome.node.leader = none) : node.start K source = outcome := by
  rw [start, first]
  dsimp only
  split
  next led =>
    rw [single] at led
    cases led
  next => rfl

/-- A node in the ring of the leaders starts the session there after the other one. -/
theorem start_eq_second {outcome last : NodeOutcome ρ} {s : Session}
    (first : node.handleSession K .cluster node.cluster .start source = outcome)
    (ok : outcome.result = .ok outcome.actions) (led : outcome.node.leader = some s)
    (second : outcome.node.handleSession K .leader s .start outcome.source = last)
    (ok' : last.result = .ok last.actions) :
    node.start K source = ⟨.ok (outcome.actions ++ last.actions), last.node, last.source⟩ := by
  rw [start, first]
  simp only [ok, led, second, ok', Except.map]

/-- When the second start fails, the answer to the first one is lost. -/
theorem start_eq_halved {outcome last : NodeOutcome ρ} {s : Session} {error : SessionError}
    (first : node.handleSession K .cluster node.cluster .start source = outcome)
    (ok : outcome.result = .ok outcome.actions) (led : outcome.node.leader = some s)
    (second : outcome.node.handleSession K .leader s .start outcome.source = last)
    (failed : last.result = .error error) :
    node.start K source = ⟨.error error, last.node, last.source⟩ := by
  rw [start, first]
  simp only [ok, led, second, failed, Except.map]

end Start

/-! ## Messages -/

section Receive

variable {node : Node} [RandomSource ρ] {level : Level} {e : Envelope}

/-- A message of a ring goes to the session on its level. -/
theorem receive_of_ring_kind {s : Session} (here : node.session? level = some s)
    (kind : e.kind ≠ .wrappedKey ∧ e.kind ≠ .appMessage) (source : ρ) :
    node.receive K level e source = node.handleSession K level s (.received e) source := by
  rw [receive, here]
  split
  · rfl
  · rfl
  · rfl
  next wrapped => exact absurd wrapped kind.1
  next application => exact absurd application kind.2

theorem receive_of_absent (absent : node.session? level = none)
    (kind : e.kind ≠ .wrappedKey ∧ e.kind ≠ .appMessage) (source : ρ) :
    node.receive K level e source =
      ⟨.error (.unexpectedKind e.kind .nodeWithoutLeaderRing), node, source⟩ := by
  rw [receive, absent]
  split
  · rfl
  · rfl
  · rfl
  next wrapped => exact absurd wrapped kind.1
  next application => exact absurd application kind.2

theorem receive_of_cluster_kind (kind : e.kind = .wrappedKey ∨ e.kind = .appMessage) (source : ρ) :
    node.receive K level e source =
      ⟨(node.receiveClusterPayload level e).1, (node.receiveClusterPayload level e).2, source⟩ := by
  rw [receive]
  rcases kind with wrapped | application
  · rw [wrapped]
  · rw [application]

end Receive

end Node

end RingAgreement
