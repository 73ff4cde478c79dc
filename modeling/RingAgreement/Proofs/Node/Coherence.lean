import RingAgreement.Proofs.Node.Step
import RingAgreement.Proofs.Ring.Neighbors
import RingAgreement.Proofs.Wire.RoundTrip
/-!
What every step of a node keeps. Whatever a node is handed on its two levels, its distributor knows
the group keys of its sessions, its cluster key is the one its role asks for, and the keys that come
to it are announced in the step that brings them.
-/

namespace RingAgreement

/-- An event that brings a member of a ring a wrapped key from another member. -/
inductive NodeEvent.Offers (ring : Roster) (own : Nat) (wrapped : WrappedKey) : NodeEvent → Prop
  | mk {e : Envelope} (kind : e.kind = .wrappedKey) (inside : e.sender.toNat < ring.size)
      (foreign : e.sender.toNat ≠ own) (addressed : e.recipient.includes (.ofNat own) = true)
      (decoded : Payload.ofEnvelope e = .ok (.wrappedKey wrapped)) :
      Offers ring own wrapped (.received .cluster e)

namespace Node

variable {K : Kem} {node : Node} {heard : WrappedKey → Prop}

/-! ## The invariant -/

/-- What holds of a node between two events. -/
structure Coherent (K : Kem) (heard : WrappedKey → Prop) (node : Node) : Prop where
  session : ∀ level s, node.session? level = some s → s.Coherent K
  led : (node.session? .leader).isSome ↔ node.role = .leader
  known : node.distributor.key = node.groupKey
  distributor : node.distributor.Coherent heard

theorem Coherent.mono (coherent : node.Coherent K heard) {heard' : WrappedKey → Prop}
    (more : ∀ wrapped, heard wrapped → heard' wrapped) : node.Coherent K heard' :=
  { coherent with distributor := coherent.distributor.mono more }

/-- The same node at a later time. All keys that have come since are announced by the actions. -/
structure Continues (node : Node) (actions : List NodeAction) (later : Node) : Prop where
  member : node.cluster.SameParty later.cluster
  role : later.role = node.role
  groupKeys : ∀ level, (node.groupKey level).toList ++ actions.filterMap (·.groupKey? level) =
    (later.groupKey level).toList
  clusterKey : node.clusterKey.toList ++ actions.filterMap (·.clusterKey?) =
    later.clusterKey.toList

theorem Continues.refl (node : Node) : node.Continues [] node :=
  ⟨⟨_, _, rfl⟩, rfl, fun _ => by simp, by simp⟩

theorem Continues.trans {later last : Node} {actions more : List NodeAction}
    (first : node.Continues actions later) (second : later.Continues more last) :
    node.Continues (actions ++ more) last where
  member := first.member.trans second.member
  role := second.role.trans first.role
  groupKeys := by
    intro level
    rw [List.filterMap_append, ← List.append_assoc, first.groupKeys, second.groupKeys]
  clusterKey := by
    rw [List.filterMap_append, ← List.append_assoc, first.clusterKey, second.clusterKey]

theorem eq_some_of_toList_append {α : Type} {before after : Option α} {a : α} {more : List α}
    (grown : before.toList ++ more = after.toList) (held : before = some a) : after = some a := by
  subst held
  cases after with
  | none => cases grown
  | some b => rw [(List.cons.inj grown).1]

/-- No group key is lost. -/
theorem Continues.groupKey_eq {actions : List NodeAction} {later : Node}
    (continues : node.Continues actions later) {level : Level} {key : GroupKey}
    (held : node.groupKey level = some key) : later.groupKey level = some key :=
  eq_some_of_toList_append (continues.groupKeys level) held

/-- The key of the cluster is not lost. -/
theorem Continues.clusterKey_eq {actions : List NodeAction} {later : Node}
    (continues : node.Continues actions later) {key : ClusterKey}
    (held : node.clusterKey = some key) : later.clusterKey = some key :=
  eq_some_of_toList_append continues.clusterKey held

/-! ## Steps of a session -/

section Step

variable {level : Level} {s s' : Session}

theorem member_withSession (here : node.session? level = some s) (member : s.SameParty s') :
    node.cluster.SameParty (node.withSession level s').cluster := by
  cases level with
  | cluster =>
    obtain rfl := Option.some.inj here
    exact member
  | leader => exact ⟨_, _, rfl⟩

theorem groupKey_withSession_of_kept (here : node.session? level = some s)
    (kept : s'.groupKey = s.groupKey) : (node.withSession level s').groupKey = node.groupKey := by
  have same : s'.groupKey = node.groupKey level := by
    rw [groupKey, here, kept]
    rfl
  rw [groupKey_withSession, same, Function.update_eq_self]

theorem Coherent.session_withSession (coherent : node.Coherent K heard)
    (s'_coherent : s'.Coherent K) (other : Level) (t : Session)
    (there : (node.withSession level s').session? other = some t) : t.Coherent K := by
  rw [session?_withSession] at there
  by_cases hit : other = level
  · subst hit
    rw [Function.update_self] at there
    obtain rfl := Option.some.inj there
    exact s'_coherent
  · rw [Function.update_of_ne hit] at there
    exact coherent.session other t there

theorem Coherent.led_withSession (coherent : node.Coherent K heard)
    (here : node.session? level = some s) :
    ((node.withSession level s').session? .leader).isSome ↔ node.role = .leader := by
  rw [← coherent.led, session?_withSession]
  cases level with
  | cluster => rfl
  | leader => simp [here]

theorem Coherent.withSession (coherent : node.Coherent K heard)
    (here : node.session? level = some s) (s'_coherent : s'.Coherent K)
    (kept : s'.groupKey = s.groupKey) : (node.withSession level s').Coherent K heard where
  session := coherent.session_withSession s'_coherent
  led := by
    rw [coherent.led_withSession here, role, role, distributor_withSession]
  known := by
    rw [distributor_withSession, groupKey_withSession_of_kept here kept, coherent.known]
  distributor := by
    rw [distributor_withSession]
    exact coherent.distributor

theorem continues_withSession (here : node.session? level = some s) (member : s.SameParty s')
    (kept : s'.groupKey = s.groupKey) {actions : List NodeAction}
    (groupKeys : ∀ level, actions.filterMap (·.groupKey? level) = [])
    (clusterKeys : actions.filterMap (·.clusterKey?) = []) :
    node.Continues actions (node.withSession level s') where
  member := member_withSession here member
  role := by rw [role, distributor_withSession, role]
  groupKeys := by
    intro other
    rw [groupKeys, List.append_nil, groupKey_withSession_of_kept here kept]
  clusterKey := by
    rw [clusterKeys, List.append_nil, clusterKey, clusterKey, distributor_withSession]

theorem Coherent.unknown (coherent : node.Coherent K heard) (here : node.session? level = some s)
    (fresh : s.groupKey = none) : node.distributor.key level = none := by
  rw [coherent.known, groupKey, here, Option.bind_some, fresh]

theorem Coherent.leading_of_session (coherent : node.Coherent K heard)
    (here : node.session? level = some s) : level = .leader → node.distributor.role = .leader := by
  rintro rfl
  exact coherent.led.1 (by simp [here])

/-- A node whose session has come to its key tells its distributor. -/
theorem Coherent.established (coherent : node.Coherent K heard)
    (here : node.session? level = some s) (s'_coherent : s'.Coherent K) (fresh : s.groupKey = none)
    {key : GroupKey} (made : s'.groupKey = some key) :
    ((node.withSession level s').distribute level key).2.Coherent K heard := by
  have unknown := coherent.unknown here fresh
  have leading := coherent.leading_of_session here
  have recorded := Distributor.record_cases coherent.distributor unknown leading key
  rw [distribute_node, distributor_withSession]
  exact {
    session := coherent.session_withSession s'_coherent
    led := (coherent.led_withSession here).trans (by rw [role, role, recorded.role_eq])
    known := by
      rw [recorded.key_eq, coherent.known, ← made]
      exact (groupKey_withSession node level s').symm
    distributor := recorded.coherent coherent.distributor unknown leading }

theorem Coherent.continues_established (coherent : node.Coherent K heard)
    (here : node.session? level = some s) (member : s.SameParty s') (fresh : s.groupKey = none)
    {key : GroupKey} (made : s'.groupKey = some key) (early late : List Envelope) :
    let told := (node.withSession level s').distribute level key
    node.Continues (early.map (.send level) ++ .sessionEstablished level key ::
      (told.1 ++ late.map (.send level))) told.2 := by
  have unknown := coherent.unknown here fresh
  have leading := coherent.leading_of_session here
  have recorded := Distributor.record_cases coherent.distributor unknown leading key
  have announced := recorded.announces (coherent.distributor.unset_of_fresh unknown leading)
  intro told
  have after : told.2 = { node.withSession level s' with
      distributor := (node.distributor.record level key).2 } := by
    rw [distribute_node, distributor_withSession]
  exact {
    member := by
      rw [after]
      exact member_withSession here member
    role := by
      rw [after]
      exact recorded.role_eq
    groupKeys := by
      intro other
      have keys : told.2.groupKey = Function.update node.groupKey level (some key) := by
        rw [after, ← made]
        exact groupKey_withSession node level s'
      have keyless : node.groupKey level = none := by rw [← coherent.known, unknown]
      simp only [keys, List.filterMap_append, filterMap_groupKey?_send, List.nil_append,
        List.append_nil, List.filterMap_cons, NodeAction.groupKey?_sessionEstablished, told,
        distribute_groupKeys]
      by_cases hit : level = other
      · subst hit
        simp [keyless]
      · simp [hit, Function.update_of_ne (Ne.symm hit)]
    clusterKey := by
      rw [after]
      simp only [List.filterMap_append, filterMap_clusterKey?_send, List.nil_append,
        List.append_nil, List.filterMap_cons, NodeAction.clusterKey?_sessionEstablished, told,
        distribute_clusterKeys, distributor_withSession]
      exact announced }

end Step

/-! ## Steps of a node -/

variable {ρ : Type}

/-- What a step of a node keeps. -/
structure Keeps (K : Kem) (heard : WrappedKey → Prop) (node : Node) (outcome : NodeOutcome ρ) :
    Prop where
  coherent : outcome.node.Coherent K heard
  continues : node.Continues outcome.actions outcome.node

theorem Applied.keeps {level : Level} {s : Session} {step : SessionOutcome ρ}
    {outcome : NodeOutcome ρ} (applied : node.Applied level s step outcome)
    (coherent : node.Coherent K heard) (here : node.session? level = some s)
    (still : step.session.Coherent K) (member : s.SameParty step.session) :
    node.Keeps K heard outcome := by
  cases applied with
  | failed failed kept =>
    exact ⟨coherent.withSession here still kept,
      continues_withSession here member kept (fun _ => rfl) rfl⟩
  | silent ok kept =>
    exact ⟨coherent.withSession here still kept,
      continues_withSession here member kept (filterMap_groupKey?_send level · _)
        (filterMap_clusterKey?_send level _)⟩
  | completed ok fresh made mail told =>
    have established := coherent.established here still fresh made
    have continues := coherent.continues_established here member fresh made
    rw [told] at established continues
    exact ⟨established, continues _ _⟩

variable [RandomSource ρ]

theorem Coherent.handleSession (coherent : node.Coherent K heard) {level : Level} {s : Session}
    (here : node.session? level = some s) (event : SessionEvent) (source : ρ) :
    node.Keeps K heard (node.handleSession K level s event source) := by
  have s_coherent := coherent.session level s here
  exact (node.handleSession_cases s_coherent level event source).keeps coherent here
    (s_coherent.handle event source) (s.sameParty_handle K event source)

theorem Coherent.start (coherent : node.Coherent K heard) (source : ρ) :
    node.Keeps K heard (node.start K source) := by
  have own : node.session? .cluster = some node.cluster := rfl
  have first := coherent.handleSession own .start source
  have cluster := coherent.session .cluster _ rfl
  have applied := node.handleSession_cases cluster .cluster .start source
  rw [Node.start]
  dsimp only
  generalize node.handleSession K .cluster node.cluster .start source = outcome at first applied
  split
  next actions leader ok here =>
    have led : outcome.node.session? .leader = some leader := here
    have second := first.coherent.handleSession led .start outcome.source
    generalize outcome.node.handleSession K .leader leader .start outcome.source = last at second
    obtain ⟨result, after, source'⟩ := last
    cases result with
    | ok more =>
      have continues := first.continues
      rw [NodeOutcome.actions, ok] at continues
      exact ⟨second.coherent, continues.trans second.continues⟩
    | error e =>
      -- The answer of the cluster's session is lost, but it announces nothing.
      have silent : node.Continues [] outcome.node := by
        cases applied with
        | failed _ kept =>
          exact continues_withSession own (node.cluster.sameParty_handle K _ _) kept
            (fun _ => rfl) rfl
        | silent _ kept =>
          exact continues_withSession own (node.cluster.sameParty_handle K _ _) kept
            (fun _ => rfl) rfl
        | completed _ fresh made =>
          rw [cluster.start_keeps, fresh] at made
          cases made
      exact ⟨second.coherent, silent.trans second.continues⟩
  next => exact first

/-! ## Messages of the cluster -/

theorem clusterSender_eq_some {level : Level} {e : Envelope} {sender : UInt32}
    (admitted : node.clusterSender level e = .ok (some sender)) :
    level = .cluster ∧ e.sender.toNat < node.cluster.roster.size ∧
      e.sender.toNat ≠ node.cluster.own ∧ e.recipient.includes node.clusterIndex = true := by
  rw [clusterSender] at admitted
  split at admitted
  · cases admitted
  next here =>
    split at admitted
    · cases admitted
    next inside =>
      split at admitted
      · cases admitted
      next concerned =>
        obtain ⟨foreign, addressed⟩ := not_or.1 concerned
        refine ⟨not_not.1 here, Nat.not_le.1 inside, fun own => foreign ?_,
          by simpa using addressed⟩
        rw [← UInt32.toNat_inj, own]
        exact (node.cluster.roster.toNat_ofNat node.cluster.own).symm

omit [RandomSource ρ] in
theorem Coherent.receiveWrapped (coherent : node.Coherent K heard) {wrapped : WrappedKey}
    (came : heard wrapped) (source : ρ) :
    node.Keeps K heard
      ⟨(node.receiveWrapped wrapped).1, (node.receiveWrapped wrapped).2, source⟩ := by
  have received := node.distributor.receiveWrapped_cases wrapped
  rw [Node.receiveWrapped]
  generalize node.distributor.receiveWrapped wrapped = outcome at received
  obtain ⟨result, d⟩ := outcome
  have announced := received.announces
  refine ⟨⟨coherent.session, ?_, ?_, received.coherent coherent.distributor came⟩,
    ⟨⟨_, _, rfl⟩, received.role_eq, fun level => ?_, ?_⟩⟩
  · exact coherent.led.trans (by rw [role, role, ← received.role_eq])
  · exact received.key_eq.trans coherent.known
  · cases result with
    | error => exact List.append_nil _
    | ok actions =>
      change _ ++ (actions.map _).filterMap _ = _
      rw [groupKeys_ofDistributor, List.append_nil]
      rfl
  · cases result with
    | error => exact announced
    | ok actions =>
      change _ ++ (actions.map _).filterMap _ = _
      rw [clusterKeys_ofDistributor]
      exact announced

omit [RandomSource ρ] in
/-- An answer that announces nothing, from a node that stays as it is. -/
theorem Coherent.unchanged (coherent : node.Coherent K heard)
    {result : Except SessionError (List NodeAction)} {source : ρ}
    (groupKeys : ∀ level, (NodeOutcome.mk result node source).actions.filterMap
      (·.groupKey? level) = [])
    (clusterKeys : (NodeOutcome.mk result node source).actions.filterMap (·.clusterKey?) = []) :
    node.Keeps K heard ⟨result, node, source⟩ where
  coherent := coherent
  continues := by
    refine ⟨⟨_, _, rfl⟩, rfl, fun level => ?_, ?_⟩
    · rw [groupKeys, List.append_nil]
    · rw [clusterKeys, List.append_nil]

omit [RandomSource ρ] in
theorem Coherent.receiveClusterPayload (coherent : node.Coherent K heard) {level : Level}
    {e : Envelope} (offered : ∀ wrapped,
      (NodeEvent.received level e).Offers node.cluster.roster node.cluster.own wrapped →
        heard wrapped) (source : ρ) :
    node.Keeps K heard
      ⟨(node.receiveClusterPayload level e).1, (node.receiveClusterPayload level e).2, source⟩ := by
  rw [Node.receiveClusterPayload]
  split
  next => exact coherent.unchanged (fun _ => rfl) rfl
  next => exact coherent.unchanged (fun _ => rfl) rfl
  next sender admitted =>
    obtain ⟨rfl, inside, foreign, addressed⟩ := clusterSender_eq_some admitted
    split
    next => exact coherent.unchanged (fun _ => rfl) rfl
    next wrapped decoded =>
      have kind := Payload.kind_of_ofEnvelope decoded
      exact coherent.receiveWrapped
        (offered wrapped (.mk kind.symm inside foreign addressed decoded)) source
    next message decoded =>
      rw [openMessage]
      split
      next => exact coherent.unchanged (fun _ => rfl) rfl
      next =>
        split
        next => exact coherent.unchanged (fun _ => rfl) rfl
        next => exact coherent.unchanged (fun _ => rfl) rfl
    next => exact coherent.unchanged (fun _ => rfl) rfl

theorem Coherent.receive (coherent : node.Coherent K heard) {level : Level} {e : Envelope}
    (offered : ∀ wrapped,
      (NodeEvent.received level e).Offers node.cluster.roster node.cluster.own wrapped →
        heard wrapped) (source : ρ) :
    node.Keeps K heard (node.receive K level e source) := by
  by_cases kind : e.kind = .wrappedKey ∨ e.kind = .appMessage
  · rw [receive_of_cluster_kind kind]
    exact coherent.receiveClusterPayload offered source
  · cases here : node.session? level with
    | none =>
      rw [receive_of_absent here (not_or.1 kind)]
      exact coherent.unchanged (fun _ => rfl) rfl
    | some s =>
      rw [receive_of_ring_kind here (not_or.1 kind)]
      exact coherent.handleSession here _ source

/-- A step keeps the invariant, once what the event brings counts as heard. -/
theorem Coherent.handle (coherent : node.Coherent K heard) {event : NodeEvent}
    (offered : ∀ wrapped, event.Offers node.cluster.roster node.cluster.own wrapped →
      heard wrapped) (source : ρ) : node.Keeps K heard (node.handle K event source) := by
  cases event with
  | start => exact coherent.start source
  | received level e => exact coherent.receive offered source

end Node

end RingAgreement
