import RingAgreement.Proofs.Medium.Exchange
import RingAgreement.Proofs.Node.Mail
import RingAgreement.Proofs.Node.Relay
import RingAgreement.Proofs.Node.Replay
import RingAgreement.Proofs.Node.Run
import RingAgreement.Proofs.Node.Seat
/-!
What a node sends when one of its sessions takes a message. The session names a new group key behind
all its messages, so they are out before the distributor is told, and whatever the distributor
answers stands behind them.
-/

namespace RingAgreement

/-! ## The order of a session's actions -/

namespace Session

variable {K : Kem} {s : Session} {ρ : Type} {actions : List SessionAction}

/-- Messages come first, and a new group key behind them. -/
def Ordered (actions : List SessionAction) : Prop :=
  actions = (actions.filterMap (·.envelope?)).map .send ++
    (actions.filterMap (·.key?)).map .established

theorem ordered_nil : Ordered [] := rfl

theorem sends_of_silent (silent : actions.filterMap (·.key?) = []) :
    actions = (actions.filterMap (·.envelope?)).map .send := by
  induction actions with
  | nil => rfl
  | cons action rest ih =>
    cases action with
    | send e => exact congrArg (SessionAction.send e :: ·) (ih silent)
    | established key => cases silent

theorem ordered_of_silent (silent : actions.filterMap (·.key?) = []) : Ordered actions := by
  rw [Ordered, silent, List.map_nil, List.append_nil]
  exact sends_of_silent silent

theorem ordered_established (silent : actions.filterMap (·.key?) = []) (key : GroupKey) :
    Ordered (actions ++ [.established key]) := by
  have mail : (actions ++ [SessionAction.established key]).filterMap (·.envelope?) =
      actions.filterMap (·.envelope?) := by
    rw [List.filterMap_append]
    exact List.append_nil _
  have keys : (actions ++ [SessionAction.established key]).filterMap (·.key?) = [key] := by
    rw [List.filterMap_append, silent]
    rfl
  rw [Ordered, mail, keys, ← sends_of_silent silent]
  rfl

theorem Running.ordered_conclude (running : s.Running) (silent : actions.filterMap (·.key?) = [])
    (source : ρ) : Ordered (s.conclude K actions source).actions := by
  have ended := s.conclude_cases K running actions source
  generalize s.conclude K actions source = outcome at ended
  cases ended with
  | waiting => exact ordered_of_silent silent
  | completed => exact ordered_established silent _
  | aborted => exact ordered_nil
  | refused => exact ordered_nil

theorem Running.ordered_advance [RandomSource ρ] (running : s.Running)
    (silent : actions.filterMap (·.key?) = []) (source : ρ) :
    Ordered (s.advance K actions source).actions := by
  have ended := s.advance_cases K actions source
  generalize s.advance K actions source = outcome at ended
  cases ended with
  | silent _ ended =>
    subst ended
    exact running.ordered_conclude silent source
  | broadcast _ _ c _ _ _ _ _ _ ended =>
    subst ended
    refine (running.withContribution s.own c).ordered_conclude ?_ _
    rw [List.filterMap_append, silent]
    rfl
  | refused => exact ordered_nil

/-- Whatever happens in a step, a new group key is the last thing that it names. -/
theorem Coherent.ordered_handle [RandomSource ρ] (coherent : s.Coherent K) (event : SessionEvent)
    (source : ρ) : Ordered (s.handle K event source).actions := by
  have step := coherent.stepped event source
  generalize s.handle K event source = outcome at step
  cases step with
  | kept idle =>
    rw [idle]
    exact ordered_nil
  | written _ write prepared => exact prepared.toRunning.ordered_advance write.silent _

end Session

/-- A message among the actions of a node, with its level. -/
def NodeAction.sent? : NodeAction → Option (Level × Envelope)
  | send level e => some (level, e)
  | _ => none

namespace Node

variable {K : Kem} {node : Node} {heard : WrappedKey → Prop} {ρ : Type} {level : Level}
  {s : Session} {actions : List SessionAction}

/-- What a node announces behind the messages of a session: nothing, or a new group key and what
its distributor makes of the key. -/
inductive News (node : Node) (level : Level) : List GroupKey → List NodeAction → Prop
  | nothing : News node level [] []
  | ignored {key : GroupKey} (told : (node.distributor.record level key).1 = .ok []) :
      News node level [key] [.sessionEstablished level key]
  | installed {key : GroupKey} {effective : ClusterKey}
      (told : (node.distributor.record level key).1 = .ok [.effectiveKey effective]) :
      News node level [key] [.sessionEstablished level key, .clusterKeyReady effective]
  | wrapped {key : GroupKey} {wrapped : WrappedKey} {effective : ClusterKey}
      (told : (node.distributor.record level key).1 =
        .ok [.broadcastWrapped wrapped, .effectiveKey effective]) :
      News node level [key] [.sessionEstablished level key, .send .cluster (node.parcel wrapped),
        .clusterKeyReady effective]
  | failed {key : GroupKey} {error : SessionError}
      (told : (node.distributor.record level key).1 = .error error) :
      News node level [key] [.sessionEstablished level key, .distributionFailed error]

variable {keys : List GroupKey} {news : List NodeAction}

/-- The only message among the news is a wrapped key for the cluster. -/
theorem News.sent (tells : node.News level keys news) :
    news.filterMap (·.sent?) = [] ∨ ∃ key ∈ keys, ∃ wrapped,
      news.filterMap (·.sent?) = [(.cluster, node.parcel wrapped)] := by
  cases tells with
  | wrapped => exact .inr ⟨_, List.mem_cons_self, _, rfl⟩
  | _ => exact .inl rfl

/-- The news tell of a failure exactly if the distributor has failed. -/
theorem News.failed_iff (tells : node.News level keys news) (error : SessionError) :
    .distributionFailed error ∈ news ↔
      ∃ key ∈ keys, (node.distributor.record level key).1 = .error error := by
  cases tells with
  | nothing => simp
  | ignored told => simp [told]
  | installed told => simp [told]
  | wrapped told => simp [told]
  | failed told => simp [told, eq_comm]

/-- The news of a distributor that fails. -/
theorem News.eq_of_failed {key : GroupKey} (tells : node.News level [key] news)
    {error : SessionError} (failed : (node.distributor.record level key).1 = .error error) :
    news = [.sessionEstablished level key, .distributionFailed error] := by
  cases tells with
  | ignored told => cases failed.symm.trans told
  | installed told => cases failed.symm.trans told
  | wrapped told => cases failed.symm.trans told
  | failed told =>
    obtain rfl := Except.error.inj (failed.symm.trans told)
    rfl

theorem sent_relay (level : Level) (actions : List SessionAction) :
    (relay level actions).filterMap (·.sent?) =
      (actions.filterMap (·.envelope?)).map (level, ·) := by
  rw [relay, List.filterMap_map]
  exact congrFun (List.filterMap_eq_map (f := (level, ·))) _

theorem failed_notMem_relay {error : SessionError} :
    .distributionFailed error ∉ relay level actions := by
  intro member
  obtain ⟨e, -, same⟩ := List.mem_map.1 member
  cases same

theorem applySession_send (level : Level) (node : Node) (mail : List Envelope)
    (rest : List SessionAction) :
    applySession level node (mail.map .send ++ rest) =
      (mail.map (.send level) ++ (applySession level node rest).1,
        (applySession level node rest).2) := by
  induction mail with
  | nil => rfl
  | cons e mail ih => rw [List.map_cons, List.cons_append, applySession, ih]; rfl

theorem applySession_established (level : Level) (node : Node) (key : GroupKey) :
    applySession level node [.established key] =
      (.sessionEstablished level key :: (node.distribute level key).1,
        (node.distribute level key).2) := by
  simp only [applySession, List.append_nil]

/-- How the node puts the answer of its distributor: a wrapped key is sent to the cluster. -/
theorem distribute_withSession {s' : Session} (here : node.session? level = some s)
    (member : s.SameParty s') (key : GroupKey) :
    ((node.withSession level s').distribute level key).1 =
      match (node.distributor.record level key).1 with
      | .ok answers => answers.map node.ofDistributor
      | .error error => [.distributionFailed error] := by
  have index := clusterIndex_withSession here member
  rw [distribute_eq, distributor_withSession]
  generalize node.distributor.record level key = outcome
  obtain ⟨result, distributor⟩ := outcome
  cases result with
  | error => rfl
  | ok answers =>
    refine List.map_congr_left fun answer _ => ?_
    cases answer with
    | broadcastWrapped wrapped =>
      change NodeAction.send .cluster ((Payload.wrappedKey wrapped).toEnvelope
        (node.withSession level s').clusterIndex .everyone) = _
      rw [index]
      rfl
    | effectiveKey => rfl

/-- A new group key, and what the distributor of a coherent node makes of it. -/
theorem Coherent.news_established {s' : Session} (coherent : node.Coherent K heard)
    (here : node.session? level = some s) (fresh : s.groupKey = none) (member : s.SameParty s')
    (key : GroupKey) : node.News level [key]
      (.sessionEstablished level key :: ((node.withSession level s').distribute level key).1) := by
  have recorded := Distributor.record_cases coherent.distributor (coherent.unknown here fresh)
    (coherent.leading_of_session here) key
  rw [distribute_withSession here member]
  generalize told : node.distributor.record level key = outcome at recorded
  replace told := congrArg Prod.fst told
  cases recorded with
  | used => exact .installed told
  | kept => exact .ignored told
  | wrapped => exact .wrapped told
  | awaiting => exact .ignored told
  | supplied _ _ _ opens =>
    cases opens with
    | opened => exact .installed told
    | spoilt => exact .failed told

/-- A node whose session answers passes on all that the session sends, and its news behind it. -/
theorem Coherent.handleSession_of_ok [RandomSource ρ] (coherent : node.Coherent K heard)
    (here : node.session? level = some s) {event : SessionEvent} {source : ρ}
    (accepted : (s.handle K event source).result = .ok actions) :
    let outcome := node.handleSession K level s event source
    ∃ news, node.News level (actions.filterMap (·.key?)) news ∧
      outcome.result = .ok (relay level actions ++ news) ∧
      outcome.node.session? =
        Function.update node.session? level (some (s.handle K event source).session) := by
  have coherent_s := coherent.session level s here
  have order := coherent_s.ordered_handle event source
  have announced := coherent_s.keys_cases event source
  have member := s.sameParty_handle K event source
  have kept := (node.handleSession_cases coherent_s level event source).session?_eq
  have ok : (s.handle K event source).actions = actions := by rw [SessionOutcome.actions, accepted]
  simp only [SessionOutcome.keys, ok] at announced
  rw [ok] at order
  intro outcome
  rcases announced with ⟨silent, -⟩ | ⟨key, single, fresh, -⟩
  · refine ⟨[], ?_, ?_, kept⟩
    · rw [silent]
      exact .nothing
    · simp only [outcome, Node.handleSession, accepted, applySession_silent _ level silent,
        List.append_nil]
  · have tells := coherent.news_established here fresh member key
    rw [← single] at tells
    refine ⟨_, tells, ?_, kept⟩
    have last : actions =
        (actions.filterMap (·.envelope?)).map .send ++ [.established key] := by
      rw [Session.Ordered, single] at order
      exact order
    have told := applySession_send level (node.withSession level (s.handle K event source).session)
      (actions.filterMap (·.envelope?)) [.established key]
    rw [← last, applySession_established] at told
    simp only [outcome, Node.handleSession, accepted, told, relay]

/-- When a message of the ring protocol is accepted by the session on its level, the node accepts it,
and its session is left as by the message alone. The node sends what the session sends, in that
order, and at most one message more: a wrapped key for its cluster, after a new group key. A
distributor that fails is reported behind the session's messages and takes none of them back. -/
theorem sends_survive_distribution (K : Kem) (layout : NodeLayout) (secretKey : SecretKey)
    (node : Node) (made : make layout secretKey = .ok node) {ρ : Type} [RandomSource ρ]
    (inputs : List (NodeEvent × ρ)) (level : Level) (s : Session)
    (here : (node.after K inputs).session? level = some s) (e : Envelope)
    (kind : e.kind ∈ [.akeInit, .akeRespond, .shareBroadcast]) (source : ρ)
    (actions : List SessionAction)
    (accepted : (s.handle K (.received e) source).result = .ok actions) :
    let reached := node.after K inputs
    let outcome := reached.handle K (.received level e) source
    ∃ announced, outcome.result = .ok announced ∧
      outcome.node.session? =
        Function.update reached.session? level (some (s.handle K (.received e) source).session) ∧
      (∃ news, announced = relay level actions ++ news ∧
        reached.News level (actions.filterMap (·.key?)) news) ∧
      (∃ extra, announced.filterMap (·.sent?) =
          (actions.filterMap (·.envelope?)).map (level, ·) ++ extra ∧
        (extra = [] ∨ ∃ key wrapped, .established key ∈ actions ∧
          extra = [(.cluster, reached.parcel wrapped)])) ∧
      ∀ error, .distributionFailed error ∈ announced ↔
        ∃ key, .established key ∈ actions ∧
          (reached.distributor.record level key).1 = .error error := by
  intro reached outcome
  have coherent : reached.Coherent K fun _ => True :=
    ((make_coherent made).1.after inputs fun _ _ _ _ => trivial).1
  have ring_kind : e.kind ≠ .wrappedKey ∧ e.kind ≠ .appMessage := by
    constructor
    · intro same
      simp [same] at kind
    · intro same
      simp [same] at kind
  have handled : outcome = reached.handleSession K level s (.received e) source :=
    receive_of_ring_kind here ring_kind source
  obtain ⟨news, tells, ok, kept⟩ := coherent.handleSession_of_ok here accepted
  have named (key : GroupKey) : key ∈ actions.filterMap (·.key?) ↔ .established key ∈ actions := by
    have named := (s.handle K (.received e) source).mem_keys key
    rwa [SessionOutcome.keys, SessionOutcome.actions, accepted] at named
  refine ⟨relay level actions ++ news, by rw [handled, ok], by rw [handled, kept],
    ⟨news, rfl, tells⟩, ⟨news.filterMap (·.sent?), ?_, ?_⟩, fun error => ?_⟩
  · rw [List.filterMap_append, sent_relay]
  · rcases tells.sent with none | ⟨key, new, wrapped, sent⟩
    · exact .inl none
    · exact .inr ⟨key, wrapped, (named key).1 new, sent⟩
  · rw [List.mem_append, or_iff_right failed_notMem_relay, tells.failed_iff]
    simp only [named]

end Node

namespace HonestRing.trio

/-- The other two parties. -/
def second : Fin trio.roster.size := ⟨1, by decide⟩

def third : Fin trio.roster.size := ⟨2, by decide⟩

/-- The share of a party, as it is broadcast. -/
def shareOf (x : trio.Exchange (⟨0⟩ : DrawCounter)) (i : Fin trio.roster.size) : Envelope :=
  (trio.fresh i).envelope (.shareBroadcast (x.contribution i))

/-- What the first party is handed before the answer of its right neighbour, which the shares of
the other two have overtaken. -/
def overtaken (x : trio.Exchange (⟨0⟩ : DrawCounter)) : List (SessionEvent × DrawCounter) :=
  let left := trio.roster.left first
  [(.start, ⟨0⟩), (.received ((trio.fresh left).envelope (.akeInit (x.offer left))), ⟨0⟩),
    (.received (shareOf x second), ⟨0⟩), (.received (shareOf x third), ⟨0⟩)]

/-- The same for a member, which keeps a wrapped key from before its start. -/
def misled (x : trio.Exchange (⟨0⟩ : DrawCounter)) (forged : WrappedKey) :
    List (NodeEvent × DrawCounter) :=
  (.received .cluster (broadcast (.wrappedKey forged)), ⟨0⟩) ::
    (overtaken x).map fun input => (.ofCluster input.1, input.2)

theorem ofRing_overtaken (x : trio.Exchange (⟨0⟩ : DrawCounter)) :
    ∀ input ∈ overtaken x, input.1.OfRing := by
  have ofRing : ∀ (i : Fin trio.roster.size) (p : Payload),
      p.kind ≠ .wrappedKey ∧ p.kind ≠ .appMessage →
        (SessionEvent.received ((trio.fresh i).envelope p)).OfRing := fun _ _ kind =>
    SessionEvent.ofRing_received kind
  simp only [overtaken, List.forall_mem_cons, List.not_mem_nil, false_implies, implies_true,
    and_true]
  exact ⟨SessionEvent.ofRing_start, ofRing _ _ (by simp [Payload.kind]),
    ofRing _ _ (by simp [Payload.kind]), ofRing _ _ (by simp [Payload.kind])⟩

/-- With the answer of its right neighbour the party sends its share and has the group key. -/
theorem handle_overtaken (x : trio.Exchange (⟨0⟩ : DrawCounter)) :
    let s := (trio.fresh first).after .transparent (overtaken x)
    let right := trio.roster.right first
    let e := (trio.fresh right).envelope (.akeRespond (x.response right))
    s.groupKey = none ∧ ∃ key, (s.handle .transparent (.received e) (⟨0⟩ : DrawCounter)).result =
      .ok [.send (shareOf x first), .established key] := by
  have second_ne : second ≠ first := by decide
  have third_ne : third ≠ first := by decide
  have distinct : third ≠ second := by decide
  exact x.exists_overtaken first second_ne third_ne distinct (by decide)

/-- Some wrapped key does not open. -/
theorem exists_spoilt (wrapping : WrappingKey) :
    ∃ wrapped, wrapping.unwrap wrapped = .error .wrappedKeyAuthentication := by
  by_cases tagged : wrapping.tag early.maskedKey = early.tag
  · refine ⟨⟨early.maskedKey, .replicate 32 1⟩, WrappingKey.unwrap_eq_error_iff_tag.2 ⟨rfl, ?_⟩⟩
    rw [tagged]
    decide
  · exact ⟨early, WrappingKey.unwrap_eq_error_iff_tag.2 ⟨rfl, tagged⟩⟩

/-- A member that keeps a forged wrapped key comes to the key of its ring in the step in which it
sends its share. The wrapped key does not open; the member sends its share all the same. -/
theorem misled_member_sends_share :
    ∃ (x : trio.Exchange (⟨0⟩ : DrawCounter)) (forged : WrappedKey) (s : Session) (key : GroupKey),
      let source : DrawCounter := ⟨0⟩
      let right := trio.roster.right first
      let e := (trio.fresh right).envelope (.akeRespond (x.response right))
      let reached := (waiting none).after .transparent (misled x forged)
      Node.make (layout .member) (trio.pair first).secretKey = .ok (waiting none) ∧
      reached.session? .cluster = some s ∧
      (s.handle .transparent (.received e) source).result =
        .ok [.send (shareOf x first), .established key] ∧
      (reached.distributor.record .cluster key).1 = .error (.verification .wrappedKeyTag) ∧
      (reached.handle .transparent (.received .cluster e) source).result =
        .ok [.send .cluster (shareOf x first), .sessionEstablished .cluster key,
          .distributionFailed (.verification .wrappedKeyTag)] := by
  obtain ⟨x⟩ := exists_exchange Kem.transparent_correct trio (⟨0⟩ : DrawCounter)
  obtain ⟨keyless, key, accepted⟩ := handle_overtaken x
  obtain ⟨forged, spoilt⟩ := exists_spoilt (WrappingKey.derive key)
  generalize run : (trio.fresh first).after .transparent (overtaken x) = s at keyless accepted
  refine ⟨x, forged, s, key, ?_⟩
  intro source right e reached
  -- No group key has come on the way, so the member still keeps the wrapped key.
  have placed : reached = { waiting (some forged) with cluster := s } := by
    have alone : (waiting (some forged)).leader = none := rfl
    simp only [reached, misled, Node.after, receive_wrapped]
    exact Node.after_ofCluster_of_keyless alone (trio.coherent_fresh first) (overtaken x)
      (ofRing_overtaken x) run keyless
  have here : reached.session? .cluster = some s := congrArg (·.session? .cluster) placed
  have failed : (reached.distributor.record .cluster key).1 =
      .error (.verification .wrappedKeyTag) := by
    have opening : (reached.distributor.record .cluster key).1 =
        (Distributor.unwrapWith { (waiting none).distributor with clusterKey := some key }
          key forged).1 := congrArg (fun node => (node.distributor.record .cluster key).1) placed
    rw [opening, Distributor.unwrapWith, spoilt]
  have kind : e.kind ∈ [.akeInit, .akeRespond, .shareBroadcast] := List.mem_cons_of_mem _ (.head _)
  obtain ⟨_, ok, -, ⟨news, rfl, tells⟩, -⟩ := Node.sends_survive_distribution .transparent
    (layout .member) _ _ make_member (misled x forged) .cluster s here e kind source _ accepted
  refine ⟨make_member, here, accepted, failed, ok.trans ?_⟩
  obtain rfl := Node.News.eq_of_failed tells failed
  rfl

end HonestRing.trio

end RingAgreement
