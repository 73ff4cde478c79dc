import RingAgreement.Node.Basic
import RingAgreement.Proofs.Node.Step
import RingAgreement.Proofs.Wire.Line
/-!
What every step of a node has in common, whatever the node has been through: it sends nothing but
messages of the ring protocol and wrapped keys, and it does not give up the key of its cluster.
-/

namespace RingAgreement

/-- A message of the ring protocol or a wrapped key. Only application messages are of any length. -/
inductive Envelope.Routine : Envelope → Prop
  | mk {p : Payload} (kind : p.kind ≠ .appMessage) (sender : UInt32) (recipient : Recipient) :
      Routine (p.toEnvelope sender recipient)

namespace Session

/-- All that a list of actions sends is routine. -/
def Mails (actions : List SessionAction) : Prop := ∀ e, .send e ∈ actions → e.Routine

theorem mails_nil : Mails [] := fun _ member => absurd member List.not_mem_nil

theorem mails_single {e : Envelope} (routine : e.Routine) : Mails [.send e] := by
  intro other member
  obtain rfl := SessionAction.send.inj (List.mem_singleton.1 member)
  exact routine

theorem Mails.append {actions more : List SessionAction} (mails : Mails actions)
    (others : Mails more) : Mails (actions ++ more) := by
  intro e member
  rcases List.mem_append.1 member with early | late
  · exact mails e early
  · exact others e late

section

variable (K : Kem) {s : Session} {ρ : Type} [RandomSource ρ] {actions : List SessionAction}

omit [RandomSource ρ] in
theorem mails_conclude (mails : Mails actions) (source : ρ) :
    Mails (s.conclude K actions source).actions := by
  unfold conclude
  split
  · exact mails_nil
  · exact mails
  · refine mails.append fun e member => ?_
    cases List.mem_singleton.1 member

theorem mails_advance (mails : Mails actions) (source : ρ) :
    Mails (s.advance K actions source).actions := by
  unfold advance
  split
  · split
    · exact mails_nil
    · exact mails_conclude K (mails.append (mails_single (.mk (by simp [Payload.kind]) _ _))) _
  · exact mails_conclude K mails source

theorem mails_receivePayload (sender : Fin s.roster.size) (payload : Payload) (source : ρ) :
    Mails (s.receivePayload K sender payload source).actions := by
  unfold receivePayload
  split
  · unfold receiveOffer
    split
    · exact mails_nil
    · split
      · exact mails_nil
      · dsimp only
        split
        · exact mails_nil
        · exact mails_advance K (mails_single (.mk (by simp [Payload.kind]) _ _)) _
  · unfold receiveResponse
    split
    · exact mails_nil
    · split
      · exact mails_nil
      · split
        · exact mails_nil
        · split
          · exact mails_nil
          · exact mails_advance K mails_nil _
  · unfold receiveContribution
    split
    · exact mails_nil
    · exact mails_advance K mails_nil _
  · exact mails_nil
  · exact mails_nil

theorem mails_handle (event : SessionEvent) (source : ρ) :
    Mails (s.handle K event source).actions := by
  unfold handle
  split
  · exact mails_nil
  · cases event with
    | start =>
      dsimp only
      unfold start
      split
      · exact mails_nil
      · dsimp only
        split
        · exact mails_nil
        · exact mails_advance K (mails_single (.mk (by simp [Payload.kind]) _ _)) _
    | received e =>
      dsimp only
      unfold receive
      split
      · split
        · exact mails_nil
        · split
          · exact mails_nil
          · exact mails_receivePayload K _ _ _
      · exact mails_nil

end

end Session

namespace Distributor

variable {d : Distributor} {effective : ClusterKey} (known : d.effective = some effective)
include known

theorem effective_install (key : ClusterKey) : (d.install key).2.effective = some effective := by
  simp [install, known]

theorem effective_tryWrap : d.tryWrap.2.effective = some effective := by
  simp [tryWrap, known]

theorem effective_unwrapWith (cluster : GroupKey) (wrapped : WrappedKey) :
    (d.unwrapWith cluster wrapped).2.effective = some effective := by
  unfold unwrapWith
  split
  · exact effective_install known _
  · exact known

theorem effective_clusterEstablished (key : GroupKey) :
    (d.clusterEstablished key).2.effective = some effective := by
  unfold clusterEstablished
  split
  · exact known
  · split
    · exact known
    · dsimp only
      split
      · exact effective_install (d := { d with clusterKey := some key }) known _
      · exact effective_tryWrap (d := { d with clusterKey := some key }) known
      · split
        · exact effective_unwrapWith
            (d := { d with clusterKey := some key, pending := none }) known _ _
        · exact known

theorem effective_leaderEstablished (key : GroupKey) :
    (d.leaderEstablished key).2.effective = some effective := by
  unfold leaderEstablished
  split
  · exact known
  · split
    · exact known
    · split
      · exact known
      · exact effective_tryWrap known

theorem effective_receiveWrapped (wrapped : WrappedKey) :
    (d.receiveWrapped wrapped).2.effective = some effective := by
  unfold receiveWrapped
  split
  · exact known
  · split
    · exact known
    · split
      · exact known
      · exact effective_unwrapWith known _ _

end Distributor

namespace Node

/-- A step that sends nothing but routine messages, does not give up the key of the cluster, and
keeps the node's place in it. -/
structure Ordinary {ρ : Type} (node : Node) (outcome : NodeOutcome ρ) : Prop where
  mails : ∀ level e, .send level e ∈ outcome.actions → e.Routine
  keeps : ∀ key, node.clusterKey = some key → outcome.node.clusterKey = some key
  index : outcome.node.clusterIndex = node.clusterIndex

theorem routine_ofDistributor (node : Node) {action : DistributorAction} {level : Level}
    {e : Envelope} (sent : node.ofDistributor action = .send level e) : e.Routine := by
  cases action with
  | broadcastWrapped wrapped =>
    obtain ⟨rfl, rfl⟩ := NodeAction.send.inj sent
    exact .mk (by simp [Payload.kind]) _ _
  | effectiveKey key => cases sent

theorem routine_distribute (node : Node) (level : Level) (key : GroupKey) {other : Level}
    {e : Envelope} (sent : .send other e ∈ (node.distribute level key).1) : e.Routine := by
  unfold distribute at sent
  dsimp only at sent
  split at sent
  · obtain ⟨action, -, made⟩ := List.mem_map.1 sent
    exact routine_ofDistributor _ made
  · cases List.mem_singleton.1 sent

theorem clusterKey_distribute {node : Node} {key : ClusterKey} (known : node.clusterKey = some key)
    (level : Level) (groupKey : GroupKey) :
    (node.distribute level groupKey).2.clusterKey = some key := by
  rw [distribute_node]
  cases level with
  | cluster => exact Distributor.effective_clusterEstablished known groupKey
  | leader => exact Distributor.effective_leaderEstablished known groupKey

theorem routine_applySession (level : Level) {node : Node} {actions : List SessionAction}
    (mails : Session.Mails actions) {other : Level} {e : Envelope}
    (sent : .send other e ∈ (applySession level node actions).1) : e.Routine := by
  induction actions generalizing node with
  | nil => cases sent
  | cons action rest ih =>
    have later := fun other member => mails other (List.mem_cons_of_mem _ member)
    cases action with
    | send first =>
      rcases List.mem_cons.1 sent with same | late
      · obtain ⟨rfl, rfl⟩ := NodeAction.send.inj same
        exact mails e List.mem_cons_self
      · exact ih later late
    | established key =>
      rcases List.mem_cons.1 sent with same | late
      · cases same
      · rcases List.mem_append.1 late with distributed | late
        · exact routine_distribute _ level key distributed
        · exact ih later late

theorem clusterKey_applySession (level : Level) {node : Node} {key : ClusterKey}
    (known : node.clusterKey = some key) (actions : List SessionAction) :
    (applySession level node actions).2.clusterKey = some key := by
  induction actions generalizing node with
  | nil => exact known
  | cons action rest ih =>
    cases action with
    | send e => exact ih known
    | established groupKey => exact ih (clusterKey_distribute known level groupKey)

theorem cluster_applySession (level : Level) (node : Node) (actions : List SessionAction) :
    (applySession level node actions).2.cluster = node.cluster := by
  induction actions generalizing node with
  | nil => rfl
  | cons action rest ih =>
    cases action with
    | send e => exact ih node
    | established key =>
      have told : (node.distribute level key).2.cluster = node.cluster := by rw [distribute_node]
      exact (ih _).trans told

theorem clusterIndex_withSession {node : Node} {level : Level} {s s' : Session}
    (here : node.session? level = some s) (same : s.SameParty s') :
    (node.withSession level s').clusterIndex = node.clusterIndex := by
  cases level with
  | cluster =>
    obtain rfl := Option.some.inj here
    exact congrArg UInt32.ofNat same.own_eq
  | leader => rfl

variable (K : Kem) {ρ : Type} [RandomSource ρ]

theorem ordinary_handleSession {node : Node} {level : Level} {session : Session}
    (here : node.session? level = some session) (event : SessionEvent) (source : ρ) :
    node.Ordinary (node.handleSession K level session event source) := by
  have mails := session.mails_handle K event source
  have same := session.sameParty_handle K event source
  unfold handleSession
  generalize session.handle K event source = outcome at mails same
  obtain ⟨result, session', source'⟩ := outcome
  have kept : (node.withSession level session').clusterKey = node.clusterKey :=
    congrArg Distributor.effective (distributor_withSession node level session')
  have index := clusterIndex_withSession here same
  cases result with
  | error error =>
    exact ⟨fun _ _ sent => absurd sent List.not_mem_nil, fun key known => kept.trans known, index⟩
  | ok actions =>
    refine ⟨fun other e sent => routine_applySession level mails sent,
      fun key known => clusterKey_applySession level (kept.trans known) actions, ?_⟩
    exact (congrArg Session.ownIndex (cluster_applySession level _ actions)).trans index

theorem ordinary_start (node : Node) (source : ρ) : node.Ordinary (node.start K source) := by
  have cluster : node.session? .cluster = some node.cluster := rfl
  have first := ordinary_handleSession K cluster .start source
  unfold start
  generalize node.handleSession K .cluster node.cluster .start source = outcome at first
  dsimp only
  split
  next actions leader ok led =>
    have second := ordinary_handleSession K
      (show outcome.node.session? .leader = some leader from led) .start outcome.source
    generalize outcome.node.handleSession K .leader leader .start outcome.source = last at second
    refine ⟨fun level e sent => ?_, fun key known => second.keeps key (first.keeps key known),
      second.index.trans first.index⟩
    obtain ⟨result, after, source'⟩ := last
    cases result with
    | error error => cases sent
    | ok more =>
      rcases List.mem_append.1 sent with early | late
      · exact first.mails level e (by rw [NodeOutcome.actions, ok]; exact early)
      · exact second.mails level e late
  next => exact first

omit [RandomSource ρ] in
theorem ordinary_receiveWrapped (node : Node) (wrapped : WrappedKey) (source : ρ) :
    node.Ordinary ⟨(node.receiveWrapped wrapped).1, (node.receiveWrapped wrapped).2, source⟩ := by
  refine ⟨fun level e sent => ?_,
    fun key known => Distributor.effective_receiveWrapped known wrapped, rfl⟩
  unfold receiveWrapped at sent
  generalize node.distributor.receiveWrapped wrapped = outcome at sent
  obtain ⟨result, d⟩ := outcome
  cases result with
  | error error => cases sent
  | ok actions =>
    obtain ⟨action, -, made⟩ := List.mem_map.1 sent
    exact routine_ofDistributor _ made

omit [RandomSource ρ] in
/-- An answer that sends nothing, from a node that stays as it is. -/
theorem ordinary_silent (node : Node) {result : Except SessionError (List NodeAction)} {source : ρ}
    (silent : ∀ level e, .send level e ∉ (NodeOutcome.mk result node source).actions) :
    node.Ordinary ⟨result, node, source⟩ :=
  ⟨fun level e sent => absurd sent (silent level e), fun _ known => known, rfl⟩

omit [RandomSource ρ] in
theorem ordinary_receiveClusterPayload (node : Node) (level : Level) (e : Envelope) (source : ρ) :
    node.Ordinary ⟨(node.receiveClusterPayload level e).1,
      (node.receiveClusterPayload level e).2, source⟩ := by
  unfold receiveClusterPayload
  split
  · exact node.ordinary_silent fun _ _ => List.not_mem_nil
  · exact node.ordinary_silent fun _ _ => List.not_mem_nil
  · split
    · exact node.ordinary_silent fun _ _ => List.not_mem_nil
    · exact node.ordinary_receiveWrapped _ source
    · refine node.ordinary_silent fun other sent => ?_
      unfold openMessage
      split
      · exact List.not_mem_nil
      · split
        · exact fun member => by cases List.mem_singleton.1 member
        · exact List.not_mem_nil
    · exact node.ordinary_silent fun _ _ => List.not_mem_nil

theorem ordinary_handle (node : Node) (event : NodeEvent) (source : ρ) :
    node.Ordinary (node.handle K event source) := by
  cases event with
  | start => exact node.ordinary_start K source
  | received level e =>
    change node.Ordinary (node.receive K level e source)
    by_cases kind : e.kind = .wrappedKey ∨ e.kind = .appMessage
    · rw [receive_of_cluster_kind kind]
      exact node.ordinary_receiveClusterPayload level e source
    · cases here : node.session? level with
      | none =>
        rw [receive_of_absent here (not_or.1 kind)]
        exact node.ordinary_silent fun _ _ => List.not_mem_nil
      | some s =>
        rw [receive_of_ring_kind here (not_or.1 kind)]
        exact ordinary_handleSession K here _ source

end Node

end RingAgreement
