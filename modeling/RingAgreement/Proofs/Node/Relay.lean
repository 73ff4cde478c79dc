import RingAgreement.Proofs.Cluster.SealedMessage
import RingAgreement.Proofs.Node.Coherence
import RingAgreement.Proofs.Node.Supply
/-!
What a node sends. It passes on the messages of its sessions, and it broadcasts a wrapped key in its
cluster when, as a leader, it comes to both group keys; nothing else leaves it. What another member
broadcasts is taken in one step.
-/

namespace RingAgreement

/-- The failure that an action reports. -/
def NodeAction.error? : NodeAction → Option SessionError
  | distributionFailed e => some e
  | _ => none

namespace Node

variable {K : Kem} {node : Node} {heard : WrappedKey → Prop} {ρ : Type} {level : Level}
  {s : Session} {step : SessionOutcome ρ} {outcome : NodeOutcome ρ}

/-- The broadcast of a wrapped key. -/
def parcel (node : Node) (wrapped : WrappedKey) : Envelope :=
  (Payload.wrappedKey wrapped).toEnvelope node.clusterIndex .everyone

/-- A step of a session that does not fail, as it looks from outside the node. -/
structure Relays (node : Node) (level : Level) (step : SessionOutcome ρ) (outcome : NodeOutcome ρ) :
    Prop where
  ok : outcome.result = .ok outcome.actions
  unfailing : outcome.actions.filterMap (·.error?) = []
  alive : outcome.node.distributor.aborted = node.distributor.aborted
  supplied : node.distributor.Supplied → outcome.node.distributor.Supplied
  relayed : ∀ e ∈ step.sends, .send level e ∈ outcome.actions
  sent : ∀ other e, .send other e ∈ outcome.actions → (other = level ∧ e ∈ step.sends) ∨
    other = .cluster ∧ node.role = .leader ∧ ∃ g k, outcome.node.groupKey .cluster = some g ∧
      outcome.node.groupKey .leader = some k ∧
        e = outcome.node.parcel ((WrappingKey.derive g).wrap k.key)
  broadcast : node.role = .leader → node.clusterKey = none → outcome.node.clusterKey.isSome →
    ∃ wrapped, .send .cluster (outcome.node.parcel wrapped) ∈ outcome.actions

theorem send_mem_map {level other : Level} {mail : List Envelope} {e : Envelope} :
    .send other e ∈ mail.map (NodeAction.send level) ↔ other = level ∧ e ∈ mail := by
  rw [List.mem_map]
  constructor
  · rintro ⟨_, member, same⟩
    obtain ⟨rfl, rfl⟩ := NodeAction.send.inj same
    exact ⟨rfl, member⟩
  · rintro ⟨rfl, member⟩
    exact ⟨e, member, rfl⟩

theorem errors_send (level : Level) (mail : List Envelope) :
    (mail.map (NodeAction.send level)).filterMap (·.error?) = [] := by
  refine List.filterMap_eq_nil_iff.2 fun action member => ?_
  obtain ⟨e, _, rfl⟩ := List.mem_map.1 member
  rfl

theorem errors_ofDistributor (actions : List DistributorAction) :
    (actions.map node.ofDistributor).filterMap (·.error?) = [] := by
  refine List.filterMap_eq_nil_iff.2 fun action member => ?_
  obtain ⟨answer, _, rfl⟩ := List.mem_map.1 member
  cases answer <;> rfl

theorem send_mem_ofDistributor {actions : List DistributorAction} {other : Level} {e : Envelope} :
    .send other e ∈ actions.map node.ofDistributor ↔
      other = .cluster ∧ ∃ wrapped, .broadcastWrapped wrapped ∈ actions ∧
        e = node.parcel wrapped := by
  rw [List.mem_map]
  constructor
  · rintro ⟨action, member, shown⟩
    cases action with
    | broadcastWrapped wrapped =>
      obtain ⟨rfl, rfl⟩ := NodeAction.send.inj shown
      exact ⟨rfl, wrapped, member, rfl⟩
    | effectiveKey => cases shown
  · rintro ⟨rfl, wrapped, member, rfl⟩
    exact ⟨_, member, rfl⟩

theorem Applied.relays (applied : node.Applied level s step outcome)
    (coherent : node.Coherent K heard) (here : node.session? level = some s)
    (still : step.session.Coherent K) (member : s.SameParty step.session)
    (ok : step.error? = none)
    (fits : level = .cluster → ∀ key, step.session.groupKey = some key →
      ∀ wrapped, node.distributor.pending = some wrapped →
        ∃ inner, (WrappingKey.derive key).wrap inner = wrapped) :
    node.Relays level step outcome := by
  have keeps := applied.keeps coherent here still member
  cases applied with
  | failed failed =>
    rw [SessionOutcome.error?, failed] at ok
    cases ok
  | silent _ kept =>
    exact {
      ok := rfl
      unfailing := errors_send level _
      alive := by rw [distributor_withSession]
      supplied := by
        rw [distributor_withSession]
        exact id
      relayed := fun e member => List.mem_map_of_mem member
      sent := fun other e member => .inl (send_mem_map.1 member)
      broadcast := by
        intro _ unset installed
        rw [clusterKey, distributor_withSession] at installed
        rw [clusterKey] at unset
        simp [unset] at installed }
  | @completed key early late distributed after _ fresh made mail told =>
    have unknown := coherent.unknown here fresh
    have leading := coherent.leading_of_session here
    have recorded := Distributor.record_cases coherent.distributor unknown leading key
    have smooth := recorded.smooth fun cluster => fits cluster key made
    have unset := coherent.distributor.unset_of_fresh unknown leading
    rw [distribute_eq, distributor_withSession] at told
    dsimp only at told
    rw [smooth.ok] at told
    obtain ⟨rfl, rfl⟩ := Prod.mk.inj told
    have keyed := congrFun keeps.coherent.known
    exact {
      ok := rfl
      unfailing := by
        simp only [NodeOutcome.actions, List.filterMap_append, List.filterMap_cons, errors_send,
          errors_ofDistributor]
        rfl
      alive := smooth.alive
      supplied := smooth.supplied
      relayed := by
        intro e member
        rw [← mail, List.mem_append] at member
        rcases member with member | member
        · exact List.mem_append_left _ (List.mem_map_of_mem member)
        · exact List.mem_append_right _ (List.mem_cons_of_mem _
            (List.mem_append_right _ (List.mem_map_of_mem member)))
      sent := by
        intro other e member
        rw [← mail]
        rcases List.mem_append.1 member with member | member
        · exact .inl ((send_mem_map.1 member).imp_right (List.mem_append_left late))
        rcases List.mem_append.1 (List.mem_of_ne_of_mem (by simp) member) with member | member
        · obtain ⟨own, wrapped, shown, rfl⟩ := send_mem_ofDistributor.1 member
          obtain ⟨leads, g, k, clusterKey, leaderKey, rfl⟩ := recorded.broadcast shown
          exact .inr ⟨own, leads, g, k, (keyed .cluster).symm.trans clusterKey,
            (keyed .leader).symm.trans leaderKey, rfl⟩
        · exact .inl ((send_mem_map.1 member).imp_right (List.mem_append_right early))
      broadcast := by
        intro leads _ installed
        obtain ⟨wrapped, shown⟩ := recorded.broadcasts leads unset installed
        refine ⟨wrapped, List.mem_append_right _ (List.mem_cons_of_mem _
          (List.mem_append_left _ ?_))⟩
        exact send_mem_ofDistributor.2 ⟨rfl, wrapped, shown, rfl⟩ }

/-! ## Broadcasts of other members -/

theorem clusterSender_toEnvelope {sender : Fin node.cluster.roster.size}
    (foreign : (sender : Nat) ≠ node.cluster.own) (payload : Payload) :
    node.clusterSender .cluster (payload.toEnvelope (.ofNat sender) .everyone) =
      .ok (some (.ofNat sender)) := by
  have position : (UInt32.ofNat sender).toNat = sender := node.cluster.roster.toNat_ofNat sender
  let e := payload.toEnvelope (.ofNat sender) .everyone
  have others : ¬ (e.sender = node.clusterIndex ∨
      (!e.recipient.includes node.clusterIndex) = true) := by
    rintro (same | elsewhere)
    · apply foreign
      rw [← position, show UInt32.ofNat sender = node.clusterIndex from same]
      exact node.cluster.roster.toNat_ofNat node.cluster.own
    · cases elsewhere
  have inside : ¬ node.cluster.roster.size ≤ e.sender.toNat := by
    rw [show e.sender.toNat = sender from position]
    exact Nat.not_le.2 sender.isLt
  rw [clusterSender, if_neg (by simp), if_neg inside, if_neg others]
  rfl

/-- A node hands a wrapped key that another member of its cluster has sent to its distributor. -/
theorem handle_wrapped [RandomSource ρ] {sender : Fin node.cluster.roster.size}
    (foreign : (sender : Nat) ≠ node.cluster.own) (wrapped : WrappedKey) (source : ρ) :
    let e := (Payload.wrappedKey wrapped).toEnvelope (.ofNat sender) .everyone
    node.handle K (.received .cluster e) source =
      ⟨(node.receiveWrapped wrapped).1, (node.receiveWrapped wrapped).2, source⟩ := by
  intro e
  have admitted : node.clusterSender .cluster e = .ok (some (.ofNat sender)) :=
    clusterSender_toEnvelope foreign _
  have sendable : (Payload.wrappedKey wrapped).Sendable := trivial
  have decoded : Payload.ofEnvelope e = .ok (.wrappedKey wrapped) :=
    Payload.ofEnvelope_toEnvelope sendable _ _
  have given : node.receiveClusterPayload .cluster e = node.receiveWrapped wrapped := by
    simp only [receiveClusterPayload, admitted, decoded]
  have kind : e.kind = .wrappedKey := rfl
  simp only [handle, receive, kind, given]

/-- A node that has its cluster key delivers what was sealed with it. -/
theorem handle_sealed [RandomSource ρ] {sender : UInt32} {key : ClusterKey}
    (known : node.clusterKey = some key) (plaintext : List UInt8) (nonce : Bytes 24) (source : ρ) :
    let e := (Payload.appMessage (.make key sender plaintext nonce)).toEnvelope sender .everyone
    node.clusterSender .cluster e = .ok (some sender) →
      node.handle K (.received .cluster e) source =
        ⟨.ok [.deliver sender plaintext], node, source⟩ := by
  intro e admitted
  have sendable : (Payload.appMessage (.make key sender plaintext nonce)).Sendable := by
    rw [Payload.Sendable, SealedMessage.length_ciphertext_make]
    exact Nat.le_add_left _ _
  have decoded : Payload.ofEnvelope e = .ok (.appMessage (.make key sender plaintext nonce)) :=
    Payload.ofEnvelope_toEnvelope sendable _ _
  rw [handle, receive_of_cluster_kind (.inr rfl), receiveClusterPayload, admitted]
  simp only [decoded, openMessage, known, SealedMessage.openWith_make]

/-- A wrapped key that is taken without trouble, as it looks from outside the node. -/
structure Stores (node : Node) (outcome : NodeOutcome ρ) : Prop where
  ok : outcome.result = .ok outcome.actions
  unfailing : outcome.actions.filterMap (·.error?) = []
  silent : ∀ level e, .send level e ∉ outcome.actions
  kept : outcome.node.session? = node.session?
  alive : outcome.node.distributor.aborted = node.distributor.aborted
  supplied : outcome.node.distributor.Supplied

theorem stores_of_member (member : node.role = .member)
    (alive : node.distributor.aborted = false) {wrapped : WrappedKey}
    (fits : ∀ cluster, node.distributor.clusterKey = some cluster →
      ∃ inner, (WrappingKey.derive cluster).wrap inner = wrapped) (source : ρ) :
    node.Stores ⟨(node.receiveWrapped wrapped).1, (node.receiveWrapped wrapped).2, source⟩ := by
  have received := node.distributor.receiveWrapped_cases wrapped
  rw [Node.receiveWrapped]
  generalize node.distributor.receiveWrapped wrapped = outcome at received
  obtain ⟨smooth, supplied⟩ := received.smooth alive member fits
  obtain ⟨result, d⟩ := outcome
  cases result with
  | error e => cases smooth.ok
  | ok actions =>
    exact {
      ok := rfl
      unfailing := errors_ofDistributor _
      silent := by
        intro level e shown
        obtain ⟨_, wrapped', broadcast, _⟩ := send_mem_ofDistributor.1 shown
        exact received.not_broadcast broadcast
      kept := by
        funext level
        cases level <;> rfl
      alive := smooth.alive
      supplied := supplied }

end Node

end RingAgreement
