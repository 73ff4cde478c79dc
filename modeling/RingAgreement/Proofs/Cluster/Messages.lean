import RingAgreement.Proofs.Board.Leading
import RingAgreement.Proofs.Service.Writing
/-!
Application messages between the nodes of a cluster. What a node seals, the node at any other seat
that has the same key delivers; the node itself passes it over, and in the ring of the leaders it is
refused. It never changes the node that it comes to.
-/

namespace RingAgreement

namespace Node

variable {K : Kem} {node : Node} {ρ : Type} [RandomSource ρ] {level : Level} {e : Envelope}
  {layout : NodeLayout} {secretKey : SecretKey} {key : ClusterKey}

/-! ## Seats -/

/-- A node sits in a cluster at a position. -/
structure Seated (node : Node) (roster : Roster) (index : Nat) : Prop where
  roster : node.cluster.roster = roster
  own : (node.cluster.own : Nat) = index

variable {roster : Roster} {index : Nat}

theorem Seated.unfolds {later : Node} (seated : node.Seated roster index)
    (unfolds : node.Unfolds K ρ later) : later.Seated roster index := by
  obtain ⟨rfl, rfl⟩ := seated
  obtain ⟨events, reached⟩ := unfolds.session .cluster
  have moved : later.cluster = node.cluster.after K events := Option.some.inj reached
  obtain ⟨state, progress, same⟩ := node.cluster.sameParty_after K events
  rw [← moved] at same
  constructor
  · rw [same]
  · rw [same]

/-- A node stays where it was placed. -/
theorem seated_after (made : make layout secretKey = .ok node) (inputs : List (NodeEvent × ρ)) :
    (node.after K inputs).Seated layout.cluster layout.clusterIndex := by
  obtain ⟨leader, inside, -, rfl⟩ := make_success made
  have placed : Seated ⟨.fresh layout.cluster ⟨layout.clusterIndex, inside⟩ secretKey, leader,
    .initial layout.role⟩ layout.cluster layout.clusterIndex := ⟨rfl, rfl⟩
  exact placed.unfolds (unfolds_after _ inputs)

theorem Seated.inside (seated : node.Seated roster index) : index < roster.size := by
  obtain ⟨rfl, rfl⟩ := seated
  exact node.cluster.own.isLt

theorem Seated.clusterIndex_eq (seated : node.Seated roster index) :
    node.clusterIndex = .ofNat index := by
  obtain ⟨rfl, rfl⟩ := seated
  rfl

theorem Seated.toNat_clusterIndex (seated : node.Seated roster index) :
    (UInt32.ofNat index).toNat = index := by
  obtain ⟨rfl, rfl⟩ := seated
  exact node.cluster.roster.toNat_ofNat node.cluster.own

/-- A node passes over what it has sent itself. -/
theorem Seated.clusterSender_self (seated : node.Seated roster index) (payload : Payload) :
    node.clusterSender .cluster (payload.toEnvelope (.ofNat index) .everyone) = .ok none := by
  obtain ⟨rfl, rfl⟩ := seated
  let e := payload.toEnvelope (.ofNat node.cluster.own) .everyone
  have inside : ¬ node.cluster.roster.size ≤ e.sender.toNat := by
    rw [show e.sender.toNat = node.cluster.own from
      node.cluster.roster.toNat_ofNat node.cluster.own]
    exact Nat.not_le.2 node.cluster.own.isLt
  rw [clusterSender, if_neg (by simp), if_neg inside, if_pos (.inl rfl)]

theorem Seated.clusterSender_other {other : Nat} (seated : node.Seated roster index)
    (inside : other < roster.size) (apart : other ≠ index) (payload : Payload) :
    node.clusterSender .cluster (payload.toEnvelope (.ofNat other) .everyone) =
      .ok (some (.ofNat other)) := by
  obtain ⟨rfl, rfl⟩ := seated
  let sender : Fin node.cluster.roster.size := ⟨other, inside⟩
  have foreign : (sender : Nat) ≠ node.cluster.own := apart
  exact clusterSender_toEnvelope foreign payload

/-! ## Messages -/

/-- The message that a node seals. -/
theorem exists_sealMessage (known : node.clusterKey = some key) (plaintext : List UInt8)
    (source : ρ) : ∃ nonce, (node.sealMessage plaintext source).1 =
      .ok ((Payload.appMessage (.make key node.clusterIndex plaintext nonce)).toEnvelope
        node.clusterIndex .everyone) := by
  rw [sealMessage, known]
  exact ⟨_, rfl⟩

/-- An application message leaves the node that it comes to as it is. -/
theorem node_handle_appMessage (application : e.kind = .appMessage) (source : ρ) :
    (node.handle K (.received level e) source).node = node := by
  rw [handle, receive_of_cluster_kind (.inr application)]
  change (node.receiveClusterPayload level e).2 = node
  rw [receiveClusterPayload]
  split
  next => rfl
  next => rfl
  next =>
    split
    next => rfl
    next wrapped read =>
      have kind := Payload.kind_of_ofEnvelope read
      rw [application] at kind
      cases kind
    next => rfl
    next => rfl

theorem handle_appMessage_leader (application : e.kind = .appMessage) (source : ρ) :
    node.handle K (.received .leader e) source =
      ⟨.error (.unexpectedKind .appMessage .leaderRing), node, source⟩ := by
  have refused : node.clusterSender .leader e =
      .error (.unexpectedKind .appMessage .leaderRing) := by
    rw [clusterSender, if_pos (by simp), application]
  rw [handle, receive_of_cluster_kind (.inr application), receiveClusterPayload, refused]

theorem handle_of_unconcerned (application : e.kind = .appMessage)
    (unconcerned : node.clusterSender level e = .ok none) (source : ρ) :
    node.handle K (.received level e) source = ⟨.ok [], node, source⟩ := by
  rw [handle, receive_of_cluster_kind (.inr application), receiveClusterPayload, unconcerned]

/-- Application messages arrive intact. Two nodes have seats in one cluster, and, whatever has
happened to each of them, they have the same key. Then what the one seals, whatever the plaintext,
fits in a line up to a length of the plaintext, and is read back from its line. The other one
delivers the plaintext with the position of the sender, the sender itself passes it over, any node
refuses it in the ring of the leaders, and it changes no node. -/
theorem sealed_messages_arrive (K : Kem) (here there : NodeLayout)
    (secretKey secretKey' : SecretKey) (sender receiver : Node)
    (placed : make here secretKey = .ok sender) (placed' : make there secretKey' = .ok receiver)
    (shared : here.cluster = there.cluster) (apart : here.clusterIndex ≠ there.clusterIndex)
    (before before' : List (NodeEvent × ρ)) (key : ClusterKey)
    (known : (sender.after K before).clusterKey = some key)
    (known' : (receiver.after K before').clusterKey = some key) (plaintext : List UInt8)
    (source : ρ) :
    ∃ e, ((sender.after K before).sealMessage plaintext source).1 = .ok e ∧
      ((∃ line, e.toLine = .ok line) ↔ 58 + (toString (here.clusterIndex : Int)).length +
        4 * ((plaintext.length + 42) / 3) ≤ Envelope.maxLineSize) ∧
      (∀ line, e.toLine = .ok line → Envelope.ofJson line = .ok e) ∧
      (∀ source' : ρ, (receiver.after K before').handle K (.received .cluster e) source' =
        ⟨.ok [.deliver (.ofNat here.clusterIndex) plaintext], receiver.after K before', source'⟩) ∧
      (UInt32.ofNat here.clusterIndex).toNat = here.clusterIndex ∧
      (∀ (more : List (NodeEvent × ρ)) (source' : ρ),
        (sender.after K more).handle K (.received .cluster e) source' =
          ⟨.ok [], sender.after K more, source'⟩) ∧
      (∀ (node : Node) (source' : ρ), node.handle K (.received .leader e) source' =
        ⟨.error (.unexpectedKind .appMessage .leaderRing), node, source'⟩) ∧
      ∀ (node : Node) (level : Level) (source' : ρ),
        (node.handle K (.received level e) source').node = node := by
  have seated := seated_after (K := K) placed before
  have seated' := seated_after (K := K) placed' before'
  have index := seated.toNat_clusterIndex
  obtain ⟨nonce, sealed⟩ := exists_sealMessage known plaintext source
  rw [seated.clusterIndex_eq] at sealed
  refine ⟨_, sealed, ?_, ?_, ?_, index, ?_,
    fun node => handle_appMessage_leader rfl, fun node level => node_handle_appMessage rfl⟩
  · rw [Envelope.toLine_eq, Envelope.lineSize_appMessage, index]
    split
    next fits => exact ⟨fun _ => fits, fun _ => ⟨_, rfl⟩⟩
    next long =>
      refine ⟨?_, fun fits => absurd fits long⟩
      rintro ⟨_, written⟩
      cases written
  · intro line written
    rw [Envelope.ofJson_toLine written, if_neg]
    rintro ⟨requires, -⟩
    cases requires
  · have inside : here.clusterIndex < there.cluster.size := shared ▸ seated.inside
    exact fun source' => handle_sealed known' plaintext nonce source'
      (seated'.clusterSender_other inside apart _)
  · intro more source'
    exact handle_of_unconcerned rfl ((seated_after placed more).clusterSender_self _) source'

/-- In a cluster of three that the first node leads, the third one delivers what the leader
seals. -/
theorem trio_message_arrives :
    let ring := HonestRing.trio
    let first : Fin ring.roster.size := ⟨0, by decide⟩
    let third : Fin ring.roster.size := ⟨2, by decide⟩
    let here : NodeLayout := ⟨ring.roster, first, some (ring.roster, first), .leader⟩
    let there : NodeLayout := ⟨ring.roster, third, none, .member⟩
    let source : DrawCounter := ⟨0⟩
    ∃ sender receiver : Node, make here (ring.pair first).secretKey = .ok sender ∧
      make there (ring.pair third).secretKey = .ok receiver ∧ here.cluster = there.cluster ∧
      here.clusterIndex ≠ there.clusterIndex ∧
      ∃ (before before' : List (NodeEvent × DrawCounter)) (key : ClusterKey) (e : Envelope),
        (sender.after .transparent before).clusterKey = some key ∧
        (receiver.after .transparent before').clusterKey = some key ∧
        ((sender.after .transparent before).sealMessage [104, 105] source).1 = .ok e ∧
        (∃ line, e.toLine = .ok line ∧ Envelope.ofJson line = .ok e) ∧
        (receiver.after .transparent before').handle .transparent (.received .cluster e) source =
          ⟨.ok [.deliver 0 [104, 105]], receiver.after .transparent before', source⟩ := by
  intro ring first third here there source
  have placed : make here (ring.pair first).secretKey = .ok (ring.leading ring first first) :=
    HonestRing.make_leading rfl
  have placed' : make there (ring.pair third).secretKey = .ok (ring.seat .member third) :=
    ring.make_seat (by simp) third
  obtain ⟨b, posted, reached, inv, keyed⟩ := Board.exists_led_keyed Kem.transparent_correct
    (rfl : ring.pair first = ring.pair first) fun _ => source
  obtain ⟨before, after⟩ := reached.exists_inputs first
  obtain ⟨before', after'⟩ := reached.exists_inputs third
  obtain ⟨key, known⟩ := keyed first
  obtain ⟨key', known'⟩ := keyed third
  obtain rfl := inv.agree known known'
  rw [after] at known
  rw [after'] at known'
  have apart : here.clusterIndex ≠ there.clusterIndex := by decide
  obtain ⟨e, sealed, fits, back, delivered, -⟩ := sealed_messages_arrive .transparent here there _ _
    _ _ placed placed' rfl apart before before' key known known' [104, 105] source
  obtain ⟨line, written⟩ := fits.2 (by decide)
  exact ⟨_, _, placed, placed', rfl, apart, before, before', key, e, known, known', sealed,
    ⟨line, written, back line written⟩, delivered source⟩

end Node

end RingAgreement
