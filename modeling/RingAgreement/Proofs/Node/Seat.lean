import RingAgreement.Proofs.Medium.Steady
import RingAgreement.Proofs.Node.Parts
/-!
Nodes at the seats of an honest ring. A node can be led through everything that the session of its
cluster meets with on a medium, and so it comes to a key when all parties of its ring do.
-/

namespace RingAgreement

/-- An event of the cluster's ring, as a node is handed it. -/
def NodeEvent.ofCluster : SessionEvent → NodeEvent
  | .start => .start
  | .received e => .received .cluster e

/-- A start, or a message that is a part of a ring's run. -/
def SessionEvent.OfRing (event : SessionEvent) : Prop :=
  ∀ e, event = .received e → e.kind ≠ .wrappedKey ∧ e.kind ≠ .appMessage

theorem SessionEvent.ofRing_start : SessionEvent.start.OfRing := nofun

theorem SessionEvent.ofRing_received {e : Envelope}
    (kind : e.kind ≠ .wrappedKey ∧ e.kind ≠ .appMessage) : (SessionEvent.received e).OfRing := by
  intro other same
  obtain rfl := SessionEvent.received.inj same
  exact kind

namespace Node

variable {K : Kem} {ρ : Type} [RandomSource ρ]

theorem cluster_handleSession (node : Node) (event : SessionEvent) (source : ρ) :
    (node.handleSession K .cluster node.cluster event source).node.cluster =
      (node.cluster.handle K event source).session := by
  rw [handleSession_node]
  rfl

theorem cluster_start (node : Node) (source : ρ) :
    (node.start K source).node.cluster = (node.cluster.handle K .start source).session := by
  rw [← cluster_handleSession, start]
  dsimp only
  split
  · rw [handleSession_node]
    rfl
  · rfl

/-- The session of a node's cluster can be handed any event that is a part of its ring's run. -/
theorem cluster_handle_ofCluster (node : Node) {event : SessionEvent} (ofRing : event.OfRing)
    (source : ρ) : (node.handle K (.ofCluster event) source).node.cluster =
      (node.cluster.handle K event source).session := by
  cases event with
  | start => exact node.cluster_start source
  | received e =>
    rw [NodeEvent.ofCluster, handle, receive_of_ring_kind rfl (ofRing e rfl),
      cluster_handleSession]

/-- In a node without a ring of leaders nothing else is touched, but that the distributor is told
about new keys. -/
theorem handle_ofCluster {node : Node} (alone : node.leader = none) {event : SessionEvent}
    (ofRing : event.OfRing) (source : ρ) :
    (node.handle K (.ofCluster event) source).node =
      ({ node with cluster := (node.cluster.handle K event source).session }).told
        ((node.cluster.handle K event source).keys.map (.established .cluster)) := by
  have moved := node.handleSession_node (K := K) .cluster node.cluster event source
  cases event with
  | start =>
    have single : (node.handleSession K .cluster node.cluster .start source).node.leader = none := by
      rw [moved]
      exact alone
    rw [NodeEvent.ofCluster, handle, start_eq_first rfl single, moved]
    rfl
  | received e =>
    rw [NodeEvent.ofCluster, handle, receive_of_ring_kind rfl (ofRing e rfl), moved]
    rfl

theorem after_ofCluster {node : Node} (alone : node.leader = none)
    (inputs : List (SessionEvent × ρ)) (ofRing : ∀ input ∈ inputs, input.1.OfRing) :
    node.after K (inputs.map fun input => (.ofCluster input.1, input.2)) =
      ({ node with cluster := node.cluster.after K inputs }).told
        (((node.cluster.outcomes K inputs).flatMap SessionOutcome.keys).map (.established .cluster)) := by
  induction inputs generalizing node with
  | nil => rfl
  | cons input rest ih =>
    have first := handle_ofCluster (K := K) alone (ofRing _ List.mem_cons_self) input.2
    rw [List.map_cons, after, first]
    have later : ∀ other ∈ rest, other.1.OfRing := fun other member => ofRing other (.tail _ member)
    refine (ih (by exact alone) later).trans ?_
    simp only [told, Session.outcomes, List.flatMap_cons, List.map_append,
      Distributor.after_append]
    rfl

/-- Without a new key the distributor stays as it is. -/
theorem after_ofCluster_of_keyless {node : Node} (alone : node.leader = none)
    (coherent : node.cluster.Coherent K) (inputs : List (SessionEvent × ρ))
    (ofRing : ∀ input ∈ inputs, input.1.OfRing) {s : Session}
    (reached : node.cluster.after K inputs = s) (keyless : s.groupKey = none) :
    node.after K (inputs.map fun input => (.ofCluster input.1, input.2)) =
      { node with cluster := s } := by
  have announced := coherent.keys_outcomes inputs
  rw [reached, keyless] at announced
  rw [after_ofCluster alone inputs ofRing, reached, (List.append_eq_nil_iff.1 announced).2]
  rfl

end Node

namespace HonestRing

variable {K : Kem} {ring : HonestRing K} {ρ : Type} [RandomSource ρ]
  {w : Medium ring.roster.size ρ} {node : Node} {i : Fin ring.roster.size}

theorem make_fresh (ring : HonestRing K) (i : Fin ring.roster.size) :
    Session.make ring.roster i (ring.pair i).secretKey = .ok (ring.fresh i) := dif_pos i.isLt

/-- A new node without a ring of leaders, at a seat of the ring. -/
def seat (ring : HonestRing K) (role : Role) (i : Fin ring.roster.size) : Node :=
  ⟨ring.fresh i, none, .initial role⟩

theorem make_seat (ring : HonestRing K) {role : Role} (unled : role ≠ .leader)
    (i : Fin ring.roster.size) :
    Node.make ⟨ring.roster, i, none, role⟩ (ring.pair i).secretKey = .ok (ring.seat role i) := by
  cases role with
  | leader => exact absurd rfl unled
  | standalone =>
    rw [Node.make, ring.make_fresh i]
    rfl
  | member =>
    rw [Node.make, ring.make_fresh i]
    rfl

/-- A new leader of the ring, with a seat in a ring of leaders. -/
def leading (ring top : HonestRing K) (i : Fin ring.roster.size) (p : Fin top.roster.size) : Node :=
  ⟨ring.fresh i, some (top.fresh p), .initial .leader⟩

theorem make_leading {top : HonestRing K} {p : Fin top.roster.size}
    (shared : top.pair p = ring.pair i) :
    Node.make ⟨ring.roster, i, some (top.roster, p), .leader⟩ (ring.pair i).secretKey =
      .ok (ring.leading top i p) := by
  have placed := top.make_fresh p
  rw [shared] at placed
  have led : Node.leaderSession ⟨ring.roster, i, some (top.roster, p), .leader⟩
      (ring.pair i).secretKey = .ok (some (top.fresh p)) := by
    change (Session.make top.roster p (ring.pair i).secretKey).map some = _
    rw [placed]
    rfl
  rw [Node.make, led, ring.make_fresh i]
  rfl

/-- What a party goes through on a medium, a node in its place can go through. -/
theorem Consistent.exists_inputs (correct : K.Correct) (consistent : ring.Consistent w)
    (placed : node.cluster = w.session i) (moves : List (Move ring.roster.size)) :
    ∃ inputs : List (NodeEvent × ρ),
      (node.after K inputs).cluster = (w.run K moves).session i := by
  induction moves generalizing w node with
  | nil => exact ⟨[], placed⟩
  | cons move rest ih =>
    have still : ring.Consistent (w.play K move) := consistent.run correct [move]
    rcases w.play_session_cases K move i with idle | ⟨event, stepped, genuine⟩
    · exact ih still (placed.trans idle.symm)
    · have ofRing : event.OfRing := by
        intro e same
        obtain ⟨p, sent, rfl⟩ := genuine e same
        exact consistent.steady.not_cluster_kind sent
      have handed := node.cluster_handle_ofCluster (K := K) ofRing (w.source i)
      obtain ⟨inputs, reached⟩ := ih still (handed.trans (by rw [placed, stepped]))
      exact ⟨(.ofCluster event, w.source i) :: inputs, reached⟩

/-- A standalone node in an honest ring can come to a key. -/
theorem exists_keyed (correct : K.Correct) (ring : HonestRing K) (i : Fin ring.roster.size)
    (source : Fin ring.roster.size → ρ) : ∃ (inputs : List (NodeEvent × ρ)) (key : ClusterKey),
      ((ring.seat .standalone i).after K inputs).clusterKey = some key := by
  let w := (ring.medium source).run K (Medium.schedule _)
  let node := ring.seat .standalone i
  have initial := ring.medium_consistent source
  have placed : node.cluster = (ring.medium source).session i := rfl
  obtain ⟨inputs, reached⟩ := initial.exists_inputs correct placed (Medium.schedule _)
  have coherent : node.Coherent K fun _ => True :=
    (Node.make_coherent (ring.make_seat (by simp) i)).1
  obtain ⟨still, continues⟩ := coherent.after inputs fun _ _ _ _ => trivial
  have established : (node.after K inputs).cluster.state = .established := by
    rw [reached]
    exact (ring.consistent_run correct source _).established_of_quiescent
      (ring.schedule_quiescent correct source) i
  have session := still.session .cluster _ rfl
  obtain ⟨g, keyed⟩ := Option.isSome_iff_exists.1 (session.keyed.1 established)
  have known : (node.after K inputs).distributor.clusterKey = some g :=
    (congrFun still.known .cluster).trans keyed
  refine ⟨inputs, ⟨g.key⟩, ?_⟩
  rw [Node.clusterKey, still.distributor.standalone continues.role, known, Option.map_some]

end HonestRing

end RingAgreement
