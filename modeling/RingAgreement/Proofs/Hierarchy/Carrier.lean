import RingAgreement.Proofs.Hierarchy.Basic
import RingAgreement.Proofs.Node.Relay
/-!
How a simulated world carries a hierarchy: what it writes down about a step of a node, and what is
on its way before and after.
-/

namespace RingAgreement.Simulation

/-- The packets that a node sends with its actions. -/
def sent (id : Nat) (actions : List NodeAction) : List Packet :=
  actions.filterMap fun
    | .send level e => some ⟨id, level, e⟩
    | _ => none

theorem sent_append (id : Nat) (actions more : List NodeAction) :
    sent id (actions ++ more) = sent id actions ++ sent id more :=
  List.filterMap_append

theorem mem_sent {id : Nat} {actions : List NodeAction} {packet : Packet} :
    packet ∈ sent id actions ↔
      packet.origin = id ∧ .send packet.level packet.envelope ∈ actions := by
  rw [sent, List.mem_filterMap]
  constructor
  · rintro ⟨action, member, shown⟩
    cases action with
    | send level e =>
      obtain rfl := Option.some.inj shown
      exact ⟨rfl, member⟩
    | _ => cases shown
  · rintro ⟨rfl, member⟩
    exact ⟨_, member, rfl⟩

/-! ## Logs -/

namespace NodeLog

theorem clusterKeys_record (log : NodeLog) (action : NodeAction) :
    (log.record action).clusterKeys = log.clusterKeys ++ action.clusterKey?.toList := by
  cases action <;> simp [record, NodeAction.clusterKey?]

theorem errors_record (log : NodeLog) (action : NodeAction) :
    (log.record action).errors = log.errors ++ action.error?.toList := by
  cases action <;> simp [record, NodeAction.error?]

theorem clusterKeys_foldl_record (log : NodeLog) (actions : List NodeAction) :
    (actions.foldl record log).clusterKeys =
      log.clusterKeys ++ actions.filterMap (·.clusterKey?) := by
  induction actions generalizing log with
  | nil => simp
  | cons action rest ih =>
    rw [List.foldl_cons, ih, clusterKeys_record, List.append_assoc]
    cases action <;> rfl

theorem errors_foldl_record (log : NodeLog) (actions : List NodeAction) :
    (actions.foldl record log).errors = log.errors ++ actions.filterMap (·.error?) := by
  induction actions generalizing log with
  | nil => simp
  | cons action rest ih =>
    rw [List.foldl_cons, ih, errors_record, List.append_assoc]
    cases action <;> rfl

end NodeLog

/-- A node after a step, with what is written down about it. -/
def SimNode.absorb (n : SimNode) (outcome : NodeOutcome StreamSource) : SimNode :=
  { n with
    node := outcome.node
    source := outcome.source
    log :=
      match outcome.result with
      | .ok actions => actions.foldl NodeLog.record n.log
      | .error e => { n.log with errors := n.log.errors ++ [e] } }

/-! ## Networks -/

namespace Network

variable (network : Network)

/-- What is on its way. -/
def packets : List Packet := network.inFlight.map (·.packet)

theorem packets_foldl_send (packets : List Packet) :
    (packets.foldl send network).packets = network.packets ++ packets := by
  induction packets generalizing network with
  | nil => simp
  | cons packet rest ih =>
    rw [List.foldl_cons, ih]
    simp [Network.packets, send]

theorem isIdle_iff : network.isIdle = true ↔ network.packets = [] := by
  rw [isIdle, List.isEmpty_iff, packets, List.map_eq_nil_iff]

variable {network}

/-- Handing out a packet takes away no other one. -/
theorem packets_of_take {flight : Flight} {rest : Network}
    (taken : network.take = some (flight, rest)) :
    flight.packet ∈ network.packets ∧ (∀ packet ∈ rest.packets, packet ∈ network.packets) ∧
      ∀ packet ∈ network.packets, packet = flight.packet ∨ packet ∈ rest.packets := by
  rw [take] at taken
  dsimp only at taken
  split at taken
  next => cases taken
  next flight' found =>
    obtain ⟨rfl, rfl⟩ := Prod.mk.inj (Option.some.inj taken)
    obtain ⟨inside, here⟩ := List.getElem?_eq_some_iff.1 found
    have there : flight'.packet ∈ network.packets :=
      List.mem_map_of_mem (here ▸ List.getElem_mem inside)
    refine ⟨there, fun packet left => ?_, fun packet present => ?_⟩
    -- A copy that the network may have put back is a copy of the packet it hands out.
    · obtain ⟨f, member, rfl⟩ := List.mem_map.1 left
      dsimp only at member
      split at member
      next =>
        rcases List.mem_append.1 member with kept | copy
        · exact List.mem_map_of_mem (List.mem_of_mem_eraseIdx kept)
        · obtain rfl := List.mem_singleton.1 copy
          exact there
      next => exact List.mem_map_of_mem (List.mem_of_mem_eraseIdx member)
    · obtain ⟨f, member, rfl⟩ := List.mem_map.1 present
      obtain ⟨k, known, rfl⟩ := List.getElem_of_mem member
      by_cases first : k = network.nextIndex.1
      · subst first
        exact .inl (by rw [here])
      · right
        have kept : network.inFlight[k] ∈ network.inFlight.eraseIdx network.nextIndex.1 :=
          List.mem_eraseIdx_iff_getElem.2 ⟨k, known, first, rfl⟩
        refine List.mem_map_of_mem ?_
        dsimp only
        split
        next => exact List.mem_append_left _ kept
        next => exact kept

end Network

/-! ## Worlds -/

theorem modify_eq_set {α : Type} (l : List α) (i : Nat) (a : α) (f : α → α) :
    (l.set i a).modify i f = l.set i (f a) := by
  apply List.ext_getElem
  · simp
  · intro j inside _
    rw [List.getElem_modify, List.getElem_set, List.getElem_set]
    split <;> simp [*]

/-- A step of a node is carried out and written down, and what it sends is on its way. -/
theorem World.hand_of_known (K : Kem) {w : World} {id : Nat} {n : SimNode}
    (here : w.nodes[id]? = some n) (event : NodeEvent) :
    let outcome := n.node.handle K event n.source
    w.hand K id event =
      ⟨w.nodes.set id (n.absorb outcome), w.rings,
        (sent id outcome.actions).foldl Network.send w.network⟩ := by
  simp only [World.hand, here]
  generalize n.node.handle K event n.source = outcome
  obtain ⟨result, node, source⟩ := outcome
  cases result
  all_goals
    simp only [World.apply]
    rw [modify_eq_set]
    rfl

namespace Hierarchy

variable {K : Kem} {H : Hierarchy K} {w : World} {cast : H.Cast}

/-- A world whose nodes are the nodes of a hierarchy. -/
structure Shows (H : Hierarchy K) (w : World) (cast : H.Cast) : Prop where
  nodes : w.nodes = List.ofFn cast
  members : w.rings.map (·.members) = H.topology.members

theorem ofFn_set {α : Type} {n : Nat} (f : Fin n → α) (i : Fin n) (a : α) :
    (List.ofFn f).set i a = List.ofFn (Function.update f i a) := by
  apply List.ext_getElem
  · simp
  · intro j inside _
    simp only [List.getElem_set, List.getElem_ofFn, Function.update_apply, Fin.ext_iff, eq_comm]

/-- What a node does with an event. -/
def outcome (H : Hierarchy K) (cast : H.Cast) (id : Fin H.nodes) (event : NodeEvent) :
    NodeOutcome StreamSource :=
  (cast id).node.handle K event (cast id).source

/-- The nodes after one of them was handed an event. -/
def handed (H : Hierarchy K) (cast : H.Cast) (id : Fin H.nodes) (event : NodeEvent) : H.Cast :=
  Function.update cast id ((cast id).absorb (H.outcome cast id event))

/-- After a step of a node, the world shows the nodes after it, and what the node sends is on its
way. -/
theorem Shows.hand (shown : H.Shows w cast) (id : Fin H.nodes) (event : NodeEvent) :
    H.Shows (w.hand K id event) (H.handed cast id event) ∧ (w.hand K id event).network.packets =
      w.network.packets ++ sent id (H.outcome cast id event).actions := by
  have here : w.nodes[id.val]? = some (cast id) := by
    rw [shown.nodes, List.getElem?_ofFn, dif_pos id.isLt]
  rw [World.hand_of_known K here]
  refine ⟨⟨?_, shown.members⟩, Network.packets_foldl_send _ _⟩
  rw [shown.nodes, ofFn_set]
  rfl

end Hierarchy

end RingAgreement.Simulation
