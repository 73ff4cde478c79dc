import Mathlib.Algebra.GroupWithZero.Nat
import RingAgreement.Proofs.Hierarchy.Build
import RingAgreement.Proofs.Node.Budget
import RingAgreement.Proofs.Simulation.Network
/-!
A simulated world empties when it is left alone. The network copies a packet once at most, and the
nodes have only so many messages to send; every delivery takes from these, and when nothing is left
the network is idle.
-/

namespace RingAgreement.Simulation

/-! ## Networks -/

namespace Network

variable {n rest : Network} {flight : Flight}

/-- The packets on their way, each with the copy that may still be made of it. -/
def load (n : Network) : Nat := n.inFlight.length + (Flight.originals n.inFlight).length

theorem load_send (n : Network) (packet : Packet) : (n.send packet).load = n.load + 2 := by
  simp only [load, send, Flight.originals_append, List.length_append, List.length_singleton]
  change _ + 1 + (_ + 1) = _
  omega

theorem load_foldl_send (packets : List Packet) (n : Network) :
    (packets.foldl send n).load = n.load + 2 * packets.length := by
  induction packets generalizing n with
  | nil => rfl
  | cons packet rest ih =>
    rw [List.foldl_cons, ih, load_send, List.length_cons]
    omega

/-- Handing out an original may leave a copy behind, which weighs less. -/
theorem Takes.load (takes : n.Takes flight rest) : rest.load + 1 ≤ n.load := by
  cases takes with
  | @moved i inside =>
    have flights := List.length_eraseIdx_add_one inside
    have originals := ((List.eraseIdx_sublist n.inFlight i).filterMap Flight.original?).length_le
    change (n.inFlight.eraseIdx i).length + (Flight.originals (n.inFlight.eraseIdx i)).length + 1 ≤
      n.inFlight.length + (Flight.originals n.inFlight).length
    unfold Flight.originals
    omega
  | @copied i inside original =>
    have flights := List.length_eraseIdx_add_one inside
    have sorted := (List.getElem_cons_eraseIdx_perm inside).filterMap Flight.original?
    have kept : Flight.original? n.inFlight[i] = some n.inFlight[i].packet := by
      simp [Flight.original?, original]
    rw [List.filterMap_cons_some kept] at sorted
    have originals := sorted.length_eq
    simp only [Network.load, Flight.originals_append, List.length_append, List.length_singleton]
    change (n.inFlight.eraseIdx i).length + 1 + ((Flight.originals (n.inFlight.eraseIdx i)).length
      + 0) + 1 ≤ n.inFlight.length + (Flight.originals n.inFlight).length
    rw [List.length_cons] at originals
    unfold Flight.originals
    omega

end Network

theorem length_sent (id : Nat) (actions : List NodeAction) :
    (sent id actions).length = Node.mailed actions := by
  induction actions with
  | nil => rfl
  | cons action rest ih =>
    cases action with
    | send => exact congrArg (· + 1) ih
    | _ => exact ih

theorem sum_set (weights : List Nat) {i : Nat} (inside : i < weights.length) (weight : Nat) :
    (weights.set i weight).sum + weights[i] = weights.sum + weight := by
  induction weights generalizing i with
  | nil => cases inside
  | cons first rest ih =>
    cases i with
    | zero =>
      simp only [List.set_cons_zero, List.sum_cons, List.getElem_cons_zero]
      omega
    | succ i =>
      have later := ih (Nat.lt_of_succ_lt_succ inside)
      simp only [List.set_cons_succ, List.sum_cons, List.getElem_cons_succ]
      omega

/-! ## Worlds -/

namespace World

variable {K : Kem} {w : World}

/-- Every node is as some events have left it, whatever they were. -/
def Coherent (K : Kem) (w : World) : Prop := ∀ n ∈ w.nodes, n.node.Coherent K fun _ => True

/-- How many messages the nodes have used up. -/
def spent (w : World) : Nat := (w.nodes.map (·.node.spent)).sum

theorem spent_le (w : World) : w.spent ≤ Node.allowance * w.nodes.length := by
  have within := List.sum_le_card_nsmul (w.nodes.map (·.node.spent)) Node.allowance
  rw [List.length_map, smul_eq_mul, Nat.mul_comm] at within
  refine within fun spent member => ?_
  obtain ⟨n, -, rfl⟩ := List.mem_map.1 member
  exact n.node.spent_le

/-- A later world, after the network has handed out some packets: what has come into the network
since is taken from what the nodes had to send. -/
structure Funds (K : Kem) (w : World) (handed : Nat) (later : World) : Prop where
  coherent : later.Coherent K
  size : later.nodes.length = w.nodes.length
  balance : later.network.load + handed + 2 * w.spent ≤ w.network.load + 2 * later.spent

theorem Coherent.refl (coherent : w.Coherent K) : w.Funds K 0 w where
  coherent := coherent
  size := rfl
  balance := Nat.le_refl _

theorem Funds.trans {later last : World} {handed more : Nat} (first : w.Funds K handed later)
    (second : later.Funds K more last) : w.Funds K (handed + more) last where
  coherent := second.coherent
  size := second.size.trans first.size
  balance := by
    have paid := first.balance
    have repaid := second.balance
    omega

theorem Coherent.hand (coherent : w.Coherent K) (id : Nat) (event : NodeEvent) :
    w.Funds K 0 (w.hand K id event) := by
  cases here : w.nodes[id]? with
  | none =>
    have same : w.hand K id event = w := by simp only [World.hand, here]
    rw [same]
    exact coherent.refl
  | some n =>
    rw [World.hand_of_known K here]
    obtain ⟨inside, rfl⟩ := List.getElem?_eq_some_iff.1 here
    generalize given : w.nodes[id] = n at *
    have sound : n.node.Coherent K fun _ => True :=
      coherent n (given ▸ List.getElem_mem inside)
    have keeps : n.node.Keeps K (fun _ => True) (n.node.handle K event n.source) :=
      sound.handle (fun _ _ => trivial) n.source
    have paid := sound.spent_handle event n.source
    generalize n.node.handle K event n.source = outcome at keeps paid
    refine ⟨fun other present => ?_, List.length_set, ?_⟩
    · rcases List.mem_or_eq_of_mem_set present with old | rfl
      · exact coherent other old
      · exact keeps.coherent
    · have moved := sum_set (w.nodes.map (·.node.spent)) (i := id)
        (by rwa [List.length_map]) outcome.node.spent
      rw [List.getElem_map, given] at moved
      simp only [spent, List.map_set, Network.load_foldl_send, length_sent]
      change _ + 0 + 2 * _ ≤ _ + 2 * ((w.nodes.map (·.node.spent)).set id outcome.node.spent).sum
      omega

/-- The hearers of a packet answer it out of what they had to send. -/
theorem Coherent.deliver (coherent : w.Coherent K) (packet : Packet) :
    w.Funds K 0 (w.deliver K packet) := by
  rw [World.deliver]
  generalize w.topology.hearers packet.origin packet.level = hearers
  induction hearers generalizing w with
  | nil => exact coherent.refl
  | cons hearer rest ih =>
    have first := coherent.hand hearer.1 (.received hearer.2 packet.envelope)
    exact first.trans (ih first.coherent)

theorem step_eq_none_iff (hook : Packet → Packet) :
    w.step K hook = none ↔ w.network.isIdle = true := by
  rw [Network.isIdle, List.isEmpty_iff, ← Network.take_eq_none_iff, World.step]
  cases w.network.take <;> simp

/-- Every delivery uses something up. -/
theorem Coherent.step (coherent : w.Coherent K) {hook : Packet → Packet} {later : World}
    (stepped : w.step K hook = some later) : w.Funds K 1 later := by
  rw [World.step] at stepped
  split at stepped
  next => cases stepped
  next flight rest taken =>
    obtain rfl := Option.some.inj stepped
    have lighter := (Network.takes_of_take taken).load
    have emptied : w.Funds K 1 { w with network := rest } :=
      ⟨coherent, rfl, Nat.add_le_add_right lighter _⟩
    exact emptied.trans (Coherent.deliver emptied.coherent _)

theorem Coherent.play (coherent : w.Coherent K) (move : Move) :
    ∃ handed, w.Funds K handed (w.play K move) := by
  cases move with
  | start id => exact ⟨0, coherent.hand id .start⟩
  | step =>
    rw [World.play]
    cases stepped : w.step K id with
    | none => exact ⟨0, coherent.refl⟩
    | some later => exact ⟨1, coherent.step stepped⟩

theorem Coherent.funds_after (coherent : w.Coherent K) (moves : List Move) :
    ∃ handed, w.Funds K handed (w.after K moves) := by
  induction moves generalizing w with
  | nil => exact ⟨0, coherent.refl⟩
  | cons move rest ih =>
    obtain ⟨handed, first⟩ := coherent.play move
    obtain ⟨more, later⟩ := ih first.coherent
    exact ⟨handed + more, first.trans later⟩

theorem Coherent.after (coherent : w.Coherent K) (moves : List Move) :
    (w.after K moves).Coherent K := by
  obtain ⟨handed, funds⟩ := coherent.funds_after moves
  exact funds.coherent

theorem Coherent.size_after (coherent : w.Coherent K) (moves : List Move) :
    (w.after K moves).nodes.length = w.nodes.length := by
  obtain ⟨handed, funds⟩ := coherent.funds_after moves
  exact funds.size

/-- As many deliveries as there can be leave nothing on its way. -/
theorem Coherent.idle_of_enough (coherent : w.Coherent K) (deliveries : Nat)
    (enough : w.network.load + 2 * (Node.allowance * w.nodes.length) ≤ deliveries + 2 * w.spent) :
    (w.after K (List.replicate deliveries .step)).network.isIdle = true := by
  induction deliveries generalizing w with
  | zero =>
    have within := w.spent_le
    have nothing : w.network.inFlight.length = 0 := by
      unfold Network.load at enough
      omega
    exact List.isEmpty_iff.2 (List.length_eq_zero_iff.1 nothing)
  | succ deliveries ih =>
    change ((w.play K .step).after K (List.replicate deliveries .step)).network.isIdle = true
    rw [World.play]
    cases stepped : w.step K id with
    | none =>
      -- An idle network stays so, whatever the number of steps.
      have idle := (step_eq_none_iff id).1 stepped
      have rests : ∀ count, w.after K (List.replicate count .step) = w := by
        intro count
        induction count with
        | zero => rfl
        | succ count still =>
          rw [List.replicate_succ]
          change (w.play K .step).after K _ = w
          rwa [World.play, stepped]
      exact (congrArg (·.network.isIdle) (rests deliveries)).trans idle
    | some later =>
      have funds := coherent.step stepped
      refine ih funds.coherent ?_
      have balance := funds.balance
      rw [Option.getD_some, funds.size]
      omega

theorem Coherent.exists_idle (coherent : w.Coherent K) :
    ∃ deliveries, (w.after K (List.replicate deliveries .step)).network.isIdle = true :=
  ⟨_, coherent.idle_of_enough _ (Nat.le_add_right _ _)⟩

theorem coherent_of_hierarchical {seed : UInt64} {leaders : Nat} {sizes : List Nat}
    {config : NetworkConfig} (built : hierarchical K seed leaders sizes config = .ok w) :
    w.Coherent K := by
  obtain ⟨H, cast, runs⟩ := exists_runs_of_hierarchical built
  intro n present
  rw [runs.shows.nodes] at present
  obtain ⟨id, rfl⟩ := List.mem_ofFn.1 present
  exact (runs.invariant.orderly id).coherent.mono fun _ _ => trivial

end World

end RingAgreement.Simulation
