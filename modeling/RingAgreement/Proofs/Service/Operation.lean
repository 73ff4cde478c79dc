import RingAgreement.Proofs.Service.Turn
import RingAgreement.Service.Deployment
/-!
A station among others. Whatever goes on in a deployment, for one station it is a list of turns of
its own, and what it writes in them arrives at the relay's end of its connection.
-/

namespace RingAgreement

namespace Deployment

variable {ρ : Type} {d : Deployment ρ} {i j : Nat} {s : Station ρ}

/-! ## Frames -/

/-- What a relay brings to a station when it sees to a connection. -/
def relayed (d : Deployment ρ) (ring connection : Nat) : Option (Nat × Station.Turn) :=
  (d.hubs[ring]?).bind fun hub =>
    let (lines, after) := hub.serve connection
    (d.receiver? ring connection).bind fun (i, level) =>
      if after.isOpen connection then
        if lines.isEmpty then none else some (i, .arrive level (Link.stream lines))
      else some (i, .finish level)

/-- What a move is for one station. -/
def turns (i : Nat) (d : Deployment ρ) : Move → List Station.Turn
  | .turn j t => if j = i then [t] else []
  | .relay ring connection =>
    if (d.hubs[ring]?).all (·.isQuiet connection) then []
    else
      match d.relayed ring connection with
      | some (j, t) => if j = i then [t] else []
      | none => []
  | .intrude _ _ => []

variable (K : Kem) [RandomSource ρ]

theorem run_append (d : Deployment ρ) (moves more : List Move) :
    d.run K (moves ++ more) = (d.run K moves).run K more := List.foldl_append

theorem exists_work_eq_run (fuel : Nat) (agenda : List Worker) (d : Deployment ρ) :
    ∃ moves, d.work K fuel agenda = d.run K moves := by
  induction fuel generalizing agenda d with
  | zero => exact ⟨[], rfl⟩
  | succ fuel ih =>
    unfold work
    split
    · exact ⟨[], rfl⟩
    next w after found =>
      obtain ⟨_, -, worked⟩ := List.exists_of_findSome?_eq_some found
      obtain ⟨_, moved, same⟩ := Option.map_eq_some_iff.1 worked
      obtain ⟨-, rfl⟩ := Prod.mk.inj same
      obtain ⟨m, -, made⟩ := List.exists_of_findSome?_eq_some moved
      obtain ⟨moves, rest⟩ := ih _ _
      refine ⟨m :: moves, rest.trans ?_⟩
      change _ = (d.move K m).run K moves
      rw [move, made]
      rfl

/-- Settling is nothing but moves, after which no one is called up any more. -/
theorem exists_settle_eq_run (d : Deployment ρ) :
    ∃ moves, d.settle K = { d.run K moves with agenda := [] } := by
  obtain ⟨moves, worked⟩ := exists_work_eq_run K d.workBound (d.callUp d.agenda) d
  exact ⟨moves, congrArg (fun d : Deployment ρ => { d with agenda := [] }) worked⟩

end Deployment

end RingAgreement
