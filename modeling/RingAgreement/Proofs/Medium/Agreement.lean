import RingAgreement.Proofs.Medium.Quiescence
/-!
Agreement. However the medium treats the messages of honest parties, no party fails, and all
parties that come to an end hold the same group key.
-/

namespace RingAgreement.HonestRing

variable {K : Kem} {ring : HonestRing K} {ρ : Type} [RandomSource ρ]

omit [RandomSource ρ] in
/-- A party that has come to an end holds the group key that the links of the ring amount to. -/
theorem Consistent.groupKey_of_established {w : Medium ring.roster.size ρ}
    (consistent : ring.Consistent w) {i : Fin ring.roster.size}
    (established : (w.session i).state = .established) :
    (w.session i).groupKey = some (ring.linkedKey w.session) := by
  obtain ⟨c, left, _, verified, leftKey, _, _, key⟩ :=
    (consistent.coherent i).of_established established
  rw [key, consistent.sound.keyFrom verified leftKey]

/-- In a ring of at least three parties with generated keys, over a medium that may reorder, repeat
and lose messages, no event leads to an error, no session aborts, and any two established sessions
hold the same group key. -/
theorem honest_runs_agree (correct : K.Correct) (ring : HonestRing K)
    (source : Fin ring.roster.size → ρ) (moves : List (Move ring.roster.size)) :
    let w := (ring.medium source).run K moves
    w.failures = [] ∧ (∀ i, (w.session i).state ≠ .aborted) ∧
    ∀ i j, (w.session i).state = .established → (w.session j).state = .established →
      ∃ key, (w.session i).groupKey = some key ∧ (w.session j).groupKey = some key := by
  intro w
  have consistent := ring.consistent_run correct source moves
  refine ⟨consistent.unfailing, consistent.sound.alive, fun i j mine theirs => ?_⟩
  exact ⟨_, consistent.groupKey_of_established mine, consistent.groupKey_of_established theirs⟩

/-- All three parties come to an end, with one group key. -/
theorem trio_agrees :
    let w := (trio.medium fun i => (⟨.ofNat i⟩ : DrawCounter)).run .transparent
      (Medium.schedule trio.roster.size)
    Kem.transparent.Correct ∧ w.failures = [] ∧ (∀ i, (w.session i).state = .established) ∧
      ∃ key, ∀ i, (w.session i).groupKey = some key := by
  have correct := Kem.transparent_correct
  have quiescent := schedule_quiescent correct trio fun i => (⟨.ofNat i⟩ : DrawCounter)
  obtain ⟨established, _, _⟩ := quiescent_runs_complete correct trio _ _ quiescent
  obtain ⟨unfailing, _, agree⟩ := honest_runs_agree correct trio
    (fun i => (⟨.ofNat i⟩ : DrawCounter)) (Medium.schedule _)
  generalize (trio.medium fun i => (⟨.ofNat i⟩ : DrawCounter)).run .transparent
    (Medium.schedule trio.roster.size) = w at *
  obtain ⟨first⟩ : Nonempty (Fin trio.roster.size) := ⟨⟨0, by decide⟩⟩
  obtain ⟨key, held, _⟩ := agree first first (established first) (established first)
  refine ⟨correct, unfailing, established, key, fun i => ?_⟩
  obtain ⟨other, held', mine⟩ := agree first i (established first) (established i)
  obtain rfl := Option.some.inj (held.symm.trans held')
  exact mine

end RingAgreement.HonestRing
