import RingAgreement.Session.Roster
/-!
Which parties form a ring: at least three of them, not too many for an index, and no identifier
twice. The roster of a ring has its name and its parties as they were given.
-/

namespace RingAgreement.Roster

theorem firstRepeated_eq_none_iff {seen ids : List PartyId} :
    firstRepeated seen ids = none ↔ ids.Nodup ∧ ∀ id ∈ ids, id ∉ seen := by
  refine ⟨nodup_of_firstRepeated, ?_⟩
  induction ids generalizing seen with
  | nil => exact fun _ => rfl
  | cons id rest ih =>
    rintro ⟨distinct, unseen⟩
    obtain ⟨new, distinct⟩ := List.nodup_cons.1 distinct
    rw [firstRepeated, if_neg (unseen id List.mem_cons_self)]
    refine ih ⟨distinct, fun other member old => ?_⟩
    rcases List.mem_cons.1 old with rfl | old
    · exact new member
    · exact unseen other (List.mem_cons_of_mem _ member) old

variable {name : String} {parties : List Party} {roster : Roster}

theorem make_success (made : make name parties = .ok roster) :
    roster.name = name ∧ roster.parties = parties := by
  rw [make] at made
  split at made
  next => cases made
  next =>
    split at made
    next => cases made
    next =>
      split at made
      next => cases made
      next =>
        obtain rfl := Except.ok.inj made
        exact ⟨rfl, rfl⟩

/-- The parties of a roster can form a ring. -/
theorem make_parties (roster : Roster) : make roster.name roster.parties = .ok roster := by
  have distinct : firstRepeated [] (roster.parties.map (·.id)) = none :=
    firstRepeated_eq_none_iff.2 ⟨roster.nodup, by simp⟩
  rw [make, dif_neg (Nat.not_lt.2 roster.minSize_le), dif_neg (Nat.not_le.2 roster.size_lt)]
  split
  next repeated =>
    rw [distinct] at repeated
    cases repeated
  next => rfl

theorem make_of_size_le (many : UInt32.size ≤ parties.length) :
    make name parties = .error (.invalidRoster (.tooManyParties name)) := by
  have enough : ¬parties.length < minRingSize := Nat.not_lt.2 (Nat.le_trans (by decide) many)
  rw [make, dif_neg enough, dif_pos many]

/-- A ring is refused for a repeated party only if an identifier stands in it twice. -/
theorem not_nodup_of_make {ring repeated : String}
    (refused : make name parties = .error (.invalidRoster (.repeatedParty ring repeated))) :
    ¬(parties.map (·.id)).Nodup := by
  intro distinct
  have none : firstRepeated [] (parties.map (·.id)) = none :=
    firstRepeated_eq_none_iff.2 ⟨distinct, by simp⟩
  rw [make] at refused
  split at refused
  next => cases refused
  next =>
    split at refused
    next => cases refused
    next =>
      split at refused
      next found =>
        rw [none] at found
        cases found
      next => cases refused

end RingAgreement.Roster
