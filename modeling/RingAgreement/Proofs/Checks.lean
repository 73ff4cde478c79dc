import Mathlib.Data.List.Forall2
/-!
Checks that are made one after the other. The whole succeeds if every check does, and fails as the
first one that fails; over a list, as the check of one of its items.
-/

namespace RingAgreement

variable {ε δ α β : Type}

theorem mapError_eq_ok_iff {x : Except ε α} {g : ε → δ} {a : α} :
    x.mapError g = .ok a ↔ x = .ok a := by
  cases x with
  | error e => exact ⟨nofun, nofun⟩
  | ok a' =>
    constructor
    · intro same
      exact congrArg _ (Except.ok.inj same)
    · intro same
      exact congrArg _ (Except.ok.inj same)

theorem mapError_eq_error_iff {x : Except ε α} {g : ε → δ} {d : δ} :
    x.mapError g = .error d ↔ ∃ e, x = .error e ∧ g e = d := by
  cases x with
  | error e =>
    constructor
    · intro failed
      exact ⟨e, rfl, Except.error.inj failed⟩
    · rintro ⟨e', same, rfl⟩
      rw [Except.error.inj same]
      rfl
  | ok a => exact ⟨nofun, nofun⟩

section Bind

variable {x : Except ε α} {next : α → Except ε β}

theorem bind_eq_ok_iff {b : β} : x >>= next = .ok b ↔ ∃ a, x = .ok a ∧ next a = .ok b := by
  cases x with
  | error e => exact ⟨nofun, nofun⟩
  | ok a =>
    constructor
    · intro made
      exact ⟨a, rfl, made⟩
    · rintro ⟨a', same, made⟩
      obtain rfl := Except.ok.inj same
      exact made

theorem bind_eq_error_iff {e : ε} :
    x >>= next = .error e ↔ x = .error e ∨ ∃ a, x = .ok a ∧ next a = .error e := by
  cases x with
  | error e' =>
    constructor
    · intro failed
      exact .inl (congrArg _ (Except.error.inj failed))
    · rintro (same | ⟨a, made, -⟩)
      · exact congrArg _ (Except.error.inj same)
      · cases made
  | ok a =>
    constructor
    · intro failed
      exact .inr ⟨a, rfl, failed⟩
    · rintro (failed | ⟨a', same, failed⟩)
      · cases failed
      · obtain rfl := Except.ok.inj same
        exact failed

end Bind

section Lists

variable {f : α → Except ε β} {xs : List α} {ys : List β}

theorem mapM_eq_ok_iff : xs.mapM f = .ok ys ↔ List.Forall₂ (fun x y => f x = .ok y) xs ys := by
  induction xs generalizing ys with
  | nil =>
    rw [List.mapM_nil, List.forall₂_nil_left_iff]
    exact ⟨fun made => (Except.ok.inj made).symm, congrArg Except.ok ∘ Eq.symm⟩
  | cons x xs ih =>
    rw [List.mapM_cons, List.forall₂_cons_left_iff, bind_eq_ok_iff]
    constructor
    · rintro ⟨y, first, made⟩
      obtain ⟨ys', rest, made⟩ := bind_eq_ok_iff.1 made
      exact ⟨y, ys', first, ih.1 rest, (Except.ok.inj made).symm⟩
    · rintro ⟨y, ys', first, rest, rfl⟩
      exact ⟨y, first, bind_eq_ok_iff.2 ⟨ys', ih.2 rest, rfl⟩⟩

theorem exists_error_of_mapM {e : ε} (failed : xs.mapM f = .error e) :
    ∃ x ∈ xs, f x = .error e := by
  induction xs with
  | nil => cases failed
  | cons x xs ih =>
    rw [List.mapM_cons] at failed
    rcases bind_eq_error_iff.1 failed with first | ⟨y, -, failed⟩
    · exact ⟨x, List.mem_cons_self, first⟩
    rcases bind_eq_error_iff.1 failed with rest | ⟨ys, -, made⟩
    · obtain ⟨other, member, reason⟩ := ih rest
      exact ⟨other, List.mem_cons_of_mem _ member, reason⟩
    · cases made

theorem exists_getElem?_of_forall₂ {R : α → β → Prop} (related : List.Forall₂ R xs ys) {i : Nat}
    {x : α} (there : xs[i]? = some x) : ∃ y, ys[i]? = some y ∧ R x y := by
  induction related generalizing i with
  | nil => cases there
  | @cons x' y' _ _ first _ ih =>
    cases i with
    | zero =>
      obtain rfl := Option.some.inj there
      exact ⟨y', rfl, first⟩
    | succ i => exact ih there

end Lists

end RingAgreement
