import Mathlib.Data.List.DropRight
import RingAgreement.Proofs.Text.Utf8
/-!
What an identifier tells about its name. Zeros fill up the bytes of a name, so a zero character at
the end of a name cannot be told from them, and the name is read back up to its first zero. Nothing
else of a name is lost.
-/

namespace RingAgreement

section Zeros

variable {α : Type} {p : α → Bool} {a : α}

theorem rdropWhile_append_replicate (pass : p a = true) (l : List α) (count : Nat) :
    (l ++ List.replicate count a).rdropWhile p = l.rdropWhile p := by
  induction count with
  | zero => rw [List.replicate_zero, List.append_nil]
  | succ count ih =>
    rw [List.replicate_succ', ← List.append_assoc, List.rdropWhile_concat_pos _ _ _ pass, ih]

theorem takeWhile_append_replicate (stop : p a = false) (l : List α) (count : Nat) :
    (l ++ List.replicate count a).takeWhile p = l.takeWhile p := by
  induction l with
  | nil =>
    cases count with
    | zero => rfl
    | succ count =>
      rw [List.nil_append, List.replicate_succ, List.takeWhile_cons_of_neg (by simp [stop])]
      rfl
  | cons b l ih =>
    rw [List.cons_append, List.takeWhile_cons, List.takeWhile_cons, ih]

end Zeros

namespace PartyId

/-- The characters of a name but for zeros at its end. -/
def significant (name : String) : List Char := name.toList.rdropWhile (· = '\x00')

theorem exists_eq_significant (name : String) :
    ∃ count, name.toList = significant name ++ List.replicate count '\x00' := by
  have zeros : ∀ c ∈ name.toList.rtakeWhile (· = '\x00'), c = '\x00' := by
    intro c member
    have zero := List.mem_rtakeWhile_imp member
    exact of_decide_eq_true zero
  refine ⟨(name.toList.rtakeWhile (· = '\x00')).length, ?_⟩
  rw [← List.eq_replicate_of_mem zeros, significant, List.rdropWhile_append_rtakeWhile]

theorem significant_of_plain {name : String} (plain : '\x00' ∉ name.toList) :
    significant name = name.toList := by
  refine List.rdropWhile_eq_self_iff.2 fun nonempty zero => plain ?_
  rw [← of_decide_eq_true zero]
  exact List.getLast_mem nonempty

theorem eq_of_significant {s t : String} (plain : '\x00' ∉ s.toList) (plain' : '\x00' ∉ t.toList)
    (same : significant s = significant t) : s = t := by
  rw [significant_of_plain plain, significant_of_plain plain'] at same
  exact String.toList_injective same

/-- The width of the significant part of a name, in bytes. -/
def significantWidth (name : String) : Nat :=
  ((significant name).flatMap String.utf8EncodeChar).length

variable {name s t : String} {id a b : PartyId}

theorem ofName_success (made : ofName name = .ok id) :
    (Text.utf8 name).length ≤ 20 ∧ id.bytes.toList =
      Text.utf8 name ++ List.replicate (20 - (Text.utf8 name).length) 0 := by
  rw [ofName] at made
  split at made
  next => cases made
  next fits =>
    have short : (Text.utf8 name).length ≤ 20 := Nat.not_lt.1 (not_or.1 fits).2
    obtain rfl := Except.ok.inj made
    refine ⟨short, ?_⟩
    change List.take 20 _ ++ _ = _
    rw [List.take_of_length_le short]

/-- The bytes of an identifier are those of the significant part of its name, and zeros. -/
theorem bytes_of_ofName (made : ofName name = .ok id) :
    id.bytes.toList = (significant name ++
      List.replicate (20 - significantWidth name) '\x00').flatMap String.utf8EncodeChar := by
  obtain ⟨short, bytes⟩ := ofName_success made
  obtain ⟨count, parts⟩ := exists_eq_significant name
  have form : Text.utf8 name = (significant name).flatMap String.utf8EncodeChar ++
      List.replicate count 0 := by
    rw [Text.utf8_eq_flatMap, parts, List.flatMap_append, Text.flatMap_utf8EncodeChar_replicate]
  have width : (Text.utf8 name).length = significantWidth name + count := by
    rw [form, List.length_append, List.length_replicate]
    rfl
  have filled : count + (20 - (significantWidth name + count)) = 20 - significantWidth name := by
    omega
  rw [bytes, width, form, List.append_assoc, List.replicate_append_replicate, filled,
    List.flatMap_append, Text.flatMap_utf8EncodeChar_replicate]

/-- Two identifiers are the same exactly if their names are, apart from zeros at their ends. -/
theorem eq_iff_significant (madeS : ofName s = .ok a) (madeT : ofName t = .ok b) :
    a = b ↔ significant s = significant t := by
  have bytesS := bytes_of_ofName madeS
  have bytesT := bytes_of_ofName madeT
  constructor
  · rintro rfl
    rw [bytesS, ← Text.utf8_ofList, ← Text.utf8_ofList] at bytesT
    have same := congrArg String.toList (Text.utf8_injective bytesT)
    rw [String.toList_ofList, String.toList_ofList] at same
    have cut := congrArg (List.rdropWhile (· = '\x00')) same
    rw [rdropWhile_append_replicate (by decide), rdropWhile_append_replicate (by decide),
      significant, significant, List.rdropWhile_idempotent, List.rdropWhile_idempotent] at cut
    exact cut
  · intro same
    rw [significantWidth, same] at bytesS
    obtain ⟨bytes⟩ := a
    obtain ⟨bytes'⟩ := b
    exact congrArg mk (Bytes.ext (bytesS.trans bytesT.symm))

/-- The name that is read back ends before the first zero. -/
theorem name_of_ofName (made : ofName name = .ok id) :
    id.name = String.ofList (name.toList.takeWhile (· ≠ '\x00')) := by
  obtain ⟨count, parts⟩ := exists_eq_significant name
  have read : id.bytes.toList.takeWhile (· ≠ 0) =
      Text.utf8 (String.ofList (name.toList.takeWhile (· ≠ '\x00'))) := by
    rw [bytes_of_ofName made, Text.takeWhile_flatMap_utf8EncodeChar, Text.utf8_ofList, parts,
      takeWhile_append_replicate (by decide), takeWhile_append_replicate (by decide)]
  rw [PartyId.name, read, Text.ofUtf8?_utf8, Option.getD_some]

theorem name_eq_iff (made : ofName name = .ok id) : id.name = name ↔ '\x00' ∉ name.toList := by
  rw [name_of_ofName made]
  constructor
  · intro same zero
    rw [← same, String.toList_ofList] at zero
    have visible := List.mem_takeWhile_imp zero
    cases visible
  · intro plain
    have whole : name.toList.takeWhile (· ≠ '\x00') = name.toList := by
      refine List.takeWhile_eq_self_iff.2 fun c member => decide_eq_true ?_
      rintro rfl
      exact plain member
    rw [whole, String.ofList_toList]

end PartyId

end RingAgreement
