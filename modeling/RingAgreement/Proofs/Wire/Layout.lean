import Mathlib.Algebra.GroupWithZero.Nat
import RingAgreement.Proofs.Wire.Codec
/-!
Layouts of any widths. Bytes are split exactly when they have a length of the layout, and then the
cuts stay within them; parts are joined exactly when they have the widths of the layout. The two are
inverse to each other, and what is refused is refused for its first fault.
-/

namespace RingAgreement

namespace Schema

variable {s : Schema} {fields : List Field} {bytes : List UInt8} {parts : List (List UInt8)}

/-! ## Lengths and widths -/

/-- The lengths that the layout has: all of its widths, or that and more if it has a tail. -/
def Spans (s : Schema) (length : Nat) : Prop :=
  match s.tail with
  | none => length = (s.fields.map (·.width)).sum
  | some _ => (s.fields.map (·.width)).sum ≤ length

/-- The part at a place has the width of the field there. Where there is no field, as in the place of
a tail, it may have any. -/
def FitsAt (fields : List Field) (parts : List (List UInt8)) (i : Nat) : Prop :=
  ∀ field part, fields[i]? = some field → parts[i]? = some part → part.length = field.width

/-- Parts of the layout: as many as it has, each as wide as its field. -/
structure Laid (s : Schema) (parts : List (List UInt8)) : Prop where
  count : parts.length = s.partCount
  fits : ∀ i, FitsAt s.fields parts i

/-- The first part that is not as wide as its field. -/
structure FirstMisfit (fields : List Field) (parts : List (List UInt8)) (i : Nat) (field : Field)
    (part : List UInt8) : Prop where
  field_at : fields[i]? = some field
  part_at : parts[i]? = some part
  misfits : part.length ≠ field.width
  before : ∀ j < i, FitsAt fields parts j

theorem fixedLength_eq_sum (s : Schema) : s.fixedLength = (s.fields.map (·.width)).sum := by
  rw [fixedLength, List.sum, List.foldr_map]

theorem allows_iff {length : Nat} : s.allows length = true ↔ s.Spans length := by
  unfold allows Spans
  rw [fixedLength_eq_sum]
  cases s.tail with
  | none => simp
  | some tail => simp

theorem Spans.enough {length : Nat} (spans : s.Spans length) :
    (s.fields.map (·.width)).sum ≤ length := by
  unfold Spans at spans
  split at spans
  · exact Nat.le_of_eq spans.symm
  · exact spans

theorem fitsAt_zero {field : Field} {part : List UInt8} :
    FitsAt (field :: fields) (part :: parts) 0 ↔ part.length = field.width := by
  simp [FitsAt]

theorem fitsAt_succ {field : Field} {part : List UInt8} {i : Nat} :
    FitsAt (field :: fields) (part :: parts) (i + 1) ↔ FitsAt fields parts i := by
  simp [FitsAt]

theorem forall_fitsAt_cons {field : Field} {part : List UInt8} :
    (∀ i, FitsAt (field :: fields) (part :: parts) i) ↔
      part.length = field.width ∧ ∀ i, FitsAt fields parts i := by
  constructor
  · intro fits
    exact ⟨fitsAt_zero.1 (fits 0), fun i => fitsAt_succ.1 (fits (i + 1))⟩
  · rintro ⟨width, fits⟩ i
    cases i with
    | zero => exact fitsAt_zero.2 width
    | succ i => exact fitsAt_succ.2 (fits i)

theorem forall_fitsAt_iff (enough : fields.length ≤ parts.length) :
    (∀ i, FitsAt fields parts i) ↔
      (parts.take fields.length).map List.length = fields.map (·.width) := by
  induction fields generalizing parts with
  | nil => simp [FitsAt]
  | cons field fields ih =>
    cases parts with
    | nil => simp at enough
    | cons part parts =>
      rw [forall_fitsAt_cons, ih (by simpa using enough)]
      simp

/-- Parts of a layout without a tail are just those of its fields. -/
theorem laid_iff_of_closed (closed : s.tail = none) :
    s.Laid parts ↔ parts.map List.length = s.fields.map (·.width) := by
  constructor
  · rintro ⟨count, fits⟩
    have count : parts.length = s.fields.length := by simpa [partCount, closed] using count
    rw [forall_fitsAt_iff (by omega), ← count, List.take_length] at fits
    exact fits
  · intro widths
    have count : parts.length = s.fields.length := by simpa using congrArg List.length widths
    refine ⟨by simpa [partCount, closed] using count, ?_⟩
    rw [forall_fitsAt_iff (by omega), ← count, List.take_length]
    exact widths

/-- Parts of a layout with a tail are those of its fields and one more of any length. -/
theorem laid_iff_of_open (opened : s.tail.isSome) :
    s.Laid parts ↔ ∃ front last, parts = front ++ [last] ∧
      front.map List.length = s.fields.map (·.width) := by
  constructor
  · rintro ⟨count, fits⟩
    have count : parts.length = s.fields.length + 1 := by simpa [partCount, opened] using count
    rw [forall_fitsAt_iff (by omega)] at fits
    obtain ⟨last, behind⟩ : ∃ last, parts.drop s.fields.length = [last] := by
      rw [← List.length_eq_one_iff, List.length_drop]
      omega
    refine ⟨parts.take s.fields.length, last, ?_, fits⟩
    rw [← behind, List.take_append_drop]
  · rintro ⟨front, last, rfl, widths⟩
    have count : front.length = s.fields.length := by simpa using congrArg List.length widths
    refine ⟨by simp [partCount, opened, count], ?_⟩
    rw [forall_fitsAt_iff (by simp [count]), ← count, List.take_left]
    exact widths

/-! ## Splitting -/

theorem flatten_cut (fields : List Field) (bytes : List UInt8) :
    (cut fields bytes).1.flatten ++ (cut fields bytes).2 = bytes := by
  induction fields generalizing bytes with
  | nil => rfl
  | cons field fields ih =>
    simp only [cut, List.flatten_cons, List.append_assoc]
    rw [ih, List.take_append_drop]

theorem map_length_cut (enough : (fields.map (·.width)).sum ≤ bytes.length) :
    (cut fields bytes).1.map List.length = fields.map (·.width) := by
  induction fields generalizing bytes with
  | nil => rfl
  | cons field fields ih =>
    simp only [List.map_cons, List.sum_cons] at enough ⊢
    have later : (fields.map (·.width)).sum ≤ (bytes.drop field.width).length := by
      rw [List.length_drop]
      omega
    simp only [cut, List.map_cons, ih later, List.length_take]
    rw [Nat.min_eq_left (by omega)]

theorem length_rest_cut (fields : List Field) (bytes : List UInt8) :
    (cut fields bytes).2.length = bytes.length - (fields.map (·.width)).sum := by
  induction fields generalizing bytes with
  | nil => rfl
  | cons field fields ih =>
    simp only [cut, List.map_cons, List.sum_cons]
    rw [ih, List.length_drop]
    omega

/-- What is read are parts of the layout, and the bytes are these parts one behind the other. -/
theorem laid_of_split (parted : s.split bytes = .ok parts) :
    s.Laid parts ∧ parts.flatten = bytes := by
  unfold split at parted
  split at parted
  · rename_i allowed
    have spans : s.Spans bytes.length := allows_iff.1 allowed
    have widths := map_length_cut spans.enough
    have whole := flatten_cut s.fields bytes
    cases closed : s.tail with
    | none =>
      simp only [closed, Option.isSome_none, Bool.false_eq_true, if_false, Except.ok.injEq]
        at parted
      subst parted
      -- Nothing is left behind the fields, since their widths are all there is.
      have nothing : (cut s.fields bytes).2 = [] := by
        simp only [Spans, closed] at spans
        apply List.eq_nil_of_length_eq_zero
        rw [length_rest_cut]
        omega
      rw [nothing, List.append_nil] at whole
      exact ⟨(laid_iff_of_closed closed).2 widths, whole⟩
    | some tail =>
      have opened : s.tail.isSome := by simp [closed]
      simp only [closed, Option.isSome_some, if_true, Except.ok.injEq] at parted
      subst parted
      refine ⟨(laid_iff_of_open opened).2 ⟨_, _, rfl, widths⟩, ?_⟩
      rw [List.flatten_append, List.flatten_singleton]
      exact whole
  · cases parted

theorem split_of_laid (laid : s.Laid parts) : s.split parts.flatten = .ok parts := by
  cases closed : s.tail with
  | none => exact split_flatten closed ((laid_iff_of_closed closed).1 laid)
  | some tail =>
    have opened : s.tail.isSome := by simp [closed]
    obtain ⟨front, last, rfl, widths⟩ := (laid_iff_of_open opened).1 laid
    rw [List.flatten_append, List.flatten_singleton]
    exact split_flatten_tail last opened widths

theorem split_eq_ok_iff : s.split bytes = .ok parts ↔ s.Laid parts ∧ parts.flatten = bytes := by
  constructor
  · exact laid_of_split
  · rintro ⟨laid, rfl⟩
    exact split_of_laid laid

theorem exists_split_iff : (∃ read, s.split bytes = .ok read) ↔ s.Spans bytes.length := by
  rw [← allows_iff]
  cases allowed : s.allows bytes.length with
  | false => simp [split_of_not_allows allowed]
  | true => simp [split, allowed]

/-! ## Joining -/

theorem firstMismatch_eq_none_iff :
    firstMismatch fields parts = none ↔ ∀ i, FitsAt fields parts i := by
  induction fields generalizing parts with
  | nil => simp [firstMismatch, FitsAt]
  | cons field fields ih =>
    cases parts with
    | nil => simp [firstMismatch, FitsAt]
    | cons part parts =>
      rw [forall_fitsAt_cons, ← ih, firstMismatch]
      split
      · rename_i width
        simp [width]
      · rename_i width
        simp [width]

theorem firstMisfit_zero_iff {field other : Field} {part misfit : List UInt8} :
    FirstMisfit (field :: fields) (part :: parts) 0 other misfit ↔
      part.length ≠ field.width ∧ field = other ∧ part = misfit := by
  constructor
  · rintro ⟨field_at, part_at, misfits, -⟩
    obtain rfl := Option.some.inj field_at
    obtain rfl := Option.some.inj part_at
    exact ⟨misfits, rfl, rfl⟩
  · rintro ⟨misfits, rfl, rfl⟩
    exact ⟨rfl, rfl, misfits, fun j before => absurd before (Nat.not_lt_zero j)⟩

theorem firstMisfit_succ_iff {field other : Field} {part misfit : List UInt8} {i : Nat} :
    FirstMisfit (field :: fields) (part :: parts) (i + 1) other misfit ↔
      part.length = field.width ∧ FirstMisfit fields parts i other misfit := by
  constructor
  · rintro ⟨field_at, part_at, misfits, before⟩
    refine ⟨fitsAt_zero.1 (before 0 (by omega)), field_at, part_at, misfits, ?_⟩
    intro j earlier
    exact fitsAt_succ.1 (before (j + 1) (by omega))
  · rintro ⟨width, field_at, part_at, misfits, before⟩
    refine ⟨field_at, part_at, misfits, ?_⟩
    intro j earlier
    cases j with
    | zero => exact fitsAt_zero.2 width
    | succ j => exact fitsAt_succ.2 (before j (by omega))

theorem firstMismatch_eq_some_iff {e : WireError} :
    firstMismatch fields parts = some e ↔ ∃ i field part, FirstMisfit fields parts i field part ∧
      e = .fieldLength field.name field.width part.length := by
  induction fields generalizing parts with
  | nil =>
    constructor
    · exact nofun
    · rintro ⟨i, field, part, first, -⟩
      simpa using first.field_at
  | cons field fields ih =>
    cases parts with
    | nil =>
      constructor
      · exact nofun
      · rintro ⟨i, field, part, first, -⟩
        simpa using first.part_at
    | cons part parts =>
      rw [firstMismatch]
      by_cases width : part.length = field.width
      · rw [if_pos width, ih]
        constructor
        · rintro ⟨i, other, misfit, first, rfl⟩
          exact ⟨i + 1, other, misfit, firstMisfit_succ_iff.2 ⟨width, first⟩, rfl⟩
        · rintro ⟨i, other, misfit, first, rfl⟩
          cases i with
          | zero => exact absurd width (firstMisfit_zero_iff.1 first).1
          | succ i => exact ⟨i, other, misfit, (firstMisfit_succ_iff.1 first).2, rfl⟩
      · rw [if_neg width]
        constructor
        · intro found
          obtain rfl := Option.some.inj found
          exact ⟨0, field, part, firstMisfit_zero_iff.2 ⟨width, rfl, rfl⟩, rfl⟩
        · rintro ⟨i, other, misfit, first, rfl⟩
          cases i with
          | zero =>
            obtain ⟨-, rfl, rfl⟩ := firstMisfit_zero_iff.1 first
            rfl
          | succ i => exact absurd (firstMisfit_succ_iff.1 first).1 width

theorem join_eq_ok_iff : s.join parts = .ok bytes ↔ s.Laid parts ∧ parts.flatten = bytes := by
  unfold join
  by_cases count : parts.length = s.partCount
  · rw [if_neg (not_not_intro count)]
    cases found : firstMismatch s.fields parts with
    | none =>
      have laid : s.Laid parts := ⟨count, firstMismatch_eq_none_iff.1 found⟩
      simp [laid]
    | some e =>
      constructor
      · exact nofun
      · rintro ⟨laid, -⟩
        rw [firstMismatch_eq_none_iff.2 laid.fits] at found
        cases found
  · rw [if_pos count]
    constructor
    · exact nofun
    · rintro ⟨laid, -⟩
      exact absurd laid.count count

theorem join_eq_error_iff {e : WireError} : s.join parts = .error e ↔
    parts.length ≠ s.partCount ∧ e = .fieldCount s.name s.partCount parts.length ∨
    parts.length = s.partCount ∧ ∃ i field part, FirstMisfit s.fields parts i field part ∧
      e = .fieldLength field.name field.width part.length := by
  unfold join
  rw [← firstMismatch_eq_some_iff]
  by_cases count : parts.length = s.partCount
  · cases found : firstMismatch s.fields parts with
    | none => simp [count]
    | some other => simp [count, eq_comm]
  · simp [count, eq_comm]

/-! ## Both as walks

A walk over the fields has only a remainder that gets shorter, or a buffer that gets longer. Where it
would reach for bytes or parts that are not there, it gives `none`. -/

/-- A reader in the middle of a payload: the parts it has, and the bytes behind them. -/
structure Reader where
  parts : List (List UInt8)
  rest : List UInt8

/-- Cuts off the next part, if the bytes reach that far. -/
def Reader.next? (r : Reader) (field : Field) : Option Reader :=
  if field.width ≤ r.rest.length then
    some ⟨r.parts ++ [r.rest.take field.width], r.rest.drop field.width⟩
  else none

def walkSplit? (s : Schema) (bytes : List UInt8) :
    Option (Except WireError (List (List UInt8))) :=
  if s.allows bytes.length then do
    let r ← s.fields.foldlM Reader.next? ⟨[], bytes⟩
    some (.ok (if s.tail.isSome then r.parts ++ [r.rest] else r.parts))
  else some (.error (.payloadLength s.name s.fixedLength bytes.length))

/-- Puts a part behind a buffer, if it is as wide as its field. -/
def write (buffer : List UInt8) (next : Field × List UInt8) : Except WireError (List UInt8) :=
  if next.2.length = next.1.width then .ok (buffer ++ next.2)
  else .error (.fieldLength next.1.name next.1.width next.2.length)

def walkJoin? (s : Schema) (parts : List (List UInt8)) : Option (Except WireError (List UInt8)) :=
  if parts.length ≠ s.partCount then
    some (.error (.fieldCount s.name s.partCount parts.length))
  else do
    let last ← if s.tail.isSome then parts[s.fields.length]? else some []
    some do
      let buffer ← (s.fields.zip parts).foldlM write []
      .ok (buffer ++ last)

/-- A reader gets over fields exactly when the bytes in front of it are at least as many as the
widths, and then it has cut them where `cut` does. -/
theorem foldlM_next? (fields : List Field) (r : Reader) :
    fields.foldlM Reader.next? r =
      if (fields.map (·.width)).sum ≤ r.rest.length then
        some ⟨r.parts ++ (cut fields r.rest).1, (cut fields r.rest).2⟩
      else none := by
  induction fields generalizing r with
  | nil => simp [cut]
  | cons field fields ih =>
    rw [List.foldlM_cons, Reader.next?]
    simp only [List.map_cons, List.sum_cons]
    by_cases reaches : field.width ≤ r.rest.length
    · rw [if_pos reaches, Option.bind_eq_bind, Option.bind_some, ih]
      have remainder : (fields.map (·.width)).sum ≤ (r.rest.drop field.width).length ↔
          field.width + (fields.map (·.width)).sum ≤ r.rest.length := by
        rw [List.length_drop]
        omega
      simp only [remainder, cut, List.append_assoc, List.singleton_append]
    · rw [if_neg reaches, if_neg (by omega)]
      rfl

/-- A writer stops at the first part that is not as wide as its field. -/
theorem foldlM_write (fields : List Field) (parts : List (List UInt8)) (buffer : List UInt8) :
    (fields.zip parts).foldlM write buffer =
      match firstMismatch fields parts with
      | some e => .error e
      | none => .ok (buffer ++ (parts.take fields.length).flatten) := by
  induction fields generalizing parts buffer with
  | nil => simp [firstMismatch, pure, Except.pure]
  | cons field fields ih =>
    cases parts with
    | nil => simp [firstMismatch, pure, Except.pure]
    | cons part parts =>
      rw [List.zip_cons_cons, List.foldlM_cons, write, firstMismatch]
      by_cases width : part.length = field.width
      · rw [if_pos width, if_pos width]
        change (fields.zip parts).foldlM write (buffer ++ part) = _
        rw [ih]
        simp
      · rw [if_neg width, if_neg width]
        rfl

theorem walkSplit?_eq (s : Schema) (bytes : List UInt8) :
    s.walkSplit? bytes = some (s.split bytes) := by
  unfold walkSplit? split
  by_cases allowed : s.allows bytes.length = true
  · have enough := (allows_iff.1 allowed).enough
    rw [if_pos allowed, if_pos allowed, foldlM_next?, if_pos enough]
    simp
  · rw [if_neg allowed, if_neg allowed]

theorem walkJoin?_eq (s : Schema) (parts : List (List UInt8)) :
    s.walkJoin? parts = some (s.join parts) := by
  unfold walkJoin? join
  by_cases count : parts.length = s.partCount
  · rw [if_neg (not_not_intro count), if_neg (not_not_intro count), foldlM_write]
    cases closed : s.tail with
    | none =>
      have count : parts.length = s.fields.length := by simpa [partCount, closed] using count
      rw [← count, List.take_length]
      cases firstMismatch s.fields parts <;> simp [bind, Except.bind]
    | some tail =>
      have count : parts.length = s.fields.length + 1 := by simpa [partCount, closed] using count
      have there : s.fields.length < parts.length := by omega
      have whole : (parts.take s.fields.length).flatten ++ parts[s.fields.length] =
          parts.flatten := by
        rw [← List.flatten_concat, List.take_append_getElem]
        rw [← count, List.take_length]
      cases firstMismatch s.fields parts <;> simp [bind, Except.bind, there, whole]
  · rw [if_pos count, if_pos count]

/-- Bytes are split exactly when they have a length of the layout, and no cut reaches behind their
end. The parts that are read are those of the layout that make up the bytes, and joining them gives
these bytes. Parts are joined exactly when they are parts of the layout, and splitting the result
gives these parts. A wrong number of parts is told first, then the first part of a wrong width. -/
theorem splitting_inverts_joining (s : Schema) (bytes : List UInt8) (parts : List (List UInt8)) :
    ((∃ read, s.split bytes = .ok read) ↔ s.Spans bytes.length) ∧
    s.walkSplit? bytes = some (s.split bytes) ∧
    (s.split bytes = .ok parts ↔ s.Laid parts ∧ parts.flatten = bytes) ∧
    (s.split bytes = .ok parts ↔ s.join parts = .ok bytes) ∧
    ((∃ written, s.join parts = .ok written) ↔ s.Laid parts) ∧
    s.walkJoin? parts = some (s.join parts) ∧
    ∀ e, s.join parts = .error e ↔
      parts.length ≠ s.partCount ∧ e = .fieldCount s.name s.partCount parts.length ∨
      parts.length = s.partCount ∧ ∃ i field part, FirstMisfit s.fields parts i field part ∧
        e = .fieldLength field.name field.width part.length := by
  refine ⟨exists_split_iff, walkSplit?_eq s bytes, split_eq_ok_iff, ?_, ?_, walkJoin?_eq s parts,
    fun e => join_eq_error_iff⟩
  · rw [split_eq_ok_iff, join_eq_ok_iff]
  · constructor
    · rintro ⟨written, joined⟩
      exact (join_eq_ok_iff.1 joined).1
    · intro laid
      exact ⟨parts.flatten, join_eq_ok_iff.2 ⟨laid, rfl⟩⟩

/-- A field of no width takes no bytes, and is a part all the same. -/
example : split ⟨"edges", [⟨"before", 0⟩, ⟨"byte", 1⟩, ⟨"behind", 0⟩], some "rest"⟩ [7, 8] =
    .ok [[], [7], [], [8]] := rfl

end Schema

end RingAgreement
