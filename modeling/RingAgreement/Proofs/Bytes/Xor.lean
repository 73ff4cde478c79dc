import RingAgreement.Bytes.Basic
/-!
Byte strings of one width form a group under exclusive or, in which every string is its own
inverse.
-/

namespace RingAgreement.Bytes

variable {n : Nat}

theorem ext_getElem {a b : Bytes n}
    (same : ∀ i (_ : i < a.toList.length) (_ : i < b.toList.length), a.toList[i] = b.toList[i]) :
    a = b := by
  apply ext
  refine List.ext_getElem ?_ same
  rw [a.length_toList, b.length_toList]

protected theorem xor_comm (a b : Bytes n) : a ^^^ b = b ^^^ a := by
  apply ext_getElem
  intro i _ _
  simp only [toList_xor, List.getElem_zipWith]
  exact UInt8.xor_comm _ _

protected theorem xor_assoc (a b c : Bytes n) : a ^^^ b ^^^ c = a ^^^ (b ^^^ c) := by
  apply ext_getElem
  intro i _ _
  simp [UInt8.xor_assoc]

instance : Std.Commutative (α := Bytes n) (· ^^^ ·) := ⟨Bytes.xor_comm⟩

instance : Std.Associative (α := Bytes n) (· ^^^ ·) := ⟨Bytes.xor_assoc⟩

@[simp] protected theorem xor_zero (a : Bytes n) : a ^^^ zero n = a := by
  apply ext_getElem
  intro i _ _
  simp [zero, replicate]

@[simp] protected theorem zero_xor (a : Bytes n) : zero n ^^^ a = a := by
  rw [Bytes.xor_comm, Bytes.xor_zero]

@[simp] protected theorem xor_self (a : Bytes n) : a ^^^ a = zero n := by
  apply ext_getElem
  intro i _ _
  simp [zero, replicate]

@[simp] theorem xor_xor_cancel_left (a b : Bytes n) : a ^^^ (a ^^^ b) = b := by
  rw [← Bytes.xor_assoc, Bytes.xor_self, Bytes.zero_xor]

@[simp] theorem xor_xor_cancel_right (a b : Bytes n) : a ^^^ b ^^^ b = a := by
  rw [Bytes.xor_assoc, Bytes.xor_self, Bytes.xor_zero]

theorem xor_left_cancel {a b c : Bytes n} (same : a ^^^ b = a ^^^ c) : b = c := by
  rw [← xor_xor_cancel_left a b, same, xor_xor_cancel_left]

theorem xor_right_cancel {a b c : Bytes n} (same : a ^^^ c = b ^^^ c) : a = b := by
  rw [← xor_xor_cancel_right a c, same, xor_xor_cancel_right]

/-- The exclusive or of a list of strings. -/
def sum (strings : List (Bytes n)) : Bytes n := strings.foldl (· ^^^ ·) (zero n)

@[simp] theorem sum_nil : sum ([] : List (Bytes n)) = zero n := rfl

theorem foldl_xor (start : Bytes n) (strings : List (Bytes n)) :
    strings.foldl (· ^^^ ·) start = start ^^^ sum strings := by
  induction strings generalizing start with
  | nil => simp
  | cons a rest ih =>
    simp only [sum, List.foldl_cons, Bytes.zero_xor]
    rw [ih (start ^^^ a), ih a, Bytes.xor_assoc]

@[simp] theorem sum_cons (a : Bytes n) (rest : List (Bytes n)) :
    sum (a :: rest) = a ^^^ sum rest := by
  rw [sum, List.foldl_cons, Bytes.zero_xor, foldl_xor]

theorem sum_ofFn_xor {count : Nat} (as bs : Fin count → Bytes n) :
    sum (List.ofFn fun k => as k ^^^ bs k) = sum (List.ofFn as) ^^^ sum (List.ofFn bs) := by
  induction count with
  | zero => simp
  | succ count ih =>
    rw [List.ofFn_succ, List.ofFn_succ, List.ofFn_succ, sum_cons, sum_cons, sum_cons, ih]
    ac_rfl

theorem sum_perm {as bs : List (Bytes n)} (h : as.Perm bs) : sum as = sum bs := by
  induction h with
  | nil => rfl
  | cons a _ ih => rw [sum_cons, sum_cons, ih]
  | swap a b rest =>
    simp only [sum_cons]
    ac_rfl
  | trans _ _ first second => exact first.trans second

end RingAgreement.Bytes
