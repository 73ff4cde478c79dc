import RingAgreement.Ring.PartyId
/-!
The UTF-8 form of texts: it determines the text, and a zero byte stands for a zero character and is
part of no other one.
-/

namespace RingAgreement.Text

theorem utf8_eq_flatMap (s : String) : utf8 s = s.toList.flatMap String.utf8EncodeChar := by
  have bytes : s.toUTF8 = s.toList.utf8Encode := by
    rw [← String.toByteArray_ofList, String.ofList_toList]
    rfl
  rw [utf8, bytes, List.utf8Encode, List.data_toByteArray]

theorem utf8_ofList (text : List Char) :
    utf8 (String.ofList text) = text.flatMap String.utf8EncodeChar := by
  rw [utf8_eq_flatMap, String.toList_ofList]

@[simp] theorem ofUtf8?_utf8 (s : String) : ofUtf8? (utf8 s) = some s := by
  have whole : (⟨(utf8 s).toArray⟩ : ByteArray) = s.toByteArray := rfl
  rw [ofUtf8?, whole, String.fromUTF8?, dif_pos s.isValidUTF8]
  rfl

theorem utf8_injective {s t : String} (same : utf8 s = utf8 t) : s = t := by
  have read := congrArg ofUtf8? same
  rw [ofUtf8?_utf8, ofUtf8?_utf8] at read
  exact Option.some.inj read

theorem ofNat_ne_zero {n : Nat} (positive : 0 < n) (small : n < 256) : UInt8.ofNat n ≠ 0 := by
  intro zero
  have value := congrArg UInt8.toNat zero
  rw [UInt8.toNat_ofNat', Nat.mod_eq_of_lt small] at value
  exact Nat.ne_of_gt positive value

/-- No byte of a character but zero is zero. -/
theorem ne_zero_of_mem_utf8EncodeChar {c : Char} (visible : c ≠ '\x00') :
    ∀ byte ∈ String.utf8EncodeChar c, byte ≠ 0 := by
  have positive : 0 < c.val.toNat := by
    refine Nat.pos_of_ne_zero fun zero => visible ?_
    exact Char.ext (UInt32.toNat_inj.1 zero)
  intro byte member
  unfold String.utf8EncodeChar at member
  dsimp only at member
  split at member
  next ascii =>
    obtain rfl := List.mem_singleton.1 member
    exact ofNat_ne_zero positive (by omega)
  next =>
    -- In a longer form the first byte is at least 192, and the others are at least 128.
    repeat' split at member
    all_goals
      simp only [List.mem_cons, List.not_mem_nil, or_false] at member
      rcases member with rfl | rfl | rfl | rfl
    all_goals exact ofNat_ne_zero (by omega) (by omega)

/-- The form of a text up to the first zero byte is that of the text up to its first zero. -/
theorem takeWhile_flatMap_utf8EncodeChar (text : List Char) :
    (text.flatMap String.utf8EncodeChar).takeWhile (· ≠ 0) =
      (text.takeWhile (· ≠ '\x00')).flatMap String.utf8EncodeChar := by
  induction text with
  | nil => rfl
  | cons c text ih =>
    by_cases zero : c = '\x00'
    · subst zero
      rfl
    · have visible : ∀ byte ∈ String.utf8EncodeChar c, decide (byte ≠ 0) = true :=
        fun byte member => decide_eq_true (ne_zero_of_mem_utf8EncodeChar zero byte member)
      rw [List.flatMap_cons, List.takeWhile_append_of_pos visible, ih,
        List.takeWhile_cons_of_pos, List.flatMap_cons]
      exact decide_eq_true zero

/-- Zero characters are zero bytes. -/
theorem flatMap_utf8EncodeChar_replicate (count : Nat) :
    (List.replicate count '\x00').flatMap String.utf8EncodeChar = List.replicate count 0 := by
  induction count with
  | zero => rfl
  | succ count ih =>
    rw [List.replicate_succ, List.flatMap_cons, ih]
    rfl

end RingAgreement.Text
