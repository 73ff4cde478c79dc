import RingAgreement.Base64
/-!
Base64 texts: what an encoding is made of, how long it is, and that it decodes to the bytes that
were encoded.
-/

namespace RingAgreement.Base64

/-! ## The alphabet -/

theorem value?_symbol {n : Nat} (small : n < 64) : value? (symbol n) = some n := by
  have all : ∀ n < 64, value? (symbol n) = some n := by decide
  exact all n small

theorem symbol_ne_padding {n : Nat} (small : n < 64) : symbol n ≠ '=' := by
  intro padding
  have read := value?_symbol small
  rw [padding] at read
  cases read

/-- The characters of an encoding: those of the alphabet, and the padding. -/
def IsText (c : Char) : Prop := c = '=' ∨ ∃ n < 64, c = symbol n

theorem isText_symbol {n : Nat} (small : n < 64) : IsText (symbol n) := .inr ⟨n, small, rfl⟩

theorem isText_padding : IsText '=' := .inl rfl

theorem isText_encodeList {bytes : List UInt8} : ∀ c ∈ encodeList bytes, IsText c := by
  fun_induction encodeList bytes with
  | case1 => simp
  | case2 a =>
    have a_lt := a.toNat_lt
    intro c member
    simp only [encodeOne, List.mem_cons, List.not_mem_nil, or_false] at member
    rcases member with rfl | rfl | rfl | rfl
    · exact isText_symbol (by omega)
    · exact isText_symbol (by omega)
    · exact isText_padding
    · exact isText_padding
  | case3 a b =>
    have a_lt := a.toNat_lt
    have b_lt := b.toNat_lt
    intro c member
    simp only [encodeTwo, List.mem_cons, List.not_mem_nil, or_false] at member
    rcases member with rfl | rfl | rfl | rfl
    · exact isText_symbol (by omega)
    · exact isText_symbol (by omega)
    · exact isText_symbol (by omega)
    · exact isText_padding
  | case4 a b d rest ih =>
    have a_lt := a.toNat_lt
    have b_lt := b.toNat_lt
    have d_lt := d.toNat_lt
    intro c member
    rcases List.mem_append.1 member with here | later
    · simp only [encodeThree, List.mem_cons, List.not_mem_nil, or_false] at here
      rcases here with rfl | rfl | rfl | rfl
      all_goals exact isText_symbol (by omega)
    · exact ih c later

/-! ## Lengths -/

/-- Every three bytes take four characters, and so do the bytes that are left over. -/
theorem length_encodeList (bytes : List UInt8) :
    (encodeList bytes).length = 4 * ((bytes.length + 2) / 3) := by
  fun_induction encodeList bytes with
  | case1 => rfl
  | case2 a => simp [encodeOne]
  | case3 a b => simp [encodeTwo]
  | case4 a b c rest ih =>
    rw [List.length_append, ih]
    simp only [encodeThree, List.length_cons, List.length_nil]
    omega

/-! ## Decoding -/

theorem decodeOne?_encodeOne (a : UInt8) :
    decodeOne? (symbol (a.toNat * 16 / 64)) (symbol (a.toNat * 16 % 64)) = some [a] := by
  have a_lt := a.toNat_lt
  simp only [decodeOne?, value?_symbol (show a.toNat * 16 / 64 < 64 by omega),
    value?_symbol (show a.toNat * 16 % 64 < 64 by omega), Option.bind_eq_bind, Option.bind_some]
  have whole : a.toNat * 16 / 64 * 64 + a.toNat * 16 % 64 = a.toNat * 16 := by omega
  rw [whole, if_pos (by omega), Nat.mul_div_cancel _ (by decide), UInt8.ofNat_toNat]

theorem decodeTwo?_encodeTwo (a b : UInt8) :
    let n := (a.toNat * 256 + b.toNat) * 4
    decodeTwo? (symbol (n / 4096)) (symbol (n / 64 % 64)) (symbol (n % 64)) = some [a, b] := by
  intro n
  have a_lt := a.toNat_lt
  have b_lt := b.toNat_lt
  simp only [decodeTwo?, value?_symbol (show n / 4096 < 64 by omega),
    value?_symbol (show n / 64 % 64 < 64 by omega), value?_symbol (show n % 64 < 64 by omega),
    Option.bind_eq_bind, Option.bind_some]
  have whole : (n / 4096 * 64 + n / 64 % 64) * 64 + n % 64 = n := by omega
  have first : n / 1024 = a.toNat := by omega
  have second : UInt8.ofNat (n / 4) = b := by
    rw [← UInt8.toNat_inj, UInt8.toNat_ofNat']
    omega
  rw [whole, if_pos (by omega), first, second, UInt8.ofNat_toNat]

theorem decodeThree?_encodeThree (a b c : UInt8) :
    let n := (a.toNat * 256 + b.toNat) * 256 + c.toNat
    decodeThree? (symbol (n / 262144)) (symbol (n / 4096 % 64)) (symbol (n / 64 % 64))
      (symbol (n % 64)) = some [a, b, c] := by
  intro n
  have a_lt := a.toNat_lt
  have b_lt := b.toNat_lt
  have c_lt := c.toNat_lt
  simp only [decodeThree?, value?_symbol (show n / 262144 < 64 by omega),
    value?_symbol (show n / 4096 % 64 < 64 by omega),
    value?_symbol (show n / 64 % 64 < 64 by omega), value?_symbol (show n % 64 < 64 by omega),
    Option.bind_eq_bind, Option.bind_some]
  have whole : ((n / 262144 * 64 + n / 4096 % 64) * 64 + n / 64 % 64) * 64 + n % 64 = n := by omega
  have first : n / 65536 = a.toNat := by omega
  have second : UInt8.ofNat (n / 256) = b := by
    rw [← UInt8.toNat_inj, UInt8.toNat_ofNat']
    omega
  have third : UInt8.ofNat n = c := by
    rw [← UInt8.toNat_inj, UInt8.toNat_ofNat']
    omega
  rw [whole, first, second, third, UInt8.ofNat_toNat]

/-- A full group is decoded on its own: it has no padding. -/
theorem decodeList?_encodeThree (a b c : UInt8) (rest : List Char) :
    decodeList? (encodeThree a b c ++ rest) = (decodeList? rest).map ([a, b, c] ++ ·) := by
  have unpadded : symbol (((a.toNat * 256 + b.toNat) * 256 + c.toNat) % 64) ≠ '=' :=
    symbol_ne_padding (Nat.mod_lt _ (by decide))
  rw [encodeThree]
  simp only [List.cons_append, List.nil_append]
  rw [decodeList?.eq_4, decodeThree?_encodeThree]
  · cases decodeList? rest <;> rfl
  · exact fun _ padding _ => unpadded padding
  · exact fun padding _ => unpadded padding

theorem decodeList?_encodeList (bytes : List UInt8) :
    decodeList? (encodeList bytes) = some bytes := by
  fun_induction encodeList bytes with
  | case1 => rfl
  | case2 a =>
    rw [encodeOne, decodeList?]
    exact decodeOne?_encodeOne a
  | case3 a b =>
    have unpadded : symbol ((a.toNat * 256 + b.toNat) * 4 % 64) ≠ '=' :=
      symbol_ne_padding (Nat.mod_lt _ (by decide))
    rw [encodeTwo, decodeList?.eq_3]
    · exact decodeTwo?_encodeTwo a b
    · exact unpadded
  | case4 a b c rest ih =>
    rw [decodeList?_encodeThree, ih]
    rfl

@[simp] theorem decode?_encode (bytes : List UInt8) : decode? (encode bytes) = some bytes := by
  rw [decode?_eq, toList_encode, decodeList?_encodeList]

end RingAgreement.Base64
