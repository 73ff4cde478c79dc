import RingAgreement.Bytes.Basic
/-!
Base64 with the standard alphabet and padding (RFC 4648). Decoding accepts exactly the encodings:
padding is required, unused bits must be zero, and there are no blanks. `encodeList` and
`decodeList?` say what the codec does; `encode` and `decode?` do it with an accumulator, so that
long contents need no deep recursion.
-/

namespace RingAgreement.Base64

/-- The character for a value below 64. -/
def symbol (n : Nat) : Char :=
  if n < 26 then Char.ofNat (65 + n)
  else if n < 52 then Char.ofNat (71 + n)
  else if n < 62 then Char.ofNat (n - 4)
  else if n = 62 then '+' else '/'

/-- The value of a character of the alphabet. -/
def value? (c : Char) : Option Nat :=
  if 'A' ≤ c ∧ c ≤ 'Z' then some (c.toNat - 65)
  else if 'a' ≤ c ∧ c ≤ 'z' then some (c.toNat - 71)
  else if '0' ≤ c ∧ c ≤ '9' then some (c.toNat + 4)
  else if c = '+' then some 62
  else if c = '/' then some 63
  else none

/-- The characters for one last byte. -/
def encodeOne (a : UInt8) : List Char :=
  let n := a.toNat * 16
  [symbol (n / 64), symbol (n % 64), '=', '=']

/-- The characters for two last bytes. -/
def encodeTwo (a b : UInt8) : List Char :=
  let n := (a.toNat * 256 + b.toNat) * 4
  [symbol (n / 4096), symbol (n / 64 % 64), symbol (n % 64), '=']

/-- The characters for three bytes. -/
def encodeThree (a b c : UInt8) : List Char :=
  let n := (a.toNat * 256 + b.toNat) * 256 + c.toNat
  [symbol (n / 262144), symbol (n / 4096 % 64), symbol (n / 64 % 64), symbol (n % 64)]

def encodeList : List UInt8 → List Char
  | [] => []
  | [a] => encodeOne a
  | [a, b] => encodeTwo a b
  | a :: b :: c :: rest => encodeThree a b c ++ encodeList rest

/-- The byte in a last group of two characters. -/
def decodeOne? (a b : Char) : Option (List UInt8) := do
  let n := (← value? a) * 64 + (← value? b)
  if n % 16 = 0 then some [UInt8.ofNat (n / 16)] else none

/-- The two bytes in a last group of three characters. -/
def decodeTwo? (a b c : Char) : Option (List UInt8) := do
  let n := ((← value? a) * 64 + (← value? b)) * 64 + (← value? c)
  if n % 4 = 0 then some [UInt8.ofNat (n / 1024), UInt8.ofNat (n / 4)] else none

/-- The three bytes in a full group. -/
def decodeThree? (a b c d : Char) : Option (List UInt8) := do
  let n := (((← value? a) * 64 + (← value? b)) * 64 + (← value? c)) * 64 + (← value? d)
  some [UInt8.ofNat (n / 65536), UInt8.ofNat (n / 256), UInt8.ofNat n]

def decodeList? : List Char → Option (List UInt8)
  | [] => some []
  | [a, b, '=', '='] => decodeOne? a b
  | [a, b, c, '='] => decodeTwo? a b c
  | a :: b :: c :: d :: rest => do
    let bytes ← decodeThree? a b c d
    return bytes ++ (← decodeList? rest)
  | _ => none

/-- Puts the encoding behind characters collected in reverse. -/
def encodeOnto (collected : List Char) : List UInt8 → List Char
  | [] => collected.reverse
  | [a] => collected.reverse ++ encodeOne a
  | [a, b] => collected.reverse ++ encodeTwo a b
  | a :: b :: c :: rest => encodeOnto ((encodeThree a b c).reverse ++ collected) rest

/-- Puts the decoded bytes behind bytes collected in reverse. -/
def decodeOnto? (collected : List UInt8) : List Char → Option (List UInt8)
  | [] => some collected.reverse
  | [a, b, '=', '='] => (decodeOne? a b).map (collected.reverse ++ ·)
  | [a, b, c, '='] => (decodeTwo? a b c).map (collected.reverse ++ ·)
  | a :: b :: c :: d :: rest =>
    match decodeThree? a b c d with
    | some bytes => decodeOnto? (bytes.reverse ++ collected) rest
    | none => none
  | _ => none

/-- The text for a byte string. -/
def encode (bytes : List UInt8) : String := String.ofList (encodeOnto [] bytes)

/-- The byte string a text stands for. -/
def decode? (text : String) : Option (List UInt8) := decodeOnto? [] text.toList

theorem encodeOnto_eq (collected : List Char) (bytes : List UInt8) :
    encodeOnto collected bytes = collected.reverse ++ encodeList bytes := by
  fun_induction encodeOnto collected bytes <;> simp_all [encodeList]

theorem decodeOnto?_eq (collected : List UInt8) (text : List Char) :
    decodeOnto? collected text = (decodeList? text).map (collected.reverse ++ ·) := by
  fun_induction decodeOnto? collected text with
  | case1 => simp [decodeList?]
  | case2 => simp [decodeList?]
  | case3 => simp_all [decodeList?]
  | case4 collected a b c d rest _ _ bytes h ih =>
    rw [ih, decodeList?.eq_4 _ _ _ _ _ (by assumption) (by assumption), h]
    cases decodeList? rest <;> simp
  | case5 collected a b c d rest _ _ h =>
    rw [decodeList?.eq_4 _ _ _ _ _ (by assumption) (by assumption), h]
    rfl
  | case6 =>
    rw [decodeList?.eq_5] <;> first | rfl | assumption

theorem toList_encode (bytes : List UInt8) : (encode bytes).toList = encodeList bytes := by
  simp [encode, encodeOnto_eq]

theorem decode?_eq (text : String) : decode? text = decodeList? text.toList := by
  simp [decode?, decodeOnto?_eq]

end RingAgreement.Base64
