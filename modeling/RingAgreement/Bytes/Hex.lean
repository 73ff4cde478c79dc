/-!
Hexadecimal text of byte strings, two lower-case digits per byte.
-/

namespace RingAgreement.Hex

/-- The lower-case digit for a value below sixteen. -/
def digit (n : UInt8) : Char :=
  if n < 10 then Char.ofNat (48 + n.toNat) else Char.ofNat (87 + n.toNat)

def encodeByte (b : UInt8) : List Char := [digit (b >>> 4), digit (b &&& 15)]

def encode (bytes : List UInt8) : String := String.ofList (bytes.flatMap encodeByte)

/-- The value of a digit; other characters count as zero. -/
def value (c : Char) : UInt8 :=
  if '0' ≤ c ∧ c ≤ '9' then .ofNat (c.toNat - 48)
  else if 'a' ≤ c ∧ c ≤ 'f' then .ofNat (c.toNat - 87)
  else 0

/-- Puts the bytes that pairs of digits stand for behind bytes collected in reverse. -/
def decodeOnto (collected : List UInt8) : List Char → List UInt8
  | a :: b :: rest => decodeOnto ((value a * 16 + value b) :: collected) rest
  | _ => collected.reverse

/-- The byte string of a text of lower-case digits. -/
def decode (text : String) : List UInt8 := decodeOnto [] text.toList

/-- The first four bytes as a list of two-digit numbers, the way secrets and large keys are
abbreviated in diagnostics. -/
def abbreviated (bytes : List UInt8) : String :=
  "[" ++ ", ".intercalate ((bytes.take 4).map fun b => String.ofList (encodeByte b)) ++ "]"

end RingAgreement.Hex
