import RingAgreement.Bytes.Order
import RingAgreement.MlKem.Ring
/-!
Byte encodings of polynomials in ML-KEM, the lossy compression of their coefficients, and the
samplers that turn pseudorandom bytes into polynomials.
-/

namespace RingAgreement.MlKem.Poly

/-- Consecutive groups of `size` elements; the `count` first ones. -/
def groups {α : Type} (size : Nat) : Nat → List α → List (List α)
  | 0, _ => []
  | count + 1, l => l.take size :: groups size count (l.drop size)

/-- The number with the given digits in base `base`, lowest first. -/
def ofDigits (base : Nat) (digits : List Nat) : Nat :=
  digits.foldr (fun d n => d + base * n) 0

/-- The `count` lowest digits of a number in base `base`. -/
def digits (base : Nat) : Nat → Nat → List Nat
  | 0, _ => []
  | count + 1, n => n % base :: digits base count (n / base)

/-- How many `bits`-bit numbers fill whole bytes together. -/
def groupSize (bits : Nat) : Nat := 8 / Nat.gcd bits 8

/-- 256 numbers of `bits` bits each, packed from the lowest bit up. -/
def encode (bits : Nat) (f : Poly) : List UInt8 :=
  let size := groupSize bits
  (groups size (256 / size) f).flatMap fun group =>
    Bytes.littleEndianList (size * bits / 8) (ofDigits (1 <<< bits) group)

/-- The 256 numbers of `bits` bits in a byte string. -/
def decode (bits : Nat) (bytes : List UInt8) : List Nat :=
  let size := groupSize bits
  (groups (size * bits / 8) (256 / size) bytes).flatMap fun group =>
    digits (1 <<< bits) size (Bytes.ofLittleEndian group)

/-- The nearest multiple of `q / 2 ^ bits`. -/
def compress (bits : Nat) (f : Poly) : List Nat :=
  f.map fun x => (x * (1 <<< bits) + q / 2) / q % (1 <<< bits)

/-- The multiples of `q / 2 ^ bits` with the given numbers, rounded up. -/
def decompress (bits : Nat) (values : List Nat) : Poly :=
  values.map fun y => (y * q + (1 <<< bits) - 1) / (1 <<< bits)

/-- A polynomial with small coefficients: differences of two sums of two bits, one byte for two
coefficients. -/
def small (bytes : List UInt8) : Poly :=
  bytes.flatMap fun byte =>
    let bit (i : Nat) : Nat := (byte.toNat >>> i) % 2
    [(bit 0 + bit 1 + q - bit 2 - bit 3) % q, (bit 4 + bit 5 + q - bit 6 - bit 7) % q]

/-- The 12-bit numbers below `q` in a byte string. -/
def candidates : List UInt8 → List Nat
  | a :: b :: c :: rest =>
    let d1 := a.toNat + 256 * (b.toNat % 16)
    let d2 := b.toNat / 16 + 16 * c.toNat
    let later := candidates rest
    if d1 < q then
      if d2 < q then d1 :: d2 :: later else d1 :: later
    else if d2 < q then d2 :: later else later
  | _ => []

end RingAgreement.MlKem.Poly
