import RingAgreement.Bytes.Order
/-!
The one-time authenticator Poly1305 (RFC 8439): the message is a polynomial over the integers
modulo 2^130 - 5, evaluated at a clamped secret point.
-/

namespace RingAgreement.Poly1305

def modulus : Nat := (1 <<< 130) - 5

/-- The evaluation point: some bits of the first key half are cleared. -/
def clamp (bytes : List UInt8) : Nat :=
  Bytes.ofLittleEndian bytes &&& 0x0ffffffc0ffffffc0ffffffc0fffffff

/-- The accumulator after a message, taken in blocks of up to sixteen bytes, each with a one
byte added at its end. -/
def accumulate (point : Nat) : Nat → List UInt8 → Nat → Nat
  | 0, _, acc => acc
  | blocks + 1, message, acc =>
    let value := Bytes.ofLittleEndian (message.take 16 ++ [1])
    accumulate point blocks (message.drop 16) ((acc + value) * point % modulus)

/-- The tag of a message under a one-time key. -/
def tag (key : Bytes 32) (message : List UInt8) : Bytes 16 :=
  let point := clamp (key.take 16).toList
  let blocks := (message.length + 15) / 16
  .littleEndian 16 (accumulate point blocks message 0 + Bytes.ofLittleEndian (key.drop 16).toList)

end RingAgreement.Poly1305
