import RingAgreement.Hash.Sha256
/-!
HMAC-SHA-256 (RFC 2104) and the key derivation HKDF-SHA-256 (RFC 5869).
-/

namespace RingAgreement

/-- The HMAC key as a whole block: hashed first if it is longer than one. -/
def Hmac.blockKey (key : List UInt8) : Bytes 64 :=
  if key.length ≤ 64 then .fit 64 key else .fit 64 (Sha256.hash key).toList

/-- The authentication tag of a message. -/
def Hmac.tag (key message : List UInt8) : Bytes 32 :=
  let block := Hmac.blockKey key
  let inner := (block ^^^ .replicate 64 0x36).toList
  let outer := (block ^^^ .replicate 64 0x5c).toList
  Sha256.hash (outer ++ (Sha256.hash (inner ++ message)).toList)

namespace Hkdf

/-- The pseudorandom key drawn from input key material; an empty salt is a block of zeros. -/
def extract (salt material : List UInt8) : Bytes 32 := Hmac.tag salt material

/-- Output blocks numbered from `index`, each depending on the one before. -/
def outputBlocks (prk info : List UInt8) : Nat → UInt8 → List UInt8 → List UInt8
  | 0, _, _ => []
  | blocks + 1, index, previous =>
    let block := (Hmac.tag prk (previous ++ info ++ [index])).toList
    block ++ outputBlocks prk info blocks (index + 1) block

/-- `width` bytes of output key material for a purpose `info`. -/
def expand (prk : Bytes 32) (info : List UInt8) (width : Nat) : Bytes width :=
  .fit width (outputBlocks prk.toList info ((width + 31) / 32) 1 [])

/-- Extraction followed by expansion. -/
def derive (salt material info : List UInt8) (width : Nat) : Bytes width :=
  expand (extract salt material) info width

end Hkdf

end RingAgreement
