import RingAgreement.Bytes.Hex
import RingAgreement.Hash.Sha512
import RingAgreement.Keys.Basic
import RingAgreement.Ring.PartyId
/-!
The key of a ring, derived from all left keys and all party identifiers in ring order.
-/

namespace RingAgreement

/-- A symmetric key and the identifier of the run that made it. -/
structure GroupKey where
  key : Bytes 32
  sessionId : Bytes 32
deriving DecidableEq, Repr, Inhabited

namespace GroupKey

/-- The string that is hashed: all left keys, then all identifiers. -/
def transcript (leftKeys : List SharedSecret) (ids : List PartyId) : List UInt8 :=
  leftKeys.flatMap (·.bytes.toList) ++ ids.flatMap (·.bytes.toList)

/-- The first half of the hash is the key, the second the identifier. -/
def derive (leftKeys : List SharedSecret) (ids : List PartyId) : GroupKey :=
  let digest := Sha512.hash (transcript leftKeys ids)
  ⟨digest.halves.1, digest.halves.2⟩

/-- A short head of the identifier, which may be shown. -/
def fingerprint (key : GroupKey) : String := Hex.encode (key.sessionId.toList.take 6)

def summary (key : GroupKey) : String := "GroupKey(session " ++ key.fingerprint ++ ")"

end GroupKey

end RingAgreement
