import RingAgreement.Bytes.Basic
import RingAgreement.Keys.Error
/-!
Party identifiers: a name of one to twenty bytes, filled up with zeros.
-/

namespace RingAgreement

structure PartyId where
  bytes : Bytes 20
deriving DecidableEq, Repr, Inhabited

/-- The UTF-8 form of a text. -/
def Text.utf8 (s : String) : List UInt8 := s.toUTF8.data.toList

/-- The text with a given UTF-8 form. -/
def Text.ofUtf8? (bytes : List UInt8) : Option String := String.fromUTF8? ⟨bytes.toArray⟩

namespace PartyId

def ofName (name : String) : Except CryptoError PartyId :=
  let bytes := Text.utf8 name
  if bytes.isEmpty ∨ bytes.length > maxNameBytes then .error (.invalidPartyId name)
  else .ok ⟨.fit 20 bytes⟩

/-- The name up to the first zero. -/
def name (id : PartyId) : String :=
  (Text.ofUtf8? (id.bytes.toList.takeWhile (· ≠ 0))).getD ""

def summary (id : PartyId) : String := "PartyId(" ++ Text.quoted id.name ++ ")"

end PartyId

end RingAgreement
