import RingAgreement.Wire.Kind
/-!
Why a message cannot be read or written.
-/

namespace RingAgreement

inductive WireError where
  | json
  | base64
  | unknownKind (code : Int)
  | missingRecipient (kind : MessageKind)
  | invalidIndex (index : Int)
  | payloadLength (schema : String) (expected actual : Nat)
  | fieldLength (field : String) (expected actual : Nat)
  | fieldCount (schema : String) (expected actual : Nat)
  | tooLarge (size max : Nat)
deriving DecidableEq, Repr

/-- The name of the kind of error. -/
def WireError.label : WireError → String
  | json => "Json"
  | base64 => "Base64"
  | unknownKind _ => "UnknownKind"
  | missingRecipient _ => "MissingRecipient"
  | invalidIndex _ => "InvalidIndex"
  | payloadLength _ _ _ => "PayloadLength"
  | fieldLength _ _ _ => "FieldLength"
  | fieldCount _ _ _ => "FieldCount"
  | tooLarge _ _ => "TooLarge"

def WireError.message : WireError → String
  | json => "malformed envelope JSON"
  | base64 => "invalid base64 content"
  | unknownKind code => "unknown message type " ++ toString code
  | missingRecipient kind => kind.name ++ " requires a receiver index"
  | invalidIndex index => "invalid party index " ++ toString index
  | payloadLength schema expected actual =>
    "payload for " ++ schema ++ " must be " ++ toString expected ++ " bytes, got " ++ toString actual
  | fieldLength field expected actual =>
    "field \x60" ++ field ++ "\x60 must be " ++ toString expected ++ " bytes, got " ++
      toString actual
  | fieldCount schema expected actual =>
    "schema " ++ schema ++ " has " ++ toString expected ++ " fields, got " ++ toString actual
  | tooLarge size max =>
    "message of " ++ toString size ++ " bytes exceeds limit of " ++ toString max

end RingAgreement
