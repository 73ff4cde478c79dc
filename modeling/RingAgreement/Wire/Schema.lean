import RingAgreement.Wire.Error
/-!
Layouts of payloads: fields of fixed width, one behind the other, and possibly a last part of any
length.
-/

namespace RingAgreement

structure Field where
  name : String
  width : Nat
deriving DecidableEq, Repr

structure Schema where
  name : String
  fields : List Field
  tail : Option String
deriving DecidableEq, Repr

namespace Schema

/-- The bytes of all fields of fixed width. -/
def fixedLength (s : Schema) : Nat := s.fields.foldr (fun field length => field.width + length) 0

def partCount (s : Schema) : Nat := s.fields.length + if s.tail.isSome then 1 else 0

/-- Cuts off parts of the given widths; the rest comes last. -/
def cut : List Field → List UInt8 → List (List UInt8) × List UInt8
  | [], rest => ([], rest)
  | field :: fields, bytes =>
    let (parts, rest) := cut fields (bytes.drop field.width)
    (bytes.take field.width :: parts, rest)

/-- Whether a payload can have a length. -/
def allows (s : Schema) (length : Nat) : Bool :=
  if s.tail.isSome then s.fixedLength ≤ length else length = s.fixedLength

/-- The parts of a payload. -/
def split (s : Schema) (bytes : List UInt8) : Except WireError (List (List UInt8)) :=
  if s.allows bytes.length then
    let (parts, rest) := cut s.fields bytes
    .ok (if s.tail.isSome then parts ++ [rest] else parts)
  else .error (.payloadLength s.name s.fixedLength bytes.length)

/-- The first field whose part does not have its width. -/
def firstMismatch : List Field → List (List UInt8) → Option WireError
  | field :: fields, part :: parts =>
    if part.length = field.width then firstMismatch fields parts
    else some (.fieldLength field.name field.width part.length)
  | _, _ => none

/-- The payload with the given parts. -/
def join (s : Schema) (parts : List (List UInt8)) : Except WireError (List UInt8) :=
  if parts.length ≠ s.partCount then .error (.fieldCount s.name s.partCount parts.length)
  else
    match firstMismatch s.fields parts with
    | some error => .error error
    | none => .ok parts.flatten

end Schema

end RingAgreement
