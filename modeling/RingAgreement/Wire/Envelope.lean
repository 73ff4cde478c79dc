import RingAgreement.Base64
import RingAgreement.Json.Print
import RingAgreement.Text.Blank
import RingAgreement.Wire.Error
/-!
Envelopes: a payload with its sender, recipient and kind. On the wire an envelope is one line of
JSON; index -1 or no index stands for every party.
-/

namespace RingAgreement

structure Envelope where
  sender : UInt32
  recipient : Recipient
  kind : MessageKind
  content : List UInt8
deriving DecidableEq, Repr

namespace Envelope

/-- The longest line, in bytes, with its line end. -/
def maxLineSize : Nat := 256 * 1024

def fieldNames : List String := ["senderIndex", "receiverIndex", "type", "content"]

def recipientIndex : Recipient → Int
  | .everyone => -1
  | .party index => index.toNat

def toDocument (e : Envelope) : Json :=
  .object
    [(some "senderIndex", .ofInt e.sender.toNat),
      (some "receiverIndex", .ofInt (recipientIndex e.recipient)),
      (some "type", .ofInt e.kind.code),
      (some "content", .text (some (Base64.encode e.content)))]

def toJson (e : Envelope) : String := String.ofList e.toDocument.compact

/-- The line for an envelope, if it is not too long. -/
def toLine (e : Envelope) : Except WireError String :=
  let line := e.toJson ++ "\n"
  if line.utf8ByteSize > maxLineSize then .error (.tooLarge line.utf8ByteSize maxLineSize)
  else .ok line

/-- A party index. -/
def index (n : Int) : Except WireError UInt32 :=
  if 0 ≤ n ∧ n < UInt32.size then .ok (.ofNat n.toNat) else .error (.invalidIndex n)

def recipientOf : Option Int → Except WireError Recipient
  | none => .ok .everyone
  | some n => if n = -1 then .ok .everyone else .party <$> index n

/-- The fields of the document: sender, recipient, kind and content, each as written. -/
structure Fields where
  sender : Int
  receiver : Option Int
  kind : Int
  content : String

def fields? (document : Json) : Option Fields := do
  match ← document.fields? fieldNames with
  | [some sender, receiver, some kind, some content] =>
    let receiver ← match receiver with
      | none | some .null => some none
      | some n => n.integer?.map some
    return ⟨← sender.integer?, receiver, ← kind.integer?, ← content.text?⟩
  | _ => none

/-- Checks what the fields say, in the order of the document. -/
def ofFields (f : Fields) : Except WireError Envelope := do
  let sender ← index f.sender
  let recipient ← recipientOf f.receiver
  let some kind := MessageKind.ofCode? f.kind | .error (.unknownKind f.kind)
  if kind.requiresRecipient ∧ recipient = .everyone then .error (.missingRecipient kind)
  let some content := Base64.decode? f.content | .error .base64
  return ⟨sender, recipient, kind, content⟩

/-- Reads an envelope; blanks around the document do not count. -/
def ofJson (input : String) : Except WireError Envelope := do
  if input.utf8ByteSize > maxLineSize then .error (.tooLarge input.utf8ByteSize maxLineSize)
  match Json.parse? (Text.trimmed input.toList) >>= fields? with
  | some f => ofFields f
  | none => .error .json

end Envelope

end RingAgreement
