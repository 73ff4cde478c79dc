import RingAgreement.Cluster.SealedMessage
import RingAgreement.Cluster.WrappedKey
import RingAgreement.Ring.Commitment
import RingAgreement.Ring.Handshake
import RingAgreement.Ring.Share
import RingAgreement.Wire.Envelope
import RingAgreement.Wire.Schema
/-!
Payloads of the five message kinds and their byte layouts.
-/

namespace RingAgreement

/-- A share with the commitment to it and the coin that opens the commitment. -/
structure Contribution where
  share : Share
  commitment : Commitment
  coin : Coin
deriving DecidableEq, Repr

inductive Payload where
  | akeInit (offer : Handshake.Offer)
  | akeRespond (response : Handshake.Response)
  | shareBroadcast (contribution : Contribution)
  | wrappedKey (wrapped : WrappedKey)
  | appMessage (message : SealedMessage)
deriving DecidableEq, Repr

def MessageKind.schema : MessageKind → Schema
  | akeInit => ⟨"AKE_INIT", [⟨"ephemeral_key", publicKeySize⟩, ⟨"ciphertext", ciphertextSize⟩], none⟩
  | akeRespond =>
    ⟨"AKE_RESPOND",
      [⟨"ephemeral_ciphertext", ciphertextSize⟩, ⟨"static_ciphertext", ciphertextSize⟩], none⟩
  | shareBroadcast =>
    ⟨"SHARE_BROADCAST",
      [⟨"share", 32⟩, ⟨"kem_ciphertext", ciphertextSize⟩, ⟨"dem_ciphertext", 36⟩, ⟨"tag", 16⟩,
        ⟨"coin", 44⟩], none⟩
  | wrappedKey => ⟨"WRAPPED_KEY", [⟨"masked_key", 32⟩, ⟨"tag", 32⟩], none⟩
  | appMessage => ⟨"APP_MESSAGE", [⟨"nonce", 24⟩], some "ciphertext"⟩

namespace Payload

def kind : Payload → MessageKind
  | akeInit _ => .akeInit
  | akeRespond _ => .akeRespond
  | shareBroadcast _ => .shareBroadcast
  | wrappedKey _ => .wrappedKey
  | appMessage _ => .appMessage

/-- The parts of a payload, in the order of its schema. -/
def parts : Payload → List (List UInt8)
  | akeInit m => [m.ephemeralKey.bytes.toList, m.ciphertext.bytes.toList]
  | akeRespond m => [m.ephemeralCiphertext.bytes.toList, m.staticCiphertext.bytes.toList]
  | shareBroadcast m =>
    [m.share.bytes.toList, m.commitment.kemCiphertext.bytes.toList,
      m.commitment.demCiphertext.toList, m.commitment.tag.toList, m.coin.bytes.toList]
  | wrappedKey m => [m.maskedKey.toList, m.tag.toList]
  | appMessage m => [m.nonce.toList, m.ciphertext]

/-- The bytes of a payload; its parts always have the widths that the schema asks for. -/
def encode (p : Payload) : List UInt8 := p.parts.flatten

theorem join_parts (p : Payload) : p.kind.schema.join p.parts = .ok p.encode := by
  cases p <;> simp [kind, MessageKind.schema, parts, encode, Schema.join, Schema.partCount,
    Schema.firstMismatch, Bytes.length_toList]

/-- A part of a field's width. -/
def field (name : String) (width : Nat) (part : List UInt8) : Except WireError (Bytes width) :=
  match Bytes.ofList? width part with
  | some bytes => .ok bytes
  | none => .error (.fieldLength name width part.length)

/-- The payload with the given parts. An application message is not shorter than its tag. -/
def ofParts (kind : MessageKind) (parts : List (List UInt8)) : Except WireError Payload :=
  match kind, parts with
  | .akeInit, [key, ciphertext] => do
    return .akeInit ⟨⟨← field "ephemeral_key" _ key⟩, ⟨← field "ciphertext" _ ciphertext⟩⟩
  | .akeRespond, [forEphemeral, forStatic] => do
    return .akeRespond
      ⟨⟨← field "ephemeral_ciphertext" _ forEphemeral⟩, ⟨← field "static_ciphertext" _ forStatic⟩⟩
  | .shareBroadcast, [share, kem, dem, tag, coin] => do
    return .shareBroadcast
      ⟨⟨← field "share" _ share⟩,
        ⟨⟨← field "kem_ciphertext" _ kem⟩, ← field "dem_ciphertext" _ dem, ← field "tag" _ tag⟩,
        ⟨← field "coin" _ coin⟩⟩
  | .wrappedKey, [masked, tag] => do
    return .wrappedKey ⟨← field "masked_key" _ masked, ← field "tag" _ tag⟩
  | .appMessage, [nonce, ciphertext] => do
    if ciphertext.length < tagSize then
      .error (.payloadLength kind.schema.name (kind.schema.fixedLength + tagSize)
        (nonce.length + ciphertext.length))
    return .appMessage ⟨← field "nonce" _ nonce, ciphertext⟩
  | kind, parts => .error (.fieldCount kind.schema.name kind.schema.partCount parts.length)

def decode (kind : MessageKind) (bytes : List UInt8) : Except WireError Payload := do
  ofParts kind (← kind.schema.split bytes)

/-- The envelope that carries a payload. -/
def toEnvelope (p : Payload) (sender : UInt32) (recipient : Recipient) : Envelope :=
  ⟨sender, recipient, p.kind, p.encode⟩

def ofEnvelope (e : Envelope) : Except WireError Payload := decode e.kind e.content

end Payload

end RingAgreement
