import RingAgreement.Cipher.Aead
import RingAgreement.Keys.Basic
/-!
Application messages, encrypted under the key of a cluster and bound to their sender.
-/

namespace RingAgreement

/-- The key for the application messages of a cluster. -/
structure ClusterKey where
  bytes : Bytes 32
deriving DecidableEq, Repr, Inhabited

def ClusterKey.summary (_ : ClusterKey) : String := "ClusterKey(..)"

/-- The width of an authentication tag. -/
def tagSize : Nat := 16

/-- A nonce and a ciphertext that ends with its tag. -/
structure SealedMessage where
  nonce : Bytes 24
  ciphertext : List UInt8
deriving DecidableEq, Repr

namespace SealedMessage

/-- The associated data that names the sender. -/
def senderData (sender : UInt32) : List UInt8 := Bytes.ofWord32BE sender

/-- The message of a sender. -/
def make (key : ClusterKey) (sender : UInt32) (plaintext : List UInt8) (nonce : Bytes 24) :
    SealedMessage :=
  let (subkey, short) := Aead.extended key.bytes nonce
  let (text, tag) := Aead.encrypt subkey short (senderData sender) plaintext
  ⟨nonce, text ++ tag.toList⟩

/-- The plaintext, if the message was made by this sender under this key. -/
def openWith (key : ClusterKey) (sender : UInt32) (message : SealedMessage) :
    Except CryptoError (List UInt8) :=
  let (subkey, short) := Aead.extended key.bytes message.nonce
  let split := message.ciphertext.length - tagSize
  let decrypted := do
    let tag ← Bytes.ofList? 16 (message.ciphertext.drop split)
    Aead.decrypt? subkey short (senderData sender) (message.ciphertext.take split) tag
  match decrypted with
  | some plaintext => .ok plaintext
  | none => .error .messageAuthentication

end SealedMessage

end RingAgreement
