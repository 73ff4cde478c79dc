import RingAgreement.Hash.Hmac
import RingAgreement.Keys.Kem
/-!
The authenticated key exchange between neighbours. The initiator sends a fresh public key and a
secret for the responder's long-term key; the responder answers with secrets for the fresh key
and for the initiator's long-term key. Both derive the shared secret from all three.
-/

namespace RingAgreement.Handshake

/-- The first message. -/
structure Offer where
  ephemeralKey : PublicKey
  ciphertext : Ciphertext
deriving DecidableEq, Repr

/-- The answer to an offer. -/
structure Response where
  ephemeralCiphertext : Ciphertext
  staticCiphertext : Ciphertext
deriving DecidableEq, Repr

/-- What the initiator keeps until the answer arrives. -/
structure Transcript where
  encapsulated : SharedSecret
  ephemeralSecret : SecretKey
deriving DecidableEq, Repr

def Transcript.summary (_ : Transcript) : String := "AkeTranscript(..)"

/-- The purpose that binds the derived secret to this protocol. -/
def label : List UInt8 := "lockringAkeV1".toUTF8.data.toList

/-- The secret derived from the three encapsulated ones. -/
def combine (k1 k2 k3 : SharedSecret) : SharedSecret :=
  ⟨Hkdf.derive [] (k1.bytes.toList ++ k2.bytes.toList ++ k3.bytes.toList) label 32⟩

variable (K : Kem)

/-- Opens an exchange with a peer. -/
def initiate (peer : PublicKey) (seed : Bytes 32) : Except CryptoError (Offer × Transcript) := do
  let (ephemeral, source) := K.generateFrom (.ofSeed seed)
  let (k1, ciphertext) ← (K.encapsulateFrom peer source).1
  return (⟨ephemeral.publicKey, ciphertext⟩, ⟨k1, ephemeral.secretKey⟩)

/-- Answers an offer of a peer. -/
def respond (offer : Offer) (own : SecretKey) (peer : PublicKey) (seed : Bytes 32) :
    Except CryptoError (Response × SharedSecret) := do
  let (forEphemeral, source) := K.encapsulateFrom offer.ephemeralKey (.ofSeed seed)
  let (k2, ephemeralCiphertext) ← forEphemeral
  let (k3, staticCiphertext) ← (K.encapsulateFrom peer source).1
  let k1 ← K.decapsulate own offer.ciphertext
  return (⟨ephemeralCiphertext, staticCiphertext⟩, combine k1 k2 k3)

/-- Derives the initiator's copy of the secret from the answer. -/
def finalize (response : Response) (transcript : Transcript) (own : SecretKey) :
    Except CryptoError SharedSecret := do
  let k2 ← K.decapsulate transcript.ephemeralSecret response.ephemeralCiphertext
  let k3 ← K.decapsulate own response.staticCiphertext
  return combine transcript.encapsulated k2 k3

end RingAgreement.Handshake
