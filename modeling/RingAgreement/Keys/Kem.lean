import RingAgreement.Keys.Basic
import RingAgreement.Random.Stream
/-!
Key encapsulation mechanisms, as the protocol uses them. Everything above is written for any
mechanism, so its theorems can name what they need of one.
-/

namespace RingAgreement

/-- A key encapsulation mechanism. Key generation takes two seeds and encapsulation one random
message; both keys are checked when they are used. -/
structure Kem where
  generate : Bytes 32 → Bytes 32 → Keypair
  encapsulate : PublicKey → Bytes 32 → Except CryptoError (SharedSecret × Ciphertext)
  decapsulate : SecretKey → Ciphertext → Except CryptoError SharedSecret

namespace Kem

/-- Generated keys are accepted, and what is encapsulated for one comes out again. -/
def Correct (K : Kem) : Prop :=
  ∀ d z message : Bytes 32, ∃ secret ciphertext,
    K.encapsulate (K.generate d z).publicKey message = .ok (secret, ciphertext) ∧
      K.decapsulate (K.generate d z).secretKey ciphertext = .ok secret

/-- A key pair from a generator. -/
def generateFrom (K : Kem) (source : StreamSource) : Keypair × StreamSource :=
  let (d, source) := source.draw 32
  let (z, source) := source.draw 32
  (K.generate d z, source)

/-- The key pair of a seed. -/
def keypair (K : Kem) (seed : Bytes 32) : Keypair := (K.generateFrom (.ofSeed seed)).1

/-- A secret for the owner of a key, with randomness from a generator. -/
def encapsulateFrom (K : Kem) (key : PublicKey) (source : StreamSource) :
    Except CryptoError (SharedSecret × Ciphertext) × StreamSource :=
  let (message, source) := source.draw 32
  (K.encapsulate key message, source)

end Kem

end RingAgreement
