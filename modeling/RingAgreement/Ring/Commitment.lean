import RingAgreement.Cipher.Aead
import RingAgreement.Keys.Kem
/-!
Commitments to shares. A coin fixes all randomness of an encryption to the committer's own public
key; whoever is shown the coin can repeat the encryption and compare.
-/

namespace RingAgreement

/-- Randomness of one commitment: a seed for the encapsulation and a nonce. -/
structure Coin where
  bytes : Bytes 44
deriving DecidableEq, Repr, Inhabited

namespace Coin

def seed (coin : Coin) : Bytes 32 := coin.bytes.take 32

def nonce (coin : Coin) : Bytes 12 := coin.bytes.drop 32

def summary (coin : Coin) : String := "Coin(" ++ Hex.abbreviated coin.bytes.toList ++ "..)"

end Coin

structure Commitment where
  kemCiphertext : Ciphertext
  demCiphertext : Bytes 36
  tag : Bytes 16
deriving DecidableEq, Repr

namespace Commitment

/-- The associated data of the symmetric part. -/
def label : List UInt8 := "lockringCommitV1".toUTF8.data.toList

/-- The commitment to a message under a public key. -/
def make (K : Kem) (key : PublicKey) (message : Bytes 36) (coin : Coin) :
    Except CryptoError Commitment := do
  let (secret, kemCiphertext) ← (K.encapsulateFrom key (.ofSeed coin.seed)).1
  let (text, tag) := Aead.encrypt secret.bytes coin.nonce label message.toList
  return ⟨kemCiphertext, .fit 36 text, tag⟩

end Commitment

end RingAgreement
