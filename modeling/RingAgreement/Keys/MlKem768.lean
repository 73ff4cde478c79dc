import RingAgreement.Keys.Kem
import RingAgreement.MlKem.Scheme
/-!
ML-KEM-768 as the key encapsulation mechanism of the protocol. Keys are read anew by every
operation, which refuses coefficients that are not reduced.
-/

namespace RingAgreement.Kem

/-- Refuses a key whose leading polynomials are not reduced. -/
def checkReduced (operation : KemOperation) (key : List UInt8) : Except CryptoError Unit :=
  if MlKem.isReduced key then .ok () else .error (.kem operation .coefficientRange)

/-- The checks on a decapsulation key before it is used: the embedded key is reduced, and the
stored hash is its hash. -/
def checkSecretKey (key : SecretKey) : Except CryptoError Unit := do
  checkReduced .parseDecapsulationKey (MlKem.embeddedKey key.bytes)
  if (Keccak.sha3_256 (MlKem.embeddedKey key.bytes)).toList = MlKem.embeddedHash key.bytes then
    .ok ()
  else .error (.kem .parseDecapsulationKey .keyHash)

def mlKem768 : Kem where
  generate d z :=
    let (ek, dk) := MlKem.generate d z
    ⟨⟨ek⟩, ⟨dk⟩⟩
  encapsulate key message := do
    checkReduced .parseEncapsulationKey key.bytes.toList
    let (secret, ciphertext) := MlKem.encapsulate key.bytes message
    return (⟨secret⟩, ⟨ciphertext⟩)
  decapsulate key ciphertext := do
    checkSecretKey key
    checkReduced .decapsulate key.bytes.toList
    return ⟨MlKem.decapsulate key.bytes ciphertext.bytes⟩

end RingAgreement.Kem
