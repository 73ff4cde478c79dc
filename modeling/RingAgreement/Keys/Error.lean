import RingAgreement.Text.Quoted
/-!
What can go wrong in the cryptographic operations.
-/

namespace RingAgreement

/-- The operations of a key encapsulation mechanism that can refuse their input. -/
inductive KemOperation where
  | parseEncapsulationKey
  | parseDecapsulationKey
  | decapsulate
deriving DecidableEq, Repr

def KemOperation.name : KemOperation → String
  | .parseEncapsulationKey => "parse encapsulation key"
  | .parseDecapsulationKey => "parse decapsulation key"
  | .decapsulate => "decaps"

/-- Why a key is refused: a coefficient that is not reduced, or a stored hash that is not the
hash of the embedded key. -/
inductive KemFault where
  | coefficientRange
  | keyHash
deriving DecidableEq, Repr

def KemFault.reason : KemFault → String
  | .coefficientRange => "Alg 6: integers out of range"
  | .keyHash => "Encaps hash wrong"

/-- The halves of a key pair. -/
inductive KeyHalf where
  | encapsulation
  | decapsulation
deriving DecidableEq, Repr

def KeyHalf.name : KeyHalf → String
  | .encapsulation => "public key"
  | .decapsulation => "secret key"

/-- The longest name of a party, in bytes. -/
def maxNameBytes : Nat := 20

inductive CryptoError where
  | kem (operation : KemOperation) (fault : KemFault)
  | invalidLength (half : KeyHalf) (expected actual : Nat)
  | invalidPartyId (name : String)
  | wrappedKeyAuthentication
  | messageAuthentication
deriving DecidableEq, Repr

/-- The name of the kind of error. -/
def CryptoError.label : CryptoError → String
  | .kem _ _ => "Kem"
  | .invalidLength _ _ _ => "InvalidLength"
  | .invalidPartyId _ => "InvalidPartyId"
  | .wrappedKeyAuthentication => "WrappedKeyAuthentication"
  | .messageAuthentication => "Aead"

def CryptoError.message : CryptoError → String
  | .kem operation fault => "KEM operation failed: " ++ operation.name ++ ": " ++ fault.reason
  | .invalidLength half expected actual =>
    "invalid " ++ half.name ++ " length: expected " ++ toString expected ++ ", got " ++
      toString actual
  | .invalidPartyId name =>
    "invalid party id " ++ Text.quoted name ++ ": must be 1..=" ++ toString maxNameBytes ++ " bytes"
  | .wrappedKeyAuthentication => "wrapped key authentication failed"
  | .messageAuthentication => "AEAD failure: message authentication failed"

end RingAgreement
