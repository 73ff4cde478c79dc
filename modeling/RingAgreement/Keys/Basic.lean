import RingAgreement.Bytes.Hex
import RingAgreement.Bytes.Basic
import RingAgreement.Keys.Error
/-!
Keys and secrets of a party. Texts for diagnostics show the head of public values and nothing of
secret ones.
-/

namespace RingAgreement

def publicKeySize : Nat := 1184

def secretKeySize : Nat := 2400

def ciphertextSize : Nat := 1088

/-- An encapsulation key. -/
structure PublicKey where
  bytes : Bytes publicKeySize
deriving DecidableEq, Repr, Inhabited

/-- A decapsulation key. -/
structure SecretKey where
  bytes : Bytes secretKeySize
deriving DecidableEq, Repr, Inhabited

/-- An encapsulated secret. -/
structure Ciphertext where
  bytes : Bytes ciphertextSize
deriving DecidableEq, Repr, Inhabited

/-- A secret shared with one neighbour in a ring. -/
structure SharedSecret where
  bytes : Bytes 32
deriving DecidableEq, Repr, Inhabited

/-- A long-term key pair. -/
structure Keypair where
  publicKey : PublicKey
  secretKey : SecretKey
deriving DecidableEq, Repr, Inhabited

def PublicKey.ofList (bytes : List UInt8) : Except CryptoError PublicKey :=
  match Bytes.ofList? publicKeySize bytes with
  | some key => .ok ⟨key⟩
  | none => .error (.invalidLength .encapsulation publicKeySize bytes.length)

def SecretKey.ofList (bytes : List UInt8) : Except CryptoError SecretKey :=
  match Bytes.ofList? secretKeySize bytes with
  | some key => .ok ⟨key⟩
  | none => .error (.invalidLength .decapsulation secretKeySize bytes.length)

def PublicKey.summary (key : PublicKey) : String :=
  "PublicKey(" ++ Hex.abbreviated key.bytes.toList ++ "..)"

def SecretKey.summary (_ : SecretKey) : String := "SecretKey(..)"

def Ciphertext.summary (ciphertext : Ciphertext) : String :=
  "Ciphertext(" ++ Hex.abbreviated ciphertext.bytes.toList ++ "..)"

def SharedSecret.summary (_ : SharedSecret) : String := "SharedSecret(..)"

def Keypair.summary (pair : Keypair) : String :=
  "Keypair \x7b public: " ++ pair.publicKey.summary ++ ", secret: " ++ pair.secretKey.summary ++
    " \x7d"

end RingAgreement
