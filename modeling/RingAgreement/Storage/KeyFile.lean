import RingAgreement.Json.Print
import RingAgreement.Base64
import RingAgreement.Keys.Kem
import RingAgreement.Ring.PartyId
import RingAgreement.Service.Error
/-!
Key files: the name of a party with its key pair, as a JSON document with the keys in base64.
-/

namespace RingAgreement

/-- The text of a file with a document. -/
def Json.toFile (document : Json) : String := String.ofList document.pretty ++ "\n"

/-- What a file says, given the bytes in it or that it cannot be read. -/
def Json.ofFile {α : Type} (path : String) (decode? : Json → Option α)
    (content : Option (List UInt8)) : Except ServiceError α :=
  match content.bind Text.ofUtf8? with
  | none => .error (.config (.unreadable path))
  | some written =>
    match Json.parse? written.toList >>= decode? with
    | none => .error (.config (.malformed path))
    | some value => .ok value

/-- The bytes that base64 text of a key's owner stands for. -/
def keyBytes (owner text : String) : Except ServiceError (List UInt8) :=
  match Base64.decode? text with
  | some bytes => .ok bytes
  | none => .error (.config (.keyText owner))

def PublicKey.ofText (owner text : String) : Except ServiceError PublicKey := do
  match PublicKey.ofList (← keyBytes owner text) with
  | .ok key => return key
  | .error e => .error (.config (.keyLength .encapsulation owner e))

def SecretKey.ofText (owner text : String) : Except ServiceError SecretKey := do
  match SecretKey.ofList (← keyBytes owner text) with
  | .ok key => return key
  | .error e => .error (.config (.keyLength .decapsulation owner e))

/-- The identifier for a name in a file. -/
def PartyId.ofEntry (name : String) : Except ServiceError PartyId :=
  (PartyId.ofName name).mapError fun e => .config (.partyName e)

structure KeyFile where
  name : String
  publicKey : String
  secretKey : String
deriving DecidableEq, Repr

namespace KeyFile

def fieldNames : List String := ["name", "publicKey", "secretKey"]

def toDocument (f : KeyFile) : Json :=
  .object [(some "name", .text (some f.name)), (some "publicKey", .text (some f.publicKey)),
    (some "secretKey", .text (some f.secretKey))]

def ofDocument? (document : Json) : Option KeyFile := do
  match ← document.fields? fieldNames with
  | [some name, some publicKey, some secretKey] =>
    return ⟨← name.text?, ← publicKey.text?, ← secretKey.text?⟩
  | _ => none

def load (path : String) (content : Option (List UInt8)) : Except ServiceError KeyFile :=
  Json.ofFile path ofDocument? content

def toFile (f : KeyFile) : String := f.toDocument.toFile

/-- The file for a fresh key pair. -/
def generate (K : Kem) (name : String) (seed : Bytes 32) : Except ServiceError KeyFile := do
  let _ ← PartyId.ofEntry name
  let pair := K.keypair seed
  return ⟨name, Base64.encode pair.publicKey.bytes.toList,
    Base64.encode pair.secretKey.bytes.toList⟩

def keypair (f : KeyFile) : Except ServiceError Keypair := do
  let publicKey ← PublicKey.ofText f.name f.publicKey
  let secretKey ← SecretKey.ofText f.name f.secretKey
  return ⟨publicKey, secretKey⟩

end KeyFile

end RingAgreement
