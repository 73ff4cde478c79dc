import RingAgreement.Proofs.Checks
import RingAgreement.Proofs.Wire.Base64
import RingAgreement.Storage.KeyFile
/-!
Key files: the text of a key is read back as that key, so the file of a fresh key pair holds exactly
that pair. A file can be made for every name that an identifier can be made for.
-/

namespace RingAgreement

theorem PublicKey.ofText_encode (owner : String) (key : PublicKey) :
    PublicKey.ofText owner (Base64.encode key.bytes.toList) = .ok key := by
  have read : PublicKey.ofList key.bytes.toList = .ok key := by
    rw [PublicKey.ofList, Bytes.ofList?_eq_some_iff.2 rfl]
  rw [PublicKey.ofText, keyBytes, Base64.decode?_encode]
  simp only [bind, Except.bind, read]
  rfl

theorem SecretKey.ofText_encode (owner : String) (key : SecretKey) :
    SecretKey.ofText owner (Base64.encode key.bytes.toList) = .ok key := by
  have read : SecretKey.ofList key.bytes.toList = .ok key := by
    rw [SecretKey.ofList, Bytes.ofList?_eq_some_iff.2 rfl]
  rw [SecretKey.ofText, keyBytes, Base64.decode?_encode]
  simp only [bind, Except.bind, read]
  rfl

theorem PartyId.ofEntry_eq_ok_iff {name : String} {id : PartyId} :
    PartyId.ofEntry name = .ok id ↔ PartyId.ofName name = .ok id := mapError_eq_ok_iff

/-- The identifier of a name of one letter. -/
def PartyId.ofLetter (letter : UInt8) : PartyId := ⟨.fit 20 [letter]⟩

namespace KeyFile

/-- The file of a key pair. -/
def ofKeypair (name : String) (pair : Keypair) : KeyFile :=
  ⟨name, Base64.encode pair.publicKey.bytes.toList, Base64.encode pair.secretKey.bytes.toList⟩

theorem keypair_ofKeypair (name : String) (pair : Keypair) :
    (ofKeypair name pair).keypair = .ok pair := by
  rw [keypair, ofKeypair, PublicKey.ofText_encode, SecretKey.ofText_encode]
  rfl

variable {K : Kem} {name : String} {seed : Bytes 32} {file : KeyFile}

/-- A file is made for a name exactly if there is an identifier for the name, and it is then the
file of the generated pair. -/
theorem generate_eq_ok_iff : generate K name seed = .ok file ↔
    (∃ id, PartyId.ofName name = .ok id) ∧ file = ofKeypair name (K.keypair seed) := by
  rw [generate, bind_eq_ok_iff]
  constructor
  · rintro ⟨id, accepted, made⟩
    exact ⟨⟨id, PartyId.ofEntry_eq_ok_iff.1 accepted⟩, (Except.ok.inj made).symm⟩
  · rintro ⟨⟨id, accepted⟩, rfl⟩
    exact ⟨id, PartyId.ofEntry_eq_ok_iff.2 accepted, rfl⟩

end KeyFile

end RingAgreement
