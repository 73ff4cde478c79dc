import RingAgreement.Proofs.Cluster.SealedMessage
import RingAgreement.Proofs.Node.Mail
/-!
What fits in a line: everything that a node sends on its own, and an application message up to a
length of its plaintext.
-/

namespace RingAgreement

namespace Envelope

theorem length_toString_le {n : Nat} (small : n < UInt32.size) :
    (toString (n : Int)).length ≤ 10 := by
  have digits : (toString (n : Int)).toList = Nat.toDigits 10 n := by
    rcases Json.toList_toString_cases (n : Int) with ⟨m, same, literal⟩ | ⟨m, negative, -⟩
    · rw [literal, Int.ofNat.inj same]
    · omega
  have size : UInt32.size = 2 ^ 32 := rfl
  rw [← String.length_toList, digits]
  exact (Nat.length_toDigits_le_iff (by decide) (by decide)).2 (by omega)

theorem length_recipientIndex_le (recipient : Recipient) :
    (toString (recipientIndex recipient)).length ≤ 10 := by
  cases recipient with
  | everyone => decide
  | party index => exact length_toString_le index.toNat_lt

/-- Only the content of an envelope can make its line too long. -/
theorem lineSize_le (e : Envelope) : e.lineSize ≤ 76 + 4 * ((e.content.length + 2) / 3) := by
  have sender := length_toString_le e.sender.toNat_lt
  have recipient := length_recipientIndex_le e.recipient
  rw [lineSize]
  omega

theorem Routine.length_content_le {e : Envelope} (routine : e.Routine) :
    e.content.length ≤ 2272 := by
  obtain ⟨kind, sender, recipient⟩ := routine
  next p =>
  change p.encode.length ≤ 2272
  cases p with
  | appMessage message => exact absurd rfl kind
  | _ => simp [Payload.encode, Payload.parts, Bytes.length_toList, publicKeySize, ciphertextSize]

/-- What a node sends on its own always fits in a line. -/
theorem Routine.fits {e : Envelope} (routine : e.Routine) : e.lineSize ≤ maxLineSize := by
  have size := e.lineSize_le
  have content := routine.length_content_le
  have limit : maxLineSize = 262144 := rfl
  omega

/-- The line of an application message takes four bytes for every three of the plaintext, of the
nonce and of the tag. -/
theorem lineSize_appMessage (key : ClusterKey) (sender index : UInt32) (plaintext : List UInt8)
    (nonce : Bytes 24) :
    ((Payload.appMessage (.make key sender plaintext nonce)).toEnvelope index .everyone).lineSize =
      58 + (toString (index.toNat : Int)).length + 4 * ((plaintext.length + 42) / 3) := by
  have content : ((Payload.appMessage (.make key sender plaintext nonce)).toEnvelope index
      .everyone).content.length = plaintext.length + 40 := by
    change (Payload.encode _).length = _
    simp only [Payload.encode, Payload.parts, List.flatten_cons, List.flatten_nil, List.append_nil,
      List.length_append, SealedMessage.length_ciphertext_make, tagSize]
    rw [Bytes.length_toList]
    omega
  have everyone : (toString (recipientIndex .everyone)).length = 2 := by decide
  rw [lineSize, content]
  change 56 + (toString (index.toNat : Int)).length + (toString (recipientIndex .everyone)).length +
    _ = _
  rw [everyone]
  omega

end Envelope

end RingAgreement
