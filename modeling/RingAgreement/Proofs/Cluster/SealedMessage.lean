import Mathlib.Logic.ExistsUnique
import RingAgreement.Cluster.SealedMessage
/-!
Application messages open to what was sealed, and nothing else opens. The cipher adds the same key
stream twice, and the tag is computed from the ciphertext on both sides.
-/

namespace RingAgreement

namespace ChaCha20

@[simp] theorem length_apply (key : Bytes 32) (nonce : Bytes 12) (counter : Nat)
    (text : List UInt8) : (apply key nonce counter text).length = text.length := by
  rw [apply, List.length_zipWith, length_keyStream]
  omega

/-- The key stream cancels itself. -/
theorem apply_apply (key : Bytes 32) (nonce : Bytes 12) (counter : Nat) (text : List UInt8) :
    apply key nonce counter (apply key nonce counter text) = text := by
  refine List.ext_getElem (by simp) fun i _ _ => ?_
  simp only [apply, List.getElem_zipWith, List.length_zipWith, length_keyStream,
    Nat.min_eq_left (show text.length ≤ 64 * ((text.length + 63) / 64) by omega)]
  rw [UInt8.xor_assoc, UInt8.xor_self, UInt8.xor_zero]

end ChaCha20

theorem Aead.decrypt?_encrypt (key : Bytes 32) (nonce : Bytes 12)
    (associated plaintext : List UInt8) :
    decrypt? key nonce associated (encrypt key nonce associated plaintext).1
      (encrypt key nonce associated plaintext).2 = some plaintext := by
  rw [encrypt]
  dsimp only
  rw [decrypt?, if_pos rfl, ChaCha20.apply_apply]

theorem Aead.encrypt_of_decrypt? {key : Bytes 32} {nonce : Bytes 12}
    {associated ciphertext plaintext : List UInt8} {received : Bytes 16}
    (decrypted : decrypt? key nonce associated ciphertext received = some plaintext) :
    encrypt key nonce associated plaintext = (ciphertext, received) := by
  rw [decrypt?] at decrypted
  split at decrypted
  next tagged =>
    obtain rfl := Option.some.inj decrypted
    rw [encrypt, ChaCha20.apply_apply, tagged]
  next => cases decrypted

namespace SealedMessage

variable {key : ClusterKey} {sender : UInt32} {plaintext : List UInt8} {nonce : Bytes 24}

theorem make_eq {subkey : Bytes 32} {short : Bytes 12}
    (extended : Aead.extended key.bytes nonce = (subkey, short)) :
    make key sender plaintext nonce =
      ⟨nonce, (Aead.encrypt subkey short (senderData sender) plaintext).1 ++
        (Aead.encrypt subkey short (senderData sender) plaintext).2.toList⟩ := by
  rw [make, extended]

/-- A ciphertext that ends with the tag of 16 bytes. -/
theorem openWith_append {subkey : Bytes 32} {short : Bytes 12}
    (extended : Aead.extended key.bytes nonce = (subkey, short)) (text : List UInt8)
    (tag : Bytes 16) :
    openWith key sender ⟨nonce, text ++ tag.toList⟩ =
      (Aead.decrypt? subkey short (senderData sender) text tag).elim
        (.error .messageAuthentication) .ok := by
  have split : (text ++ tag.toList).length - tagSize = text.length := by
    rw [List.length_append, tag.length_toList, tagSize, Nat.add_sub_cancel]
  have read : Bytes.ofList? 16 tag.toList = some tag := Bytes.ofList?_eq_some_iff.2 rfl
  unfold openWith
  dsimp only
  rw [extended, split, List.drop_left, List.take_left, read, Option.bind_eq_bind, Option.bind_some]
  generalize Aead.decrypt? subkey short (senderData sender) text tag = decrypted
  cases decrypted with
  | none => rfl
  | some plaintext => rfl

theorem length_ciphertext_make :
    (make key sender plaintext nonce).ciphertext.length = plaintext.length + tagSize := by
  rcases keys : Aead.extended key.bytes nonce with ⟨subkey, short⟩
  have text : (Aead.encrypt subkey short (senderData sender) plaintext).1.length =
      plaintext.length := ChaCha20.length_apply _ _ _ _
  rw [make_eq keys, List.length_append, text, Bytes.length_toList, tagSize]

theorem openWith_make : (make key sender plaintext nonce).openWith key sender = .ok plaintext := by
  rcases keys : Aead.extended key.bytes nonce with ⟨subkey, short⟩
  rw [make_eq keys, openWith_append keys, Aead.decrypt?_encrypt, Option.elim_some]

/-! ## What does not open -/

variable {message : SealedMessage}

/-- A ciphertext that cannot hold a tag is refused before anything is decrypted. -/
theorem openWith_of_short (short : message.ciphertext.length < tagSize) :
    message.openWith key sender = .error .messageAuthentication := by
  have whole : message.ciphertext.length - tagSize = 0 := by omega
  have untagged : Bytes.ofList? 16 message.ciphertext = none :=
    Bytes.ofList?_eq_none_iff.2 (Nat.ne_of_lt short)
  unfold openWith
  dsimp only
  rw [whole, List.drop_zero, untagged, Option.bind_eq_bind, Option.bind_none]

/-- A ciphertext that is long enough is a text with a tag behind it. -/
theorem exists_tag {ciphertext : List UInt8} (long : tagSize ≤ ciphertext.length) :
    ∃ text, ∃ tag : Bytes 16, ciphertext = text ++ tag.toList := by
  have width : (ciphertext.drop (ciphertext.length - tagSize)).length = 16 := by
    rw [List.length_drop]
    exact Nat.sub_sub_self long
  refine ⟨ciphertext.take (ciphertext.length - tagSize), ⟨_, width⟩, ?_⟩
  exact (List.take_append_drop _ ciphertext).symm

/-- Only a message that was sealed opens. -/
theorem make_of_openWith (opened : message.openWith key sender = .ok plaintext) :
    message = make key sender plaintext message.nonce := by
  obtain ⟨nonce, ciphertext⟩ := message
  by_cases long : tagSize ≤ ciphertext.length
  · obtain ⟨text, tag, rfl⟩ := exists_tag long
    rcases keys : Aead.extended key.bytes nonce with ⟨subkey, short⟩
    rw [openWith_append keys] at opened
    cases decrypted : Aead.decrypt? subkey short (senderData sender) text tag with
    | none =>
      rw [decrypted] at opened
      cases opened
    | some plaintext' =>
      rw [decrypted] at opened
      obtain rfl := Except.ok.inj opened
      rw [make_eq keys, Aead.encrypt_of_decrypt? decrypted]
  · rw [openWith_of_short (Nat.not_le.1 long)] at opened
    cases opened

theorem openWith_eq_ok_iff :
    message.openWith key sender = .ok plaintext ↔
      message = make key sender plaintext message.nonce := by
  constructor
  · exact make_of_openWith
  · intro sealed
    rw [sealed]
    exact openWith_make

/-- There is one reason to refuse a message. -/
theorem error_of_openWith {error : CryptoError}
    (failed : message.openWith key sender = .error error) : error = .messageAuthentication := by
  unfold openWith at failed
  dsimp only at failed
  split at failed
  next => cases failed
  next => exact (Except.error.inj failed).symm

theorem openWith_eq_error_iff {error : CryptoError} :
    message.openWith key sender = .error error ↔
      error = .messageAuthentication ∧
        ∀ plaintext, message ≠ make key sender plaintext message.nonce := by
  constructor
  · intro failed
    refine ⟨error_of_openWith failed, fun plaintext sealed => ?_⟩
    rw [openWith_eq_ok_iff.2 sealed] at failed
    cases failed
  · rintro ⟨rfl, foreign⟩
    cases opened : message.openWith key sender with
    | ok plaintext => exact absurd (openWith_eq_ok_iff.1 opened) (foreign plaintext)
    | error error => rw [error_of_openWith opened]

/-- The tag that a ciphertext has from its sender. -/
def tagFor (key : ClusterKey) (sender : UInt32) (nonce : Bytes 24) (text : List UInt8) : Bytes 16 :=
  Aead.tag (Aead.extended key.bytes nonce).1 (Aead.extended key.bytes nonce).2 (senderData sender)
    text

/-- A ciphertext opens with its own tag and with no other. -/
theorem opens_iff_tagFor (text : List UInt8) (tag : Bytes 16) :
    (∃ plaintext, openWith key sender ⟨nonce, text ++ tag.toList⟩ = .ok plaintext) ↔
      tag = tagFor key sender nonce text := by
  rw [openWith_append rfl, Aead.decrypt?, tagFor]
  split
  next tagged =>
    rw [← tagged]
    exact ⟨fun _ => rfl, fun _ => ⟨_, rfl⟩⟩
  next spoilt =>
    refine ⟨?_, fun same => absurd same.symm spoilt⟩
    rintro ⟨plaintext, opened⟩
    cases opened

/-- A message opens to a plaintext exactly if it is the one that its sender seals that plaintext
into under its nonce, and is refused otherwise. A sealed message has 16 bytes more than its
plaintext; a shorter ciphertext than that is refused, and each text opens with one tag. -/
theorem opening_inverts_sealing (key : ClusterKey) (sender : UInt32) :
    (∀ message plaintext, openWith key sender message = .ok plaintext ↔
      message = make key sender plaintext message.nonce) ∧
    (∀ message error, openWith key sender message = .error error ↔
      error = .messageAuthentication ∧
        ∀ plaintext, message ≠ make key sender plaintext message.nonce) ∧
    (∀ plaintext nonce,
      (make key sender plaintext nonce).ciphertext.length = plaintext.length + 16 ∧
      openWith key sender (make key sender plaintext nonce) = .ok plaintext) ∧
    (∀ message : SealedMessage, message.ciphertext.length < 16 →
      openWith key sender message = .error .messageAuthentication) ∧
    ∀ nonce text, ∃! tag : Bytes 16,
      ∃ plaintext, openWith key sender ⟨nonce, text ++ tag.toList⟩ = .ok plaintext := by
  refine ⟨fun _ _ => openWith_eq_ok_iff, fun _ _ => openWith_eq_error_iff,
    fun _ _ => ⟨length_ciphertext_make, openWith_make⟩, fun _ => openWith_of_short,
    fun nonce text => ?_⟩
  refine ⟨tagFor key sender nonce text, (opens_iff_tagFor text _).2 rfl, fun tag opened => ?_⟩
  exact (opens_iff_tagFor text tag).1 opened

end SealedMessage

end RingAgreement
