import Mathlib.Algebra.Group.Nat.Defs
import RingAgreement.Keys.MlKem768
import RingAgreement.Proofs.Cluster.SealedMessage
import RingAgreement.Ring.Commitment
import RingAgreement.Ring.Share
/-!
A commitment binds the share and the position that it was made from. Key and nonce of its symmetric
part come from the public key and the coin alone, so under one coin all messages meet the same key
stream, and the message is the share followed by the position in a fixed width.
-/

namespace RingAgreement

namespace Bytes

/-- A number is read back up to what does not fit the width. -/
theorem ofLittleEndian_littleEndianList (width n : Nat) :
    ofLittleEndian (littleEndianList width n) = n % 256 ^ width := by
  induction width generalizing n with
  | zero => rw [Nat.pow_zero, Nat.mod_one]; rfl
  | succ width ih =>
    have step : ofLittleEndian (littleEndianList (width + 1) n) =
        n % 256 + 256 * ofLittleEndian (littleEndianList width (n / 256)) := by
      change (UInt8.ofNat n).toNat + _ = _
      rw [UInt8.toNat_ofNat']
      rfl
    rw [step, ih, Nat.pow_succ', Nat.mod_mul]

theorem bigEndian_inj {width m n : Nat} (m_lt : m < 256 ^ width) (n_lt : n < 256 ^ width)
    (same : bigEndian width m = bigEndian width n) : m = n := by
  have listed : littleEndianList width m = littleEndianList width n :=
    List.reverse_inj.1 (congrArg toList same)
  rw [← Nat.mod_eq_of_lt m_lt, ← Nat.mod_eq_of_lt n_lt, ← ofLittleEndian_littleEndianList, listed,
    ofLittleEndian_littleEndianList]

end Bytes

theorem ChaCha20.apply_injective (key : Bytes 32) (nonce : Bytes 12) (counter : Nat) :
    Function.Injective (apply key nonce counter) := fun text text' same => by
  rw [← apply_apply key nonce counter text, same, apply_apply]

/-- The committed message tells the share and the position. -/
theorem Share.commitmentMessage_inj {share share' : Share} {index index' : Nat}
    (index_lt : index < UInt32.size) (index_lt' : index' < UInt32.size)
    (same : share.commitmentMessage index = share'.commitmentMessage index') :
    share = share' ∧ index = index' := by
  obtain ⟨bytes⟩ := share
  obtain ⟨bytes'⟩ := share'
  obtain ⟨shares, indices⟩ := List.append_inj (congrArg Bytes.toList same)
    (by rw [Bytes.length_toList, Bytes.length_toList])
  exact ⟨congrArg Share.mk (Bytes.ext shares),
    Bytes.bigEndian_inj index_lt index_lt' (Bytes.ext indices)⟩

theorem Kem.mlKem768_encapsulateFrom {key : PublicKey}
    (parses : MlKem.isReduced key.bytes.toList = true) (source : StreamSource) :
    ∃ sealing, (mlKem768.encapsulateFrom key source).1 = .ok sealing := by
  simp only [encapsulateFrom, mlKem768, checkReduced, if_pos parses]
  exact ⟨_, rfl⟩

namespace Commitment

variable {K : Kem} {key : PublicKey} {coin : Coin}

/-- What a commitment is made of: the message under a key stream that the message has no part in. -/
theorem make_of_sealing {sealing : SharedSecret × Ciphertext}
    (sealed : (K.encapsulateFrom key (.ofSeed coin.seed)).1 = .ok sealing) (message : Bytes 36) :
    ∃ commitment, make K key message coin = .ok commitment ∧
      commitment.demCiphertext.toList =
        ChaCha20.apply sealing.1.bytes coin.nonce 1 message.toList := by
  refine ⟨_, by simp only [make, sealed]; rfl, Bytes.toList_fit ?_⟩
  change (ChaCha20.apply sealing.1.bytes coin.nonce 1 message.toList).length = 36
  rw [ChaCha20.length_apply, message.length_toList]

/-- Under one key and coin, the symmetric part of a commitment tells its message. -/
theorem message_eq_of_demCiphertext_eq {message message' : Bytes 36}
    {commitment commitment' : Commitment}
    (made : make K key message coin = .ok commitment)
    (made' : make K key message' coin = .ok commitment')
    (same : commitment.demCiphertext = commitment'.demCiphertext) : message = message' := by
  cases sealed : (K.encapsulateFrom key (.ofSeed coin.seed)).1 with
  | error e =>
    simp only [make, sealed] at made
    cases made
  | ok sealing =>
    obtain ⟨first, first_made, first_text⟩ := make_of_sealing sealed message
    obtain ⟨second, second_made, second_text⟩ := make_of_sealing sealed message'
    obtain rfl : first = commitment := Except.ok.inj (first_made.symm.trans made)
    obtain rfl : second = commitment' := Except.ok.inj (second_made.symm.trans made')
    apply Bytes.ext
    apply ChaCha20.apply_injective sealing.1.bytes coin.nonce 1
    rw [← first_text, ← second_text, same]

/-- Under one key and coin, the symmetric part of a commitment tells the share and the position. -/
theorem opening_eq_of_demCiphertext_eq {share share' : Share} {index index' : UInt32}
    {commitment commitment' : Commitment}
    (made : make K key (share.commitmentMessage index.toNat) coin = .ok commitment)
    (made' : make K key (share'.commitmentMessage index'.toNat) coin = .ok commitment')
    (same : commitment.demCiphertext = commitment'.demCiphertext) :
    (share, index) = (share', index') := by
  obtain ⟨rfl, indices⟩ := Share.commitmentMessage_inj index.toNat_lt index'.toNat_lt
    (message_eq_of_demCiphertext_eq made made' same)
  rw [UInt32.toNat_inj.1 indices]

/-- Under a key that parses and a coin, every share can be committed to at every position, any two
of these commitments differ in their symmetric parts, and each of them is made again from its own
share at its own position only. -/
theorem binds_share_and_position {key : PublicKey}
    (parses : MlKem.isReduced key.bytes.toList = true) (coin : Coin) (share : Share)
    (index : UInt32) :
    let commit (share : Share) (index : UInt32) : Except CryptoError Commitment :=
      make .mlKem768 key (share.commitmentMessage index.toNat) coin
    ∃ stored, commit share index = .ok stored ∧
      (∀ share' index', commit share' index' = .ok stored ↔ (share', index') = (share, index)) ∧
      ∀ share' index', ∃ other, commit share' index' = .ok other ∧
        ((share', index') ≠ (share, index) →
          other.demCiphertext ≠ stored.demCiphertext ∧ other ≠ stored) := by
  intro commit
  obtain ⟨sealing, sealed⟩ := Kem.mlKem768_encapsulateFrom parses (.ofSeed coin.seed)
  have made : ∀ share index, ∃ commitment, commit share index = .ok commitment := by
    intro share index
    obtain ⟨commitment, made, _⟩ :=
      make_of_sealing sealed (share.commitmentMessage index.toNat)
    exact ⟨commitment, made⟩
  obtain ⟨stored, here⟩ := made share index
  refine ⟨stored, here, fun share' index' => ⟨fun again => ?_, fun same => ?_⟩,
    fun share' index' => ?_⟩
  · exact opening_eq_of_demCiphertext_eq again here rfl
  · obtain ⟨rfl, rfl⟩ := Prod.mk.inj same
    exact here
  · obtain ⟨other, there⟩ := made share' index'
    refine ⟨other, there, fun moved => ?_⟩
    have differ : other.demCiphertext ≠ stored.demCiphertext :=
      fun same => moved (opening_eq_of_demCiphertext_eq there here same)
    exact ⟨differ, fun same => differ (congrArg Commitment.demCiphertext same)⟩

/-- The key of zeros parses, so the same share is committed to differently at two positions. -/
theorem zero_key_binds :
    let key : PublicKey := ⟨.zero publicKeySize⟩
    let coin : Coin := ⟨.replicate 44 5⟩
    let share : Share := ⟨.replicate 32 7⟩
    MlKem.isReduced key.bytes.toList = true ∧
      make .mlKem768 key (share.commitmentMessage 1) coin ≠
        make .mlKem768 key (share.commitmentMessage 256) coin := by
  intro key coin share
  have parses : MlKem.isReduced key.bytes.toList = true := by decide +kernel
  obtain ⟨stored, here, only, _⟩ := binds_share_and_position parses coin share 1
  refine ⟨parses, fun same => ?_⟩
  have moved : (share, (256 : UInt32)) = (share, 1) := (only share 256).1 (same.symm.trans here)
  exact absurd (Prod.mk.inj moved).2 (by decide)

end Commitment

end RingAgreement
