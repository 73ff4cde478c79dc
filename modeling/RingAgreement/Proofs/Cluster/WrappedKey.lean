import Mathlib.Logic.ExistsUnique
import Mathlib.Logic.Function.Basic
import RingAgreement.Cluster.WrappedKey
import RingAgreement.Proofs.Bytes.Xor
/-!
Wrapping and unwrapping under one wrapping key are inverse to each other. The pad is added on both
sides, and the tag is a function of the masked bytes alone, so a masked key goes with one tag.
-/

namespace RingAgreement.WrappingKey

variable {wrapping : WrappingKey}

@[simp] theorem unwrap_wrap (wrapping : WrappingKey) (key : Bytes 32) :
    wrapping.unwrap (wrapping.wrap key) = .ok key := by
  rw [unwrap, wrap, if_pos rfl, Bytes.xor_comm key, Bytes.xor_comm (_ ^^^ key),
    Bytes.xor_xor_cancel_left]

theorem wrap_injective (wrapping : WrappingKey) : Function.Injective wrapping.wrap := by
  intro key key' same
  have opened := unwrap_wrap wrapping key
  rw [same, unwrap_wrap] at opened
  exact (Except.ok.inj opened).symm

/-- Only a key that was wrapped comes out. -/
theorem wrap_of_unwrap {wrapped : WrappedKey} {key : Bytes 32}
    (opened : wrapping.unwrap wrapped = .ok key) : wrapping.wrap key = wrapped := by
  rw [unwrap] at opened
  split at opened
  next tagged =>
    obtain rfl := Except.ok.inj opened
    have masked : wrapped.maskedKey ^^^ wrapping.pad ^^^ wrapping.pad = wrapped.maskedKey := by
      rw [Bytes.xor_assoc, Bytes.xor_self, Bytes.xor_zero]
    rw [wrap, masked, tagged]
  next => cases opened

theorem unwrap_eq_ok_iff {wrapped : WrappedKey} {key : Bytes 32} :
    wrapping.unwrap wrapped = .ok key ↔ wrapped = wrapping.wrap key := by
  constructor
  · intro opened
    exact (wrap_of_unwrap opened).symm
  · rintro rfl
    exact unwrap_wrap wrapping key

/-- Nothing but the tag is checked. -/
theorem unwrap_eq_error_iff_tag {wrapped : WrappedKey} {error : CryptoError} :
    wrapping.unwrap wrapped = .error error ↔
      error = .wrappedKeyAuthentication ∧ wrapping.tag wrapped.maskedKey ≠ wrapped.tag := by
  rw [unwrap]
  split
  next tagged => simp [tagged]
  next spoilt => simp [spoilt, eq_comm]

/-- What no key was wrapped into is refused. -/
theorem unwrap_eq_error_iff {wrapped : WrappedKey} {error : CryptoError} :
    wrapping.unwrap wrapped = .error error ↔
      error = .wrappedKeyAuthentication ∧ ∀ key, wrapped ≠ wrapping.wrap key := by
  rw [unwrap_eq_error_iff_tag]
  refine and_congr_right fun _ => ⟨fun spoilt key made => ?_, fun foreign tagged => ?_⟩
  · subst made
    exact spoilt rfl
  · have opened : wrapping.unwrap wrapped = .ok (wrapped.maskedKey ^^^ wrapping.pad) := by
      rw [unwrap, if_pos tagged]
    exact foreign _ (unwrap_eq_ok_iff.1 opened)

/-- Masked bytes open with the tag that they have under the wrapping key, and with no other. -/
theorem opens_iff_tag (masked tag : Bytes 32) :
    (∃ key, wrapping.unwrap ⟨masked, tag⟩ = .ok key) ↔ tag = wrapping.tag masked := by
  constructor
  · rintro ⟨key, opened⟩
    have made : (⟨masked, tag⟩ : WrappedKey) = wrapping.wrap key := unwrap_eq_ok_iff.1 opened
    obtain ⟨rfl, rfl⟩ := WrappedKey.mk.inj made
    rfl
  · rintro rfl
    exact ⟨masked ^^^ wrapping.pad, if_pos rfl⟩

/-- Under the wrapping key of a cluster, what unwraps to a key is the wrapped form of that key and
all else is refused; each masked key goes with one tag, and no two keys have one wrapped form. -/
theorem unwrapping_inverts_wrapping (cluster : GroupKey) :
    let wrapping := WrappingKey.derive cluster
    (∀ key wrapped, wrapping.unwrap wrapped = .ok key ↔ wrapped = wrapping.wrap key) ∧
    (∀ wrapped error, wrapping.unwrap wrapped = .error error ↔
      error = .wrappedKeyAuthentication ∧ ∀ key, wrapped ≠ wrapping.wrap key) ∧
    (∀ masked, ∃! tag, ∃ key, wrapping.unwrap ⟨masked, tag⟩ = .ok key) ∧
    ∀ key key', wrapping.wrap key = wrapping.wrap key' ↔ key = key' := by
  intro wrapping
  refine ⟨fun _ _ => unwrap_eq_ok_iff, fun _ _ => unwrap_eq_error_iff, fun masked => ?_,
    fun _ _ => (wrap_injective wrapping).eq_iff⟩
  refine ⟨wrapping.tag masked, (opens_iff_tag masked _).2 rfl, fun tag opened => ?_⟩
  exact (opens_iff_tag masked tag).1 opened

end RingAgreement.WrappingKey
