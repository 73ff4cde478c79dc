import Mathlib.Logic.Function.Defs
import RingAgreement.Proofs.Ring.Circle
/-!
The string that a group key is hashed from. It has neither lengths nor separators, but a ring has as
many identifiers as left keys, so the string tells the size of the ring, and with it where every
part begins. The left keys tell all shares, the last one because the shares cancel out.
-/

namespace RingAgreement

/-- Strings of one width can be told apart in a concatenation. -/
theorem Bytes.flatMap_toList_inj {α : Type} {n : Nat} {view : α → Bytes n}
    (injective : Function.Injective view) {xs ys : List α} (sized : xs.length = ys.length)
    (same : (xs.flatMap fun x => (view x).toList) = ys.flatMap fun y => (view y).toList) :
    xs = ys := by
  induction xs generalizing ys with
  | nil => exact (List.eq_nil_of_length_eq_zero sized.symm).symm
  | cons x xs ih =>
    cases ys with
    | nil => simp at sized
    | cons y ys =>
      rw [List.flatMap_cons, List.flatMap_cons] at same
      obtain ⟨first, rest⟩ :=
        List.append_inj same (by rw [Bytes.length_toList, Bytes.length_toList])
      rw [injective (Bytes.ext first), ih (Nat.succ.inj sized) rest]

theorem Bytes.length_flatMap_toList {α : Type} {n : Nat} (view : α → Bytes n) (xs : List α) :
    (xs.flatMap fun x => (view x).toList).length = n * xs.length := by
  simp [List.length_flatMap, Bytes.length_toList, Nat.mul_comm]

theorem SharedSecret.bytes_injective : Function.Injective SharedSecret.bytes := by
  rintro ⟨bytes⟩ ⟨bytes'⟩ rfl
  rfl

theorem PartyId.bytes_injective : Function.Injective PartyId.bytes := by
  rintro ⟨bytes⟩ ⟨bytes'⟩ rfl
  rfl

namespace GroupKey

theorem length_transcript (leftKeys : List SharedSecret) (ids : List PartyId) :
    (transcript leftKeys ids).length = 32 * leftKeys.length + 20 * ids.length := by
  rw [transcript, List.length_append, Bytes.length_flatMap_toList SharedSecret.bytes,
    Bytes.length_flatMap_toList PartyId.bytes]

/-- With one identifier for every left key, the string tells both lists. -/
theorem transcript_inj {leftKeys leftKeys' : List SharedSecret} {ids ids' : List PartyId}
    (named : ids.length = leftKeys.length) (named' : ids'.length = leftKeys'.length)
    (same : transcript leftKeys ids = transcript leftKeys' ids') :
    leftKeys = leftKeys' ∧ ids = ids' := by
  have sized : leftKeys.length = leftKeys'.length := by
    have lengths := congrArg List.length same
    rw [length_transcript, length_transcript, named, named'] at lengths
    omega
  obtain ⟨keys, names⟩ := List.append_inj same (by
    rw [Bytes.length_flatMap_toList SharedSecret.bytes,
      Bytes.length_flatMap_toList SharedSecret.bytes, sized])
  exact ⟨Bytes.flatMap_toList_inj SharedSecret.bytes_injective sized keys,
    Bytes.flatMap_toList_inj PartyId.bytes_injective (by omega) names⟩

/-- Two parties that have found the shares of their rings to cancel out hash the same string exactly
when their rings have the same shares and identifiers, each at the same position, and the first one
meets the left key of the second one on its walk. At the same position that is the same left key. -/
theorem transcript_determines_ring {shares shares' : List Share} {ids ids' : List PartyId}
    {own own' : Nat} {left left' : SharedSecret}
    (inside : own < shares.length) (inside' : own' < shares'.length)
    (closed : Share.isClosed shares = true) (closed' : Share.isClosed shares' = true)
    (named : ids.length = shares.length) (named' : ids'.length = shares'.length) :
    let string := transcript (Share.leftKeys own left shares) ids
    let string' := transcript (Share.leftKeys own' left' shares') ids'
    (string = string' ↔ shares = shares' ∧ ids = ids' ∧
      (Share.leftKeys own left shares)[own']? = some left') ∧
    (own = own' → (string = string' ↔
      shares.length = shares'.length ∧ left = left' ∧ shares = shares' ∧ ids = ids')) := by
  intro string string'
  have total_eq : Share.total shares = Bytes.zero 32 := by simpa [Share.isClosed] using closed
  have total_eq' : Share.total shares' = Bytes.zero 32 := by simpa [Share.isClosed] using closed'
  have walks : Share.leftKeys own left shares = Share.leftKeys own' left' shares' ↔ _ :=
    Share.leftKeys_eq_iff inside inside' total_eq total_eq'
  have general : string = string' ↔ shares = shares' ∧ ids = ids' ∧
      (Share.leftKeys own left shares)[own']? = some left' := by
    constructor
    · intro same
      obtain ⟨keys, names⟩ := transcript_inj
        (named.trans (Share.length_leftKeys inside total_eq).symm)
        (named'.trans (Share.length_leftKeys inside' total_eq').symm) same
      obtain ⟨equal, met⟩ := walks.1 keys
      exact ⟨equal, names, met⟩
    · rintro ⟨equal, names, met⟩
      exact congrArg₂ transcript (walks.2 ⟨equal, met⟩) names
  refine ⟨general, fun here => general.trans ?_⟩
  subst here
  rw [Share.leftKeys_own inside total_eq, Option.some.injEq]
  constructor
  · rintro ⟨equal, names, keys⟩
    exact ⟨congrArg List.length equal, keys, equal, names⟩
  · rintro ⟨_, keys, equal, names⟩
    exact ⟨equal, names, keys⟩

/-- The last and the first of three parties hash the same string; with another left key the last one
would hash another string. -/
theorem three_parties_hash_one_string :
    let shares : List Share := [⟨.replicate 32 1⟩, ⟨.replicate 32 2⟩, ⟨.replicate 32 3⟩]
    let ids : List PartyId := [⟨.replicate 20 1⟩, ⟨.replicate 20 2⟩, ⟨.replicate 20 3⟩]
    let string (own : Nat) (byte : UInt8) : List UInt8 :=
      transcript (Share.leftKeys own ⟨.replicate 32 byte⟩ shares) ids
    Share.isClosed shares = true ∧ ids.length = shares.length ∧
      string 2 7 = string 0 4 ∧ string 2 7 ≠ string 2 8 := by
  intro shares ids string
  have closed : Share.isClosed shares = true := by decide
  have last : 2 < shares.length := by decide
  have first : 0 < shares.length := by decide
  have met : (Share.leftKeys 2 ⟨.replicate 32 7⟩ shares)[0]? = some ⟨.replicate 32 4⟩ := by decide
  refine ⟨closed, rfl, ?_, fun same => ?_⟩
  · exact (transcript_determines_ring last first closed closed rfl rfl).1.2 ⟨rfl, rfl, met⟩
  · have ⟨_, keys, _⟩ :=
      ((transcript_determines_ring last last closed closed rfl rfl).2 rfl).1 same
    exact absurd keys (by decide)

end GroupKey

end RingAgreement
