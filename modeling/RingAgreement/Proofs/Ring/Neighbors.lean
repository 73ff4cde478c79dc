import RingAgreement.Proofs.Ring.Circle
import RingAgreement.Session.Roster
/-!
Neighbours on a roster, and the shares of a ring by position.
-/

namespace RingAgreement

namespace Roster

variable (r : Roster) (i : Fin r.size)

theorem two_lt_size : 2 < r.size := r.minSize_le

@[simp] theorem left_right : r.left (r.right i) = i := previous_next i

@[simp] theorem right_left : r.right (r.left i) = i := by
  have many := r.two_lt_size
  apply Fin.ext
  simp only [left, right, leftOf, rightOf]
  rw [Nat.mod_add_mod, show i.val + r.size - 1 + 1 = i + r.size by omega, Nat.add_mod_right,
    Nat.mod_eq_of_lt i.isLt]

theorem right_ne : r.right i ≠ i := by
  have many := r.two_lt_size
  intro same
  have next : (i.val + 1) % r.size = i := congrArg Fin.val same
  rcases Nat.lt_or_ge (i + 1) r.size with inside | last
  · rw [Nat.mod_eq_of_lt inside] at next
    omega
  · rw [show i.val + 1 = r.size by omega, Nat.mod_self] at next
    omega

theorem left_ne : r.left i ≠ i := by
  intro same
  have next := r.right_ne i
  rw [← same, right_left, same] at next
  exact next rfl

/-- Positions fit into the indices of envelopes. -/
@[simp] theorem toNat_ofNat : (UInt32.ofNat i).toNat = i := by
  have small : i.val < 2 ^ 32 := i.isLt.trans r.size_lt
  simpa using Nat.mod_eq_of_lt small

end Roster

namespace Share

/-- The shares of parties whose right keys are the left keys of their right neighbours. -/
theorem ofLinks_ofFn {r : Roster} (links : Fin r.size → SharedSecret) :
    ofLinks (List.ofFn links) =
      List.ofFn fun i => ofNeighborKeys (links (r.right i)) (links i) :=
  ofLinks_ofFn_next links

end Share

end RingAgreement
