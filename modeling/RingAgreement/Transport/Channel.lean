/-!
A channel that many receivers read, each at its own pace. It keeps only its newest items; a
receiver that is too far behind misses the older ones and learns that it did.
-/

namespace RingAgreement

/-- All items that were sent, the newest first, of which the newest `capacity` can still be
received. -/
structure Channel (α : Type) where
  capacity : Nat
  items : List α
deriving DecidableEq, Repr

namespace Channel

variable {α : Type}

/-- A channel for at least `size` items; its capacity is a power of two. -/
def withRoom (size : Nat) : Channel α := ⟨size.nextPowerOfTwo, []⟩

def send (c : Channel α) (item : α) : Channel α := { c with items := item :: c.items }

/-- The position of a receiver that has nothing to receive. -/
def tip (c : Channel α) : Nat := c.items.length

/-- Whether a receiver at a position can no longer receive all that was sent since. -/
def hasMissed (c : Channel α) (position : Nat) : Bool := c.capacity < c.tip - position

/-- The items that a receiver at a position can receive, the oldest first. -/
def since (c : Channel α) (position : Nat) : List α :=
  (c.items.take (min c.capacity (c.tip - position))).reverse

theorem tip_send (c : Channel α) (item : α) : (c.send item).tip = c.tip + 1 := rfl

theorem since_tip (c : Channel α) : c.since c.tip = [] := by
  simp [since]

theorem length_since_le (c : Channel α) (position : Nat) :
    (c.since position).length ≤ c.capacity := by
  simp only [since, List.length_reverse, List.length_take]
  omega

end Channel

end RingAgreement
