import RingAgreement.Wire.Envelope
/-!
The limits that nodes and relays keep.
-/

namespace RingAgreement

structure Limits where
  maxLineBytes : Nat
  channelCapacity : Nat
  maxHistoryLines : Nat
deriving DecidableEq, Repr

namespace Limits

def standard : Limits := ⟨Envelope.maxLineSize, 1024, 4096⟩

/-- How many items a queue of a node takes, one at least. -/
def queueRoom (l : Limits) : Nat := max l.channelCapacity 1

theorem queueRoom_pos (l : Limits) : 0 < l.queueRoom := Nat.le_max_right _ _

end Limits

end RingAgreement
