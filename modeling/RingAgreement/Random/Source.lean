import RingAgreement.Bytes.Order
/-!
Sources of randomness. A party takes every seed, coin and nonce from its source, so a run is a
function of the sources' states and of the messages.
-/

namespace RingAgreement

/-- A state from which byte strings can be drawn, each draw giving the next state. -/
class RandomSource (ρ : Type) where
  draw : (n : Nat) → ρ → Bytes n × ρ

/-- A predictable source: the bytes of a draw are the big-endian number of the draw, repeated,
with a pattern of byte positions added. -/
structure DrawCounter where
  next : UInt64
deriving DecidableEq

namespace DrawCounter

def draw (n : Nat) (counter : DrawCounter) : Bytes n × DrawCounter :=
  let stamp := Bytes.ofWord64BE counter.next
  let byte (i : Nat) : UInt8 := stamp.getD (i % 8) 0 ^^^ (UInt8.ofNat i * 31)
  (⟨(List.range n).map byte, by simp⟩, ⟨counter.next + 1⟩)

instance : RandomSource DrawCounter := ⟨draw⟩

end DrawCounter

end RingAgreement
