/-!
Probabilities as programs write them: double-precision numbers (IEEE 754), given by their bits. What
is asked of a rate is decided on the bits, so a run can be reasoned about whatever its rate is.
-/

namespace RingAgreement

/-- A double-precision number: a sign, 11 bits of exponent and 52 bits of fraction. -/
structure Rate where
  bits : UInt64
deriving DecidableEq, Repr

namespace Rate

instance : Coe Float Rate := ⟨fun p => ⟨p.toBits⟩⟩

def zero : Rate := ⟨0⟩

def one : Rate := ⟨0x3ff0000000000000⟩

def infinity : Rate := ⟨0x7ff0000000000000⟩

variable (p : Rate)

/-- More than zero. Without a sign the numbers up to infinity are ordered like their bits, and
behind infinity stands what is not a number. -/
def isPositive : Bool := 0 < p.bits && p.bits ≤ infinity.bits

/-- For a positive rate: at least one. -/
def isCertain : Bool := one.bits ≤ p.bits

def exponent : Nat := (p.bits >>> 52 &&& 0x7ff).toNat

/-- The fraction with the digit in front of it, which is one but for the numbers nearest to zero. -/
def significand : Nat :=
  let fraction := (p.bits &&& 0xfffffffffffff).toNat
  if p.exponent = 0 then fraction else 0x10000000000000 + fraction

/-- How many of the numbers of 64 bits a rate below one amounts to, rounded down. The significand
counts units of `2 ^ (max exponent 1 - 1075)`. -/
def threshold : Nat := p.significand <<< max p.exponent 1 >>> 1011

end Rate

end RingAgreement
