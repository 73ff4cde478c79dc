/-!
The polynomial ring of ML-KEM (FIPS 203): 256 coefficients modulo 3329, listed from the lowest
degree. The number-theoretic transform splits a list in halves and recurses on both; node `i` of
the recursion tree uses the `i`-th power in bit-reversed order.
-/

namespace RingAgreement.MlKem

/-- The modulus of the coefficients. -/
def q : Nat := 3329

/-- Coefficients, each below `q`. -/
abbrev Poly := List Nat

namespace Poly

def zero : Poly := List.replicate 256 0

def add (a b : Poly) : Poly := List.zipWith (fun x y => (x + y) % q) a b

def sub (a b : Poly) : Poly := List.zipWith (fun x y => (x + q - y) % q) a b

def scale (k : Nat) (a : Poly) : Poly := a.map fun x => k * x % q

/-- The seven low bits of a number in reverse order. -/
def reverseBits (i : Nat) : Nat :=
  (List.range 7).foldl (fun r k => 2 * r + (i >>> k) % 2) 0

def power (base : Nat) : Nat → Nat
  | 0 => 1
  | e + 1 => base * power base e % q

/-- Powers of the root of unity 17 in bit-reversed order. -/
def twiddles : Array Nat := ((List.range 128).map fun i => power 17 (reverseBits i)).toArray

/-- The twist of the `i`-th quadratic factor: odd powers of 17 in bit-reversed order. -/
def twists : List Nat := (List.range 128).map fun i => power 17 (2 * reverseBits i + 1)

/-- The transform below node `i`, `depth` levels deep. -/
def transformFrom : Nat → Nat → Poly → Poly
  | 0, _, f => f
  | depth + 1, i, f =>
    let (low, high) := f.splitAt (f.length / 2)
    let turned := scale (twiddles.getD i 0) high
    transformFrom depth (2 * i) (add low turned) ++ transformFrom depth (2 * i + 1) (sub low turned)

/-- The number-theoretic transform. -/
def transform (f : Poly) : Poly := transformFrom 7 1 f

/-- The inverse below the node that faces node `i` of its level, without the final scaling. -/
def invertFrom : Nat → Nat → Poly → Poly
  | 0, _, f => f
  | depth + 1, i, f =>
    let (first, second) := f.splitAt (f.length / 2)
    let low := invertFrom depth (2 * i + 1) first
    let high := invertFrom depth (2 * i) second
    add low high ++ scale (twiddles.getD i 0) (sub high low)

/-- The inverse transform; 3303 is the inverse of 128. -/
def invert (f : Poly) : Poly := scale 3303 (invertFrom 7 1 f)

/-- Products of linear polynomials modulo a quadratic factor each. -/
def mulPairs : List Nat → Poly → Poly → Poly
  | twist :: twists, a0 :: a1 :: a, b0 :: b1 :: b =>
    (a0 * b0 + a1 * b1 % q * twist) % q :: (a0 * b1 + a1 * b0) % q :: mulPairs twists a b
  | _, _, _ => []

/-- The product of two transformed polynomials. -/
def mul (a b : Poly) : Poly := mulPairs twists a b

/-- The inner product of two vectors of transformed polynomials. -/
def dot (a b : List Poly) : Poly := (List.zipWith mul a b).foldl add zero

end Poly

end RingAgreement.MlKem
