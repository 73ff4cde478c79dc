import RingAgreement.Bytes.Order
/-!
The permutation Keccak-f[1600] and the SHA-3 functions built on it (FIPS 202). A state is five
planes of five 64-bit lanes; each step of a round is written on whole planes.
-/

namespace RingAgreement.Keccak

def rotate (w : UInt64) (k : UInt64) : UInt64 := (w <<< k) ||| (w >>> (64 - k))

/-- The five lanes of one plane, by their first coordinate. -/
structure Plane where
  x0 : UInt64
  x1 : UInt64
  x2 : UInt64
  x3 : UInt64
  x4 : UInt64

namespace Plane

@[inline] def xor (a b : Plane) : Plane :=
  ⟨a.x0 ^^^ b.x0, a.x1 ^^^ b.x1, a.x2 ^^^ b.x2, a.x3 ^^^ b.x3, a.x4 ^^^ b.x4⟩

/-- The row map χ: a lane is flipped where its right neighbour is clear and the next one set. -/
@[inline] def chi (a : Plane) : Plane :=
  ⟨a.x0 ^^^ (~~~a.x1 &&& a.x2), a.x1 ^^^ (~~~a.x2 &&& a.x3), a.x2 ^^^ (~~~a.x3 &&& a.x4),
    a.x3 ^^^ (~~~a.x4 &&& a.x0), a.x4 ^^^ (~~~a.x0 &&& a.x1)⟩

def lanes (a : Plane) : List UInt64 := [a.x0, a.x1, a.x2, a.x3, a.x4]

def ofLanes (w : Array UInt64) (start : Nat) : Plane :=
  ⟨w.getD start 0, w.getD (start + 1) 0, w.getD (start + 2) 0, w.getD (start + 3) 0,
    w.getD (start + 4) 0⟩

end Plane

/-- The five planes, by their second coordinate. -/
structure State where
  y0 : Plane
  y1 : Plane
  y2 : Plane
  y3 : Plane
  y4 : Plane

namespace State

def lanes (s : State) : List UInt64 :=
  s.y0.lanes ++ s.y1.lanes ++ s.y2.lanes ++ s.y3.lanes ++ s.y4.lanes

/-- The state with the given lanes in order; missing lanes are zero. -/
def ofLanes (w : List UInt64) : State :=
  let w := w.toArray
  ⟨.ofLanes w 0, .ofLanes w 5, .ofLanes w 10, .ofLanes w 15, .ofLanes w 20⟩

def zero : State := ofLanes []

def xor (s t : State) : State :=
  ⟨s.y0.xor t.y0, s.y1.xor t.y1, s.y2.xor t.y2, s.y3.xor t.y3, s.y4.xor t.y4⟩

/-- θ: every lane takes in the parities of two neighbouring columns. -/
@[inline] def theta (s : State) : State :=
  let c := (((s.y0.xor s.y1).xor s.y2).xor s.y3).xor s.y4
  let d : Plane :=
    ⟨c.x4 ^^^ rotate c.x1 1, c.x0 ^^^ rotate c.x2 1, c.x1 ^^^ rotate c.x3 1,
      c.x2 ^^^ rotate c.x4 1, c.x3 ^^^ rotate c.x0 1⟩
  ⟨s.y0.xor d, s.y1.xor d, s.y2.xor d, s.y3.xor d, s.y4.xor d⟩

/-- ρ and π: every lane is rotated by its own offset and moved to its new place. -/
@[inline] def rhoPi (s : State) : State where
  y0 := ⟨s.y0.x0, rotate s.y1.x1 44, rotate s.y2.x2 43, rotate s.y3.x3 21, rotate s.y4.x4 14⟩
  y1 := ⟨rotate s.y0.x3 28, rotate s.y1.x4 20, rotate s.y2.x0 3, rotate s.y3.x1 45,
    rotate s.y4.x2 61⟩
  y2 := ⟨rotate s.y0.x1 1, rotate s.y1.x2 6, rotate s.y2.x3 25, rotate s.y3.x4 8,
    rotate s.y4.x0 18⟩
  y3 := ⟨rotate s.y0.x4 27, rotate s.y1.x0 36, rotate s.y2.x1 10, rotate s.y3.x2 15,
    rotate s.y4.x3 56⟩
  y4 := ⟨rotate s.y0.x2 62, rotate s.y1.x3 55, rotate s.y2.x4 39, rotate s.y3.x0 41,
    rotate s.y4.x1 2⟩

@[inline] def chi (s : State) : State :=
  ⟨s.y0.chi, s.y1.chi, s.y2.chi, s.y3.chi, s.y4.chi⟩

/-- ι: the round constant goes into the first lane. -/
@[inline] def iota (constant : UInt64) (s : State) : State :=
  { s with y0 := { s.y0 with x0 := s.y0.x0 ^^^ constant } }

def round (s : State) (constant : UInt64) : State := (s.theta.rhoPi.chi).iota constant

end State

def roundConstants : List UInt64 :=
  [0x0000000000000001, 0x0000000000008082, 0x800000000000808a, 0x8000000080008000,
    0x000000000000808b, 0x0000000080000001, 0x8000000080008081, 0x8000000000008009,
    0x000000000000008a, 0x0000000000000088, 0x0000000080008009, 0x000000008000000a,
    0x000000008000808b, 0x800000000000008b, 0x8000000000008089, 0x8000000000008003,
    0x8000000000008002, 0x8000000000000080, 0x000000000000800a, 0x800000008000000a,
    0x8000000080008081, 0x8000000000008080, 0x0000000080000001, 0x8000000080008008]

/-- The permutation Keccak-f[1600]. -/
def permute (s : State) : State := roundConstants.foldl State.round s

/-- The message with its domain suffix and the closing bit, filled up to whole blocks of
`rate` lanes. -/
def padded (rate : Nat) (suffix : UInt8) (message : List UInt8) : List UInt8 :=
  let width := 8 * rate
  let gap := width - message.length % width
  if gap = 1 then message ++ [suffix ||| 0x80]
  else message ++ suffix :: (List.replicate (gap - 2) 0 ++ [0x80])

/-- Takes in a number of blocks of `rate` lanes. -/
def absorb (rate : Nat) : Nat → List UInt64 → State → State
  | 0, _, s => s
  | blocks + 1, words, s =>
    absorb rate blocks (words.drop rate) (permute (s.xor (.ofLanes (words.take rate))))

/-- The state after the whole padded message. -/
def absorbed (rate : Nat) (suffix : UInt8) (message : List UInt8) : State :=
  let words := Bytes.words64LE (padded rate suffix message)
  absorb rate (message.length / (8 * rate) + 1) words .zero

/-- One output block. -/
def outputBlock (rate : Nat) (s : State) : List UInt8 :=
  (s.lanes.take rate).flatMap Bytes.ofWord64LE

/-- Rate in lanes of SHAKE128. -/
def shake128Rate : Nat := 21

/-- The state from which the output of SHAKE128 is read, block by block. -/
def shake128 (message : List UInt8) : State := absorbed shake128Rate 0x1f message

/-- The first `blocks` output blocks of SHAKE256. -/
def shake256 (blocks : Nat) (message : List UInt8) : List UInt8 :=
  go blocks (absorbed 17 0x1f message)
where
  go : Nat → State → List UInt8
    | 0, _ => []
    | 1, s => outputBlock 17 s
    | blocks + 1, s => outputBlock 17 s ++ go blocks (permute s)

def sha3_256 (message : List UInt8) : Bytes 32 :=
  .fit 32 (outputBlock 17 (absorbed 17 0x06 message))

def sha3_512 (message : List UInt8) : Bytes 64 :=
  .fit 64 (outputBlock 9 (absorbed 9 0x06 message))

end RingAgreement.Keccak
