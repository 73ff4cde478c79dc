import RingAgreement.Cipher.ChaCha20
import RingAgreement.Random.Source
/-!
A deterministic generator: the ChaCha20 key stream of a seed with a 64-bit block counter and a
zero nonce, read as a sequence of 32-bit words.
-/

namespace RingAgreement

/-- A key stream and the number of its words already used. -/
structure StreamSource where
  seed : Bytes 32
  position : Nat
deriving DecidableEq

namespace StreamSource

def ofSeed (seed : Bytes 32) : StreamSource := ⟨seed, 0⟩

/-- The steps that widen a 64-bit seed into 32 bytes: a linear congruential state, of which
every step gives out one word, shifted and rotated by its own top bits. -/
def expandSeed : Nat → UInt64 → List UInt32
  | 0, _ => []
  | words + 1, state =>
    let state := state * 6364136223846793005 + 11634580027462260723
    let mixed := (((state >>> 18) ^^^ state) >>> 27).toUInt32
    let turn := (state >>> 59).toUInt32
    ((mixed >>> turn) ||| (mixed <<< ((32 - turn) &&& 31))) :: expandSeed words state

def ofNumber (seed : UInt64) : StreamSource :=
  ofSeed (.fit 32 ((expandSeed 8 seed).flatMap Bytes.ofWord32LE))

/-- The last row of the state matrix for a 64-bit block counter. -/
def counterRow (counter : Nat) : ChaCha20.Row :=
  ⟨.ofNat counter, .ofNat (counter / UInt32.size), 0, 0⟩

/-- The next `count` words. -/
def words (count : Nat) (s : StreamSource) : List UInt32 :=
  let skipped := s.position % 16
  let block (i : Nat) := ChaCha20.blockWords s.seed (counterRow (s.position / 16 + i))
  (((List.range ((skipped + count + 15) / 16)).flatMap block).drop skipped).take count

/-- The next bytes; the unused bytes of the last word are skipped. -/
def draw (n : Nat) (s : StreamSource) : Bytes n × StreamSource :=
  let count := (n + 3) / 4
  (.fit n ((s.words count).flatMap Bytes.ofWord32LE), { s with position := s.position + count })

instance : RandomSource StreamSource := ⟨draw⟩

/-- The next two words as one number, low word first. -/
def next64 (s : StreamSource) : UInt64 × StreamSource :=
  let drawn := s.words 2
  ((drawn.getD 0 0).toUInt64 ||| (drawn.getD 1 0).toUInt64 <<< 32,
    { s with position := s.position + 2 })

/-- A new generator seeded from this one. -/
def fork (s : StreamSource) : StreamSource × StreamSource :=
  let (seed, rest) := s.draw 32
  (ofSeed seed, rest)

end StreamSource

end RingAgreement
