import RingAgreement.Bytes.Order
/-!
SHA-256 (FIPS 180-4).
-/

namespace RingAgreement.Sha256

def rotateRight (w k : UInt32) : UInt32 := (w >>> k) ||| (w <<< (32 - k))

/-- The eight working variables, and the chaining value between blocks. -/
structure Registers where
  a : UInt32
  b : UInt32
  c : UInt32
  d : UInt32
  e : UInt32
  f : UInt32
  g : UInt32
  h : UInt32

namespace Registers

def initial : Registers :=
  ⟨0x6a09e667, 0xbb67ae85, 0x3c6ef372, 0xa54ff53a, 0x510e527f, 0x9b05688c, 0x1f83d9ab, 0x5be0cd19⟩

def add (r s : Registers) : Registers :=
  ⟨r.a + s.a, r.b + s.b, r.c + s.c, r.d + s.d, r.e + s.e, r.f + s.f, r.g + s.g, r.h + s.h⟩

/-- One round with a schedule word and its constant. -/
def round (r : Registers) (word constant : UInt32) : Registers :=
  let choice := (r.e &&& r.f) ^^^ (~~~r.e &&& r.g)
  let majority := (r.a &&& r.b) ^^^ (r.a &&& r.c) ^^^ (r.b &&& r.c)
  let sigma1 := rotateRight r.e 6 ^^^ rotateRight r.e 11 ^^^ rotateRight r.e 25
  let sigma0 := rotateRight r.a 2 ^^^ rotateRight r.a 13 ^^^ rotateRight r.a 22
  let t1 := r.h + sigma1 + choice + constant + word
  ⟨t1 + (sigma0 + majority), r.a, r.b, r.c, r.d + t1, r.e, r.f, r.g⟩

def toBytes (r : Registers) : List UInt8 :=
  [r.a, r.b, r.c, r.d, r.e, r.f, r.g, r.h].flatMap Bytes.ofWord32BE

end Registers

def constants : List UInt32 :=
  [0x428a2f98, 0x71374491, 0xb5c0fbcf, 0xe9b5dba5, 0x3956c25b, 0x59f111f1, 0x923f82a4, 0xab1c5ed5,
    0xd807aa98, 0x12835b01, 0x243185be, 0x550c7dc3, 0x72be5d74, 0x80deb1fe, 0x9bdc06a7, 0xc19bf174,
    0xe49b69c1, 0xefbe4786, 0x0fc19dc6, 0x240ca1cc, 0x2de92c6f, 0x4a7484aa, 0x5cb0a9dc, 0x76f988da,
    0x983e5152, 0xa831c66d, 0xb00327c8, 0xbf597fc7, 0xc6e00bf3, 0xd5a79147, 0x06ca6351, 0x14292967,
    0x27b70a85, 0x2e1b2138, 0x4d2c6dfc, 0x53380d13, 0x650a7354, 0x766a0abb, 0x81c2c92e, 0x92722c85,
    0xa2bfe8a1, 0xa81a664b, 0xc24b8b70, 0xc76c51a3, 0xd192e819, 0xd6990624, 0xf40e3585, 0x106aa070,
    0x19a4c116, 0x1e376c08, 0x2748774c, 0x34b0bcb5, 0x391c0cb3, 0x4ed8aa4a, 0x5b9cca4f, 0x682e6ff3,
    0x748f82ee, 0x78a5636f, 0x84c87814, 0x8cc70208, 0x90befffa, 0xa4506ceb, 0xbef9a3f7, 0xc67178f2]

/-- The message schedule: sixteen words of the block, each later word mixed from four earlier
ones. -/
def schedule (block : List UInt32) : Array UInt32 :=
  (List.range 48).foldl extend block.toArray
where
  extend (w : Array UInt32) (i : Nat) : Array UInt32 :=
    let w15 := w.getD (i + 1) 0
    let w2 := w.getD (i + 14) 0
    let sigma0 := rotateRight w15 7 ^^^ rotateRight w15 18 ^^^ (w15 >>> 3)
    let sigma1 := rotateRight w2 17 ^^^ rotateRight w2 19 ^^^ (w2 >>> 10)
    w.push (w.getD i 0 + sigma0 + w.getD (i + 9) 0 + sigma1)

def compress (chain : Registers) (block : List UInt32) : Registers :=
  let rounds := (schedule block).toList.zip constants
  chain.add (rounds.foldl (fun r step => r.round step.1 step.2) chain)

/-- The message, a one bit, zeros up to eight bytes before a block border, and the length in
bits. -/
def padded (message : List UInt8) : List UInt8 :=
  message ++ 0x80 :: (List.replicate ((119 - message.length % 64) % 64) 0 ++
    (Bytes.bigEndian 8 (8 * message.length)).toList)

def digestBlocks : Nat → List UInt32 → Registers → Registers
  | 0, _, chain => chain
  | blocks + 1, words, chain =>
    digestBlocks blocks (words.drop 16) (compress chain (words.take 16))

def hash (message : List UInt8) : Bytes 32 :=
  let words := Bytes.words32BE (padded message)
  .fit 32 (digestBlocks (words.length / 16) words .initial).toBytes

end RingAgreement.Sha256
