import RingAgreement.Bytes.Basic
/-!
Numbers as byte strings, least or most significant byte first, and byte strings as lists of
machine words. A last incomplete word is dropped.
-/

namespace RingAgreement.Bytes

/-- The `width` low bytes of a number, least significant first. -/
def littleEndianList : Nat → Nat → List UInt8
  | 0, _ => []
  | width + 1, n => UInt8.ofNat n :: littleEndianList width (n / 256)

@[simp] theorem length_littleEndianList (width n : Nat) :
    (littleEndianList width n).length = width := by
  induction width generalizing n with
  | zero => rfl
  | succ width ih => simp [littleEndianList, ih]

/-- A number in `width` bytes, least significant first. -/
def littleEndian (width n : Nat) : Bytes width :=
  ⟨littleEndianList width n, by simp⟩

/-- A number in `width` bytes, most significant first. -/
def bigEndian (width n : Nat) : Bytes width :=
  ⟨(littleEndianList width n).reverse, by simp⟩

/-- The number whose bytes are given least significant first. -/
def ofLittleEndian (bytes : List UInt8) : Nat :=
  bytes.foldr (fun byte n => byte.toNat + 256 * n) 0

/-- The number whose bytes are given most significant first. -/
def ofBigEndian (bytes : List UInt8) : Nat :=
  bytes.foldl (fun n byte => 256 * n + byte.toNat) 0

/-- The 32-bit words of a string, each least significant byte first. -/
def words32LE : List UInt8 → List UInt32
  | a :: b :: c :: d :: rest =>
    (a.toUInt32 ||| b.toUInt32 <<< 8 ||| c.toUInt32 <<< 16 ||| d.toUInt32 <<< 24) :: words32LE rest
  | _ => []

/-- The 32-bit words of a string, each most significant byte first. -/
def words32BE : List UInt8 → List UInt32
  | a :: b :: c :: d :: rest =>
    (a.toUInt32 <<< 24 ||| b.toUInt32 <<< 16 ||| c.toUInt32 <<< 8 ||| d.toUInt32) :: words32BE rest
  | _ => []

/-- The 64-bit words of a string, each least significant byte first. -/
def words64LE : List UInt8 → List UInt64
  | a :: b :: c :: d :: e :: f :: g :: h :: rest =>
    (a.toUInt64 ||| b.toUInt64 <<< 8 ||| c.toUInt64 <<< 16 ||| d.toUInt64 <<< 24 |||
      e.toUInt64 <<< 32 ||| f.toUInt64 <<< 40 ||| g.toUInt64 <<< 48 ||| h.toUInt64 <<< 56) ::
      words64LE rest
  | _ => []

/-- The 64-bit words of a string, each most significant byte first. -/
def words64BE : List UInt8 → List UInt64
  | a :: b :: c :: d :: e :: f :: g :: h :: rest =>
    (a.toUInt64 <<< 56 ||| b.toUInt64 <<< 48 ||| c.toUInt64 <<< 40 ||| d.toUInt64 <<< 32 |||
      e.toUInt64 <<< 24 ||| f.toUInt64 <<< 16 ||| g.toUInt64 <<< 8 ||| h.toUInt64) ::
      words64BE rest
  | _ => []

def ofWord32LE (w : UInt32) : List UInt8 :=
  [w.toUInt8, (w >>> 8).toUInt8, (w >>> 16).toUInt8, (w >>> 24).toUInt8]

def ofWord32BE (w : UInt32) : List UInt8 :=
  [(w >>> 24).toUInt8, (w >>> 16).toUInt8, (w >>> 8).toUInt8, w.toUInt8]

def ofWord64LE (w : UInt64) : List UInt8 :=
  [w.toUInt8, (w >>> 8).toUInt8, (w >>> 16).toUInt8, (w >>> 24).toUInt8,
    (w >>> 32).toUInt8, (w >>> 40).toUInt8, (w >>> 48).toUInt8, (w >>> 56).toUInt8]

def ofWord64BE (w : UInt64) : List UInt8 := (ofWord64LE w).reverse

end RingAgreement.Bytes
