/-!
Byte strings. A string of arbitrary length is a `List UInt8`; `Bytes n` is a string of
exactly `n` bytes, so keys, tags and seeds carry their width in their type.
-/

namespace RingAgreement

/-- A byte string of exactly `n` bytes. -/
structure Bytes (n : Nat) where
  toList : List UInt8
  length_toList : toList.length = n
deriving DecidableEq, Repr

namespace Bytes

variable {m n : Nat}

/-- The string itself, if it has the required width. -/
def ofList? (n : Nat) (bytes : List UInt8) : Option (Bytes n) :=
  if h : bytes.length = n then some ⟨bytes, h⟩ else none

/-- The first `n` bytes, followed by zeros when there are fewer. -/
def fit (n : Nat) (bytes : List UInt8) : Bytes n :=
  ⟨bytes.take n ++ List.replicate (n - bytes.length) 0, by simp; omega⟩

/-- `n` copies of one byte. -/
def replicate (n : Nat) (byte : UInt8) : Bytes n :=
  ⟨List.replicate n byte, by simp⟩

/-- The all-zero string. -/
def zero (n : Nat) : Bytes n := replicate n 0

def append (a : Bytes m) (b : Bytes n) : Bytes (m + n) :=
  ⟨a.toList ++ b.toList, by simp [a.length_toList, b.length_toList]⟩

theorem length_take_toList (a : Bytes n) {k : Nat} (h : k ≤ n) : (a.toList.take k).length = k := by
  simp [a.length_toList]
  omega

/-- The first `k` bytes. -/
def take (a : Bytes n) (k : Nat) (h : k ≤ n := by decide) : Bytes k :=
  ⟨a.toList.take k, length_take_toList a h⟩

/-- All bytes after the first `k`. -/
def drop (a : Bytes n) (k : Nat) : Bytes (n - k) :=
  ⟨a.toList.drop k, by simp [a.length_toList]⟩

/-- Both halves of 64 bytes. -/
def halves (a : Bytes 64) : Bytes 32 × Bytes 32 := (a.take 32, a.drop 32)

/-- Bytewise exclusive or. -/
def xor (a b : Bytes n) : Bytes n :=
  ⟨List.zipWith (· ^^^ ·) a.toList b.toList, by simp [a.length_toList, b.length_toList]⟩

instance : Inhabited (Bytes n) := ⟨zero n⟩

instance : HAppend (Bytes m) (Bytes n) (Bytes (m + n)) := ⟨append⟩

instance : XorOp (Bytes n) := ⟨xor⟩

@[ext] theorem ext {a b : Bytes n} (h : a.toList = b.toList) : a = b := by
  cases a; cases b; simp_all

@[simp] theorem toList_append (a : Bytes m) (b : Bytes n) :
    (a ++ b).toList = a.toList ++ b.toList := rfl

@[simp] theorem toList_xor (a b : Bytes n) :
    (a ^^^ b).toList = List.zipWith (· ^^^ ·) a.toList b.toList := rfl

@[simp] theorem toList_take (a : Bytes n) (k : Nat) (h : k ≤ n) :
    (a.take k h).toList = a.toList.take k := rfl

@[simp] theorem toList_drop (a : Bytes n) (k : Nat) : (a.drop k).toList = a.toList.drop k := rfl

theorem toList_fit {bytes : List UInt8} (h : bytes.length = n) : (fit n bytes).toList = bytes := by
  subst h
  simp [fit]

theorem ofList?_eq_some_iff {bytes : List UInt8} {a : Bytes n} :
    ofList? n bytes = some a ↔ bytes = a.toList := by
  unfold ofList?
  constructor
  · intro h
    split at h
    · cases h; rfl
    · cases h
  · rintro rfl
    simp [a.length_toList]

theorem ofList?_eq_none_iff {bytes : List UInt8} : ofList? n bytes = none ↔ bytes.length ≠ n := by
  unfold ofList?
  split <;> simp_all

end Bytes

end RingAgreement
