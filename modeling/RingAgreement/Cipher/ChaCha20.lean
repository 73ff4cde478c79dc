import RingAgreement.Bytes.Order
/-!
The ChaCha20 block function and key stream (RFC 8439), and HChaCha20, which derives the key for
long nonces. The state is a matrix of four rows; a quarter round acts on all four columns at
once, and the diagonal round is a column round between two rotations of the rows.
-/

namespace RingAgreement.ChaCha20

/-- Four words of one row. -/
structure Row where
  w0 : UInt32
  w1 : UInt32
  w2 : UInt32
  w3 : UInt32

namespace Row

@[inline] def add (r s : Row) : Row := ⟨r.w0 + s.w0, r.w1 + s.w1, r.w2 + s.w2, r.w3 + s.w3⟩

/-- The exclusive or of two rows, each word rotated left by `k`. -/
@[inline] def mix (r s : Row) (k : UInt32) : Row :=
  ⟨rotate (r.w0 ^^^ s.w0), rotate (r.w1 ^^^ s.w1), rotate (r.w2 ^^^ s.w2), rotate (r.w3 ^^^ s.w3)⟩
where
  @[inline] rotate (w : UInt32) : UInt32 := (w <<< k) ||| (w >>> (32 - k))

def words (r : Row) : List UInt32 := [r.w0, r.w1, r.w2, r.w3]

/-- The row starting at a word position; missing words are zero. -/
def ofWords (w : List UInt32) (start : Nat) : Row :=
  ⟨w.getD start 0, w.getD (start + 1) 0, w.getD (start + 2) 0, w.getD (start + 3) 0⟩

end Row

structure Matrix where
  a : Row
  b : Row
  c : Row
  d : Row

namespace Matrix

def add (m n : Matrix) : Matrix := ⟨m.a.add n.a, m.b.add n.b, m.c.add n.c, m.d.add n.d⟩

/-- Quarter rounds on the four columns. -/
@[inline] def columnRound (m : Matrix) : Matrix :=
  let a := m.a.add m.b
  let d := m.d.mix a 16
  let c := m.c.add d
  let b := m.b.mix c 12
  let a := a.add b
  let d := d.mix a 8
  let c := c.add d
  let b := b.mix c 7
  ⟨a, b, c, d⟩

/-- Moves the diagonals into the columns. -/
@[inline] def skew (m : Matrix) : Matrix :=
  ⟨m.a, ⟨m.b.w1, m.b.w2, m.b.w3, m.b.w0⟩, ⟨m.c.w2, m.c.w3, m.c.w0, m.c.w1⟩,
    ⟨m.d.w3, m.d.w0, m.d.w1, m.d.w2⟩⟩

/-- Moves the columns back into the diagonals. -/
@[inline] def unskew (m : Matrix) : Matrix :=
  ⟨m.a, ⟨m.b.w3, m.b.w0, m.b.w1, m.b.w2⟩, ⟨m.c.w2, m.c.w3, m.c.w0, m.c.w1⟩,
    ⟨m.d.w1, m.d.w2, m.d.w3, m.d.w0⟩⟩

def doubleRound (m : Matrix) : Matrix := m.columnRound.skew.columnRound.unskew

/-- Ten double rounds. -/
def scrambled (m : Matrix) : Matrix := Nat.repeat doubleRound 10 m

def words (m : Matrix) : List UInt32 := m.a.words ++ m.b.words ++ m.c.words ++ m.d.words

end Matrix

/-- The constants in the first row. -/
def sigma : Row := ⟨0x61707865, 0x3320646e, 0x79622d32, 0x6b206574⟩

def initial (key : Bytes 32) (last : Row) : Matrix :=
  let words := Bytes.words32LE key.toList
  ⟨sigma, .ofWords words 0, .ofWords words 4, last⟩

/-- The sixteen output words for a key and a last row of counter and nonce. -/
def blockWords (key : Bytes 32) (last : Row) : List UInt32 :=
  let m := initial key last
  (m.scrambled.add m).words

/-- One block of key stream. -/
def block (key : Bytes 32) (last : Row) : Bytes 64 :=
  .fit 64 ((blockWords key last).flatMap Bytes.ofWord32LE)

/-- The last row for a 32-bit block counter and a 12-byte nonce. -/
def counterRow (nonce : Bytes 12) (counter : Nat) : Row :=
  let words := Bytes.words32LE nonce.toList
  ⟨.ofNat counter, words.getD 0 0, words.getD 1 0, words.getD 2 0⟩

/-- `blocks` blocks of key stream, counted from `counter`. -/
def keyStream (key : Bytes 32) (nonce : Bytes 12) : Nat → Nat → List UInt8
  | _, 0 => []
  | counter, blocks + 1 =>
    (block key (counterRow nonce counter)).toList ++ keyStream key nonce (counter + 1) blocks

theorem length_keyStream (key : Bytes 32) (nonce : Bytes 12) (counter blocks : Nat) :
    (keyStream key nonce counter blocks).length = 64 * blocks := by
  induction blocks generalizing counter with
  | zero => rfl
  | succ blocks ih =>
    simp only [keyStream, List.length_append, ih, Bytes.length_toList]
    omega

/-- Encryption and decryption alike: the text with the key stream from `counter` added. -/
def apply (key : Bytes 32) (nonce : Bytes 12) (counter : Nat) (text : List UInt8) : List UInt8 :=
  List.zipWith (· ^^^ ·) text (keyStream key nonce counter ((text.length + 63) / 64))

/-- The key that HChaCha20 derives from a key and sixteen bytes of nonce. -/
def subkey (key : Bytes 32) (nonce : Bytes 16) : Bytes 32 :=
  let m := (initial key (.ofWords (Bytes.words32LE nonce.toList) 0)).scrambled
  .fit 32 ((m.a.words ++ m.d.words).flatMap Bytes.ofWord32LE)

end RingAgreement.ChaCha20
