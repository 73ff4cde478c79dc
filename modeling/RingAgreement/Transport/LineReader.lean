import RingAgreement.Ring.PartyId
import RingAgreement.Service.Error
import RingAgreement.Wire.Envelope
/-!
Lines of text out of a byte stream that arrives in pieces. A reader keeps the start of a line
until the rest has arrived, so it does not matter where the pieces end or how often the reader
finds nothing to read. Empty lines are passed over, and a carriage return before the line end
belongs to it. A line over the limit cannot be skipped: the reader stays at it.
-/

namespace RingAgreement

def newline : UInt8 := 10

def carriageReturn : UInt8 := 13

/-- What has arrived on a connection and is not read yet. -/
structure Inflow where
  pieces : List (List UInt8)
  closed : Bool
deriving DecidableEq, Repr

namespace Inflow

def empty : Inflow := ⟨[], false⟩

def push (piece : List UInt8) (i : Inflow) : Inflow := { i with pieces := i.pieces ++ [piece] }

def close (i : Inflow) : Inflow := { i with closed := true }

end Inflow

/-- A reader of lines of at most `limit` bytes, with the start of the next line. -/
structure LineReader where
  limit : Nat
  partialLine : List UInt8
deriving DecidableEq, Repr

namespace LineReader

def new (limit : Nat) : LineReader := ⟨limit, []⟩

/-- Why there is no further line, at least for now. -/
inductive Pause where
  | failed (fault : TransportFault)
  | ended
  | waiting
deriving DecidableEq, Repr

/-- What a look at the stream gives. -/
inductive Reading where
  | line (text : String)
  | paused (why : Pause)
deriving DecidableEq, Repr

/-- Cuts a piece after its first line end, and after `budget` bytes at the latest. What comes
before the cut is put behind bytes collected in reverse. -/
def cut (collected : List UInt8) : Nat → List UInt8 → List UInt8 × List UInt8
  | 0, piece => (collected.reverse, piece)
  | _, [] => (collected.reverse, [])
  | budget + 1, b :: rest =>
    if b = newline then ((b :: collected).reverse, rest) else cut (b :: collected) budget rest

/-- Moves bytes to the partial line, up to a line end and at most `budget`. -/
def gather (budget : Nat) (line : List UInt8) : List (List UInt8) → List UInt8 × List (List UInt8)
  | [] => (line, [])
  | piece :: rest =>
    match cut [] budget piece with
    | (front, []) =>
      if front.getLast? = some newline then (line ++ front, rest)
      else gather (budget - front.length) (line ++ front) rest
    | (front, left) => (line ++ front, left :: rest)

/-- The line without its line end. -/
def stripEnd (line : List UInt8) : List UInt8 :=
  let line := line.dropLast
  if line.getLast? = some carriageReturn then line.dropLast else line

/-- What a reader gets of a line that is written with a line end behind it: a carriage return at its
end is taken for a part of the line end. -/
def arrived (line : String) : String :=
  match line.toList.reverse with
  | '\r' :: rest => .ofList rest.reverse
  | _ => line

/-- The number of bytes that are not read yet. -/
def unread (pieces : List (List UInt8)) : Nat := pieces.flatten.length

theorem length_cut (collected : List UInt8) (budget : Nat) (piece : List UInt8) :
    (cut collected budget piece).1.length + (cut collected budget piece).2.length =
      collected.length + piece.length := by
  fun_induction cut collected budget piece <;> simp_all <;> omega

theorem length_gather (budget : Nat) (line : List UInt8) (pieces : List (List UInt8)) :
    (gather budget line pieces).1.length + unread (gather budget line pieces).2 =
      line.length + unread pieces := by
  fun_induction gather budget line pieces with
  | case1 => rfl
  | case2 budget line piece rest front split _ =>
    have := length_cut [] budget piece
    simp_all [unread]
    omega
  | case3 budget line piece rest front split _ ih =>
    have := length_cut [] budget piece
    simp_all [unread]
    omega
  | case4 budget line piece rest front left _ split =>
    have := length_cut [] budget piece
    simp_all [unread]
    omega

/-- A line end that has been moved is one byte less to read. -/
theorem unread_gather_lt {budget : Nat} {line : List UInt8} {pieces : List (List UInt8)}
    (complete : (gather budget line pieces).1.getLast? = some newline) :
    unread (gather budget line pieces).2 < line.length + unread pieces := by
  have total := length_gather budget line pieces
  have : (gather budget line pieces).1 ≠ [] := by
    intro nothing
    simp [nothing] at complete
  have := List.length_pos_iff.2 this
  omega

/-- The bytes that the next lines can come from. -/
def outstanding (r : LineReader) (i : Inflow) : Nat := r.partialLine.length + unread i.pieces

theorem outstanding_new (limit : Nat) (i : Inflow) :
    (new limit).outstanding i = unread i.pieces :=
  Nat.zero_add _

/-- The partial line with what the stream adds to it, and what is left of the stream. -/
def advance (r : LineReader) (i : Inflow) : List UInt8 × Inflow :=
  let (line, pieces) := gather (r.limit + 1 - r.partialLine.length) r.partialLine i.pieces
  (line, { i with pieces })

/-- A line that has been read leaves less behind. -/
theorem outstanding_new_lt {r : LineReader} {i : Inflow}
    (complete : (r.advance i).1.getLast? = some newline) :
    (new r.limit).outstanding (r.advance i).2 < r.outstanding i := by
  rw [outstanding_new]
  exact unread_gather_lt complete

/-- The next line of the stream, the reader after it and what is still unread. -/
def next (r : LineReader) (i : Inflow) : Reading × LineReader × Inflow :=
  let line := (r.advance i).1
  let rest := (r.advance i).2
  if _complete : (r.advance i).1.getLast? = some newline then
    let text := stripEnd line
    if text.isEmpty then next (new r.limit) rest
    else
      match Text.ofUtf8? text with
      | some text => (.line text, new r.limit, rest)
      | none => (.paused (.failed .notUnicode), new r.limit, rest)
  else if line.length > r.limit then
    (.paused (.failed (.lineTooLong r.limit)), ⟨r.limit, line⟩, rest)
  else if i.closed then (.paused .ended, new r.limit, rest)
  else (.paused .waiting, ⟨r.limit, line⟩, rest)
termination_by r.outstanding i
decreasing_by exact outstanding_new_lt _complete

theorem outstanding_next {r r' : LineReader} {i i' : Inflow} {text : String}
    (h : r.next i = (.line text, r', i')) : r'.outstanding i' < r.outstanding i := by
  fun_induction next r i with
  | case1 r i line rest complete text' _ ih =>
    exact Nat.lt_trans (ih h) (outstanding_new_lt complete)
  | case2 r i line rest complete text' _ read _ =>
    simp only [Prod.mk.injEq] at h
    obtain ⟨_, rfl, rfl⟩ := h
    exact outstanding_new_lt complete
  | _ => simp at h

/-- Lines read one after the other until there is no further line. -/
structure Intake where
  lines : List String
  pause : Pause
  reader : LineReader
  rest : Inflow
deriving DecidableEq, Repr

/-- Reads all lines that have arrived. -/
def readAll (r : LineReader) (i : Inflow) : Intake :=
  match _read : r.next i with
  | (.line text, reader, rest) =>
    let later := readAll reader rest
    { later with lines := text :: later.lines }
  | (.paused why, reader, rest) => ⟨[], why, reader, rest⟩
termination_by r.outstanding i
decreasing_by exact outstanding_next _read

end LineReader

/-- The envelopes among a stream's lines. Lines that are no envelopes are passed over. -/
def Envelope.ofLines (lines : List String) : List Envelope :=
  lines.filterMap fun line => (Envelope.ofJson line).toOption

end RingAgreement
