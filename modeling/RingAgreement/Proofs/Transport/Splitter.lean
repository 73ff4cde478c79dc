import Mathlib.Data.Stream.Init
import RingAgreement.Transport.LineReader
/-!
What a line reader is to give of a stream as a whole: the stream is split at its line ends, and each
segment has its result. A segment over the limit, and the end of the stream, are the last thing that
a reader has to tell, and it tells them again whenever it is asked.
-/

namespace RingAgreement.LineReader

/-- A segment without a carriage return at its end. -/
def withoutReturn (segment : List UInt8) : List UInt8 :=
  if segment.getLast? = some carriageReturn then segment.dropLast else segment

/-- What a segment before a line end gives: its text, or nothing when it is empty. -/
def readings (segment : List UInt8) : List Reading :=
  if withoutReturn segment = [] then []
  else
    match Text.ofUtf8? (withoutReturn segment) with
    | some line => [.line line]
    | none => [.paused (.failed .notUnicode)]

def overlong (limit : Nat) : Reading := .paused (.failed (.lineTooLong limit))

/-- The results for the segments of a stream, of which the last one has no line end. -/
def results (limit : Nat) : List (List UInt8) → Stream' Reading
  | [] => .const (.paused .ended)
  | [last] => .const (if limit < last.length then overlong limit else .paused .ended)
  | segment :: rest =>
    if limit < segment.length then .const (overlong limit)
    else readings segment ++ₛ results limit rest

/-- The results that a whole stream is to give, one call after the other. -/
def reference (limit : Nat) (stream : List UInt8) : Stream' Reading :=
  results limit (stream.splitOn newline)

variable {limit : Nat} {segment : List UInt8}

theorem results_cons (segment : List UInt8) {rest : List (List UInt8)} (more : rest ≠ []) :
    results limit (segment :: rest) =
      if limit < segment.length then .const (overlong limit)
      else readings segment ++ₛ results limit rest := by
  cases rest with
  | nil => exact absurd rfl more
  | cons => rfl

/-- A segment with its line end comes first. -/
theorem reference_append_newline (clean : newline ∉ segment) (fits : segment.length ≤ limit)
    (rest : List UInt8) :
    reference limit (segment ++ newline :: rest) = readings segment ++ₛ reference limit rest := by
  rw [reference, List.splitOn_append_cons_self_of_not_mem clean,
    results_cons _ (List.splitOn_ne_nil _ _), if_neg (Nat.not_lt.2 fits), reference]

/-- A stream within the limit and without a line end gives nothing. -/
theorem reference_of_clean (clean : newline ∉ segment) (fits : segment.length ≤ limit) :
    reference limit segment = .const (.paused .ended) := by
  rw [reference, List.splitOn_eq_singleton clean, results, if_neg (Nat.not_lt.2 fits)]

/-- What is put before the first line end of a stream belongs to its first segment. -/
theorem splitOn_append_of_notMem (clean : newline ∉ segment) (rest : List UInt8) :
    (segment ++ rest).splitOn newline =
      (rest.splitOn newline).modifyHead (segment ++ ·) := by
  induction segment with
  | nil => exact (congrFun List.modifyHead_id _).symm
  | cons byte segment ih =>
    rw [List.mem_cons, not_or] at clean
    have other : ¬(byte == newline) = true := by simpa using Ne.symm clean.1
    rw [List.cons_append, List.splitOn_cons_eq_if_modifyHead, if_neg other, ih clean.2,
      List.modifyHead_modifyHead]
    rfl

/-- Once a segment is over the limit, it does not matter what follows. -/
theorem reference_of_overlong (clean : newline ∉ segment) (exceeds : limit < segment.length)
    (rest : List UInt8) : reference limit (segment ++ rest) = .const (overlong limit) := by
  have longer (more : List UInt8) : limit < (segment ++ more).length := by
    rw [List.length_append]
    omega
  rw [reference, splitOn_append_of_notMem clean]
  cases split : rest.splitOn newline with
  | nil => exact absurd split (List.splitOn_ne_nil _ _)
  | cons first others =>
    rw [List.modifyHead_cons]
    cases others with
    | nil => rw [results, if_pos (longer first)]
    | cons => rw [results_cons _ (by simp), if_pos (longer first)]

/-- A carriage return counts for the limit, although it would not belong to the line. -/
example : (reference 2 [97, 98, carriageReturn, newline, 99, newline]).take 2 =
    [overlong 2, overlong 2] := by decide

end RingAgreement.LineReader
