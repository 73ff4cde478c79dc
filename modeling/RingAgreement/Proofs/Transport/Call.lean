import RingAgreement.Proofs.Transport.Look
/-!
A call for a line as it goes on over several polls. While it waits, it keeps how many bytes it may
still take and how many it has taken, and the reader keeps the bytes themselves. A call that is
dropped takes the two numbers with it, and the next one works them out again; `poll_eq_next` shows
that this makes no difference.
-/

namespace RingAgreement.LineReader

/-- What a call for a line keeps while it waits. -/
structure Call where
  budget : Nat
  moved : Nat
deriving DecidableEq, Repr

/-- What a poll of a call gives, and the call itself when it goes on waiting. -/
structure Turn where
  reading : Reading
  ongoing : Option Call
  reader : LineReader
  inflow : Inflow

namespace Call

variable {c : Call} {r : LineReader} {i : Inflow}

/-- A call may take one byte more than the limit, the partial line counted. -/
def start (r : LineReader) : Call := ⟨r.limit + 1 - r.partialLine.length, 0⟩

/-- The partial line with what the call adds to it, and what is left of the stream. -/
def fetch (c : Call) (r : LineReader) (i : Inflow) : List UInt8 × Inflow :=
  let (line, pieces) := gather c.budget r.partialLine i.pieces
  (line, { i with pieces })

/-- The call after it has added to the partial line. -/
def after (c : Call) (r : LineReader) (line : List UInt8) : Call :=
  let added := line.length - r.partialLine.length
  ⟨c.budget - added, c.moved + added⟩

theorem length_fetch (c : Call) (r : LineReader) (i : Inflow) :
    (c.fetch r i).1.length + unread (c.fetch r i).2.pieces = r.outstanding i :=
  length_gather _ _ _

theorem length_le_fetch (c : Call) (r : LineReader) (i : Inflow) :
    r.partialLine.length ≤ (c.fetch r i).1.length := by
  obtain ⟨taken, line, -⟩ := fetched_gather c.budget r.partialLine i.pieces
  rw [show (c.fetch r i).1 = _ from line, List.length_append]
  exact Nat.le_add_right _ _

theorem outstanding_new_lt (complete : (c.fetch r i).1.getLast? = some newline) :
    (new r.limit).outstanding (c.fetch r i).2 < r.outstanding i := by
  rw [outstanding_new]
  exact unread_gather_lt complete

/-- A call that has taken something has less to take afterwards, or took it at an earlier poll. -/
theorem unread_lt_or_moved (still : (c.after r (c.fetch r i).1).moved ≠ 0) :
    unread (c.fetch r i).2.pieces < unread i.pieces ∨
      unread (c.fetch r i).2.pieces = unread i.pieces ∧ 0 < c.moved := by
  have total := length_fetch c r i
  have longer := length_le_fetch c r i
  simp only [after, outstanding] at *
  omega

/-- Polls a call: it takes what it may, and waits when it could take more. -/
def poll (c : Call) (r : LineReader) (i : Inflow) : Turn :=
  let line := (c.fetch r i).1
  let rest := (c.fetch r i).2
  let kept : LineReader := ⟨r.limit, line⟩
  if _complete : (c.fetch r i).1.getLast? = some newline then
    let text := stripEnd line
    if text.isEmpty then poll (start (new r.limit)) (new r.limit) rest
    else
      match Text.ofUtf8? text with
      | some text => ⟨.line text, none, new r.limit, rest⟩
      | none => ⟨.paused (.failed .notUnicode), none, new r.limit, rest⟩
  else if (c.after r line).budget ≠ 0 ∧ i.closed = false then
    ⟨.paused .waiting, some (c.after r line), kept, rest⟩
  else if line.length > r.limit then
    ⟨.paused (.failed (.lineTooLong r.limit)), none, kept, rest⟩
  else if _still : (c.after r line).moved = 0 then ⟨.paused .ended, none, new r.limit, rest⟩
  -- Only a pass that takes nothing knows that the stream is at its end.
  else poll (start kept) kept rest
termination_by (r.outstanding i, unread i.pieces, c.moved)
decreasing_by
  · exact .left _ _ (outstanding_new_lt _complete)
  · apply Prod.Lex.right' _ (Nat.le_of_eq (length_fetch c r i))
    obtain less | ⟨same, moved⟩ := unread_lt_or_moved _still
    · exact .left _ _ less
    · rw [same]
      exact .right _ moved

/-- What a call may still take is what the limit leaves to the partial line. -/
def Fits (c : Call) (r : LineReader) : Prop := c.budget + r.partialLine.length = r.limit + 1

theorem start_fits (unfinished : r.Unfinished) : (start r).Fits r :=
  Nat.sub_add_cancel unfinished.within

theorem fetch_eq_advance (fits : c.Fits r) : c.fetch r i = r.advance i := by
  rw [fetch, advance, Nat.eq_sub_of_add_eq fits]

/-- Without a line end, the reader keeps what the call has taken. -/
theorem fetch_incomplete (unfinished : r.Unfinished) (fits : c.Fits r)
    (incomplete : (c.fetch r i).1.getLast? ≠ some newline) :
    Unfinished ⟨r.limit, (c.fetch r i).1⟩ := by
  rw [fetch_eq_advance fits] at *
  exact (advance_incomplete unfinished incomplete).1

/-- When that is within the limit, nothing else has arrived. -/
theorem fetch_short (unfinished : r.Unfinished) (fits : c.Fits r)
    (incomplete : (c.fetch r i).1.getLast? ≠ some newline)
    (short : ¬(c.fetch r i).1.length > r.limit) : (c.fetch r i).2 = ⟨[], i.closed⟩ := by
  rw [fetch_eq_advance fits] at *
  exact (advance_short unfinished incomplete (Nat.not_lt.1 short)).1

theorem budget_after (unfinished : r.Unfinished) (fits : c.Fits r)
    (incomplete : (c.fetch r i).1.getLast? ≠ some newline) :
    (c.after r (c.fetch r i).1).budget + (c.fetch r i).1.length = r.limit + 1 := by
  have longer := length_le_fetch c r i
  have within := (fetch_incomplete unfinished fits incomplete).within
  simp only [Fits, after] at *
  omega

/-- A call that does not wait for the rest of a short line has come to the end of the stream. -/
theorem closed_of_stops (unfinished : r.Unfinished) (fits : c.Fits r)
    (incomplete : (c.fetch r i).1.getLast? ≠ some newline)
    (stops : ¬((c.after r (c.fetch r i).1).budget ≠ 0 ∧ i.closed = false))
    (short : ¬(c.fetch r i).1.length > r.limit) : i.closed = true := by
  have left := budget_after unfinished fits incomplete
  have more : (c.after r (c.fetch r i).1).budget ≠ 0 := by
    intro none
    omega
  exact eq_true_of_ne_false fun unclosed => stops ⟨more, unclosed⟩

/-- At the end of the stream nothing is added to the partial line. -/
theorem next_of_ended {limit : Nat} {line : List UInt8} (clean : newline ∉ line)
    (short : line.length ≤ limit) :
    next ⟨limit, line⟩ ⟨[], true⟩ = (.paused .ended, new limit, ⟨[], true⟩) := by
  rw [next]
  change (if _ : line.getLast? = some newline then _ else _) = _
  rw [dif_neg fun ends => clean (List.mem_of_getLast? ends)]
  change (if line.length > limit then _ else _) = _
  rw [if_neg (Nat.not_lt.2 short)]
  rfl

/-- **A poll of a call gives what a look gives, however often the call was polled before.** -/
theorem poll_eq_next (unfinished : r.Unfinished) (fits : c.Fits r) :
    ((c.poll r i).reading, (c.poll r i).reader, (c.poll r i).inflow) = r.next i := by
  fun_induction poll c r i with
  | case1 c r i line rest complete text blank ih =>
    rw [ih (unfinished_new _) (start_fits (unfinished_new _)), next.eq_def r i]
    simp only [← fetch_eq_advance fits]
    rw [dif_pos complete, if_pos blank]
  | case2 c r i line rest complete text nonempty read valid =>
    rw [next.eq_def r i]
    simp only [← fetch_eq_advance fits]
    rw [dif_pos complete, if_neg nonempty, valid]
  | case3 c r i line rest complete text nonempty invalid =>
    rw [next.eq_def r i]
    simp only [← fetch_eq_advance fits]
    rw [dif_pos complete, if_neg nonempty, invalid]
  | case4 c r i line rest kept incomplete waits =>
    rw [next.eq_def r i]
    simp only [← fetch_eq_advance fits]
    have left : (c.after r line).budget + line.length = r.limit + 1 :=
      budget_after unfinished fits incomplete
    have short : ¬line.length > r.limit := fun exceeds => waits.1 (by omega)
    rw [dif_neg incomplete, if_neg short, if_neg (Bool.eq_false_iff.1 waits.2)]
  | case5 c r i line rest kept incomplete stops exceeds =>
    rw [next.eq_def r i]
    simp only [← fetch_eq_advance fits]
    rw [dif_neg incomplete, if_pos exceeds]
  | case6 c r i line rest incomplete stops short still =>
    rw [next.eq_def r i]
    simp only [← fetch_eq_advance fits]
    rw [dif_neg incomplete, if_neg short,
      if_pos (closed_of_stops unfinished fits incomplete stops short)]
  | case7 c r i line rest kept incomplete stops short moved ih =>
    have closed := closed_of_stops unfinished fits incomplete stops short
    have unfinished' : kept.Unfinished := fetch_incomplete unfinished fits incomplete
    have none : rest = ⟨[], true⟩ := closed ▸ fetch_short unfinished fits incomplete short
    rw [ih unfinished' (start_fits unfinished'), none,
      next_of_ended unfinished'.clean (Nat.not_lt.1 short), next.eq_def r i]
    simp only [← fetch_eq_advance fits]
    rw [dif_neg incomplete, if_neg short, if_pos closed, ← none]

/-- A call that goes on waiting may still take what the limit leaves. -/
theorem ongoing_fits (unfinished : r.Unfinished) (fits : c.Fits r) {c' : Call}
    (waits : (c.poll r i).ongoing = some c') : c'.Fits (c.poll r i).reader := by
  fun_induction poll c r i with
  | case1 c r i line rest complete text blank ih =>
    exact ih (unfinished_new _) (start_fits (unfinished_new _)) waits
  | case4 c r i line rest kept incomplete more =>
    obtain rfl := Option.some.inj waits
    exact budget_after unfinished fits incomplete
  | case7 c r i line rest kept incomplete stops short moved ih =>
    have unfinished' : kept.Unfinished := fetch_incomplete unfinished fits incomplete
    exact ih unfinished' (start_fits unfinished') waits
  | _ => cases waits

end Call

end RingAgreement.LineReader
