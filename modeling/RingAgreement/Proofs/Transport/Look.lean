import RingAgreement.Proofs.Transport.Splitter
/-!
One look of a line reader at its stream. What the reader takes depends on the bytes that have
arrived and not on the pieces they have arrived in, and it is either the first result of the stream,
whatever arrives later, or nothing, and then nothing else could be told yet.
-/

namespace RingAgreement.LineReader

variable {budget : Nat} {bytes taken left : List UInt8}
variable {r : LineReader} {i : Inflow}

/-! ## Taking bytes -/

/-- What is taken off a stretch of bytes: everything up to a line end, or as much as the budget
allows, or all there is. -/
inductive Fetched (budget : Nat) : List UInt8 → List UInt8 → List UInt8 → Prop
  | complete {segment : List UInt8} (clean : newline ∉ segment) (fits : segment.length < budget)
      (left : List UInt8) :
      Fetched budget (segment ++ newline :: left) (segment ++ [newline]) left
  | spent {taken : List UInt8} (clean : newline ∉ taken) (full : taken.length = budget)
      (left : List UInt8) : Fetched budget (taken ++ left) taken left
  | exhausted {taken : List UInt8} (clean : newline ∉ taken) (short : taken.length < budget) :
      Fetched budget taken taken []

namespace Fetched

/-- Bytes that were taken before and hold no line end count as taken. -/
theorem prepend {before : List UInt8} (clean : newline ∉ before) (fits : before.length ≤ budget)
    (fetched : Fetched (budget - before.length) bytes taken left) :
    Fetched budget (before ++ bytes) (before ++ taken) left := by
  cases fetched with
  | @complete segment clean' short left =>
    rw [← List.append_assoc, ← List.append_assoc]
    exact .complete (by simp [clean, clean']) (by rw [List.length_append]; omega) left
  | spent clean' full left =>
    rw [← List.append_assoc]
    exact .spent (by simp [clean, clean']) (by rw [List.length_append]; omega) left
  | exhausted clean' short =>
    exact .exhausted (by simp [clean, clean']) (by rw [List.length_append]; omega)

theorem of_complete (fetched : Fetched budget bytes taken left)
    (complete : taken.getLast? = some newline) :
    ∃ segment, newline ∉ segment ∧ segment.length < budget ∧ taken = segment ++ [newline] ∧
      bytes = segment ++ newline :: left := by
  cases fetched with
  | complete clean fits => exact ⟨_, clean, fits, rfl, rfl⟩
  | spent clean => exact absurd (List.mem_of_getLast? complete) clean
  | exhausted clean => exact absurd (List.mem_of_getLast? complete) clean

theorem of_incomplete (fetched : Fetched budget bytes taken left)
    (incomplete : taken.getLast? ≠ some newline) :
    newline ∉ taken ∧ bytes = taken ++ left ∧ taken.length ≤ budget ∧
      (taken.length < budget → left = []) := by
  cases fetched with
  | complete => exact absurd List.getLast?_concat incomplete
  | spent clean full =>
    exact ⟨clean, rfl, Nat.le_of_eq full, fun short => absurd full (Nat.ne_of_lt short)⟩
  | exhausted clean short =>
    exact ⟨clean, (List.append_nil _).symm, Nat.le_of_lt short, fun _ => rfl⟩

theorem nil (budget : Nat) : Fetched budget [] [] [] := by
  cases budget with
  | zero => exact .spent List.not_mem_nil rfl []
  | succ budget => exact .exhausted List.not_mem_nil budget.succ_pos

end Fetched

theorem cut_eq (collected : List UInt8) (budget : Nat) (piece : List UInt8) :
    cut collected budget piece =
      (collected.reverse ++ (cut [] budget piece).1, (cut [] budget piece).2) := by
  induction piece generalizing collected budget with
  | nil => cases budget <;> simp [cut]
  | cons byte piece ih =>
    cases budget with
    | zero => simp [cut]
    | succ budget =>
      by_cases ends : byte = newline
      · simp [cut, ends]
      · rw [cut, cut, if_neg ends, if_neg ends, ih (byte :: collected), ih [byte]]
        simp

theorem fetched_cut (split : cut [] budget bytes = (taken, left)) :
    Fetched budget bytes taken left := by
  induction bytes generalizing budget taken left with
  | nil =>
    obtain ⟨rfl, rfl⟩ : [] = taken ∧ [] = left := by cases budget <;> simpa [cut] using split
    exact .nil budget
  | cons byte bytes ih =>
    cases budget with
    | zero =>
      obtain ⟨rfl, rfl⟩ : [] = taken ∧ byte :: bytes = left := by simpa [cut] using split
      exact .spent List.not_mem_nil rfl _
    | succ budget =>
      by_cases ends : byte = newline
      · obtain ⟨rfl, rfl⟩ : [byte] = taken ∧ bytes = left := by simpa [cut, ends] using split
        rw [ends]
        exact .complete List.not_mem_nil budget.succ_pos bytes
      · rw [cut, if_neg ends, cut_eq, Prod.mk.injEq] at split
        obtain ⟨rfl, rfl⟩ := split
        have clean : newline ∉ [byte] := by simpa using Ne.symm ends
        exact .prepend clean (Nat.le_add_left 1 budget) (ih rfl)

/-- What is taken does not depend on the pieces that the bytes come in. There is no further piece
when a line end is missing and the budget is not spent. -/
theorem fetched_gather (budget : Nat) (line : List UInt8) (pieces : List (List UInt8)) :
    ∃ taken, (gather budget line pieces).1 = line ++ taken ∧
      Fetched budget pieces.flatten taken (gather budget line pieces).2.flatten ∧
      (newline ∉ taken → taken.length < budget → (gather budget line pieces).2 = []) := by
  fun_induction gather budget line pieces with
  | case1 budget line => exact ⟨[], (List.append_nil _).symm, .nil budget, fun _ _ => rfl⟩
  | case2 budget line piece rest front split ends =>
    obtain ⟨segment, clean, fits, rfl, rfl⟩ := (fetched_cut split).of_complete ends
    refine ⟨_, rfl, ?_, fun unended => absurd (List.mem_of_getLast? ends) unended⟩
    rw [List.flatten_cons, List.append_assoc]
    exact .complete clean fits rest.flatten
  | case3 budget line piece rest front split ends ih =>
    obtain ⟨clean, rfl, fits, -⟩ := (fetched_cut split).of_incomplete ends
    obtain ⟨taken, result, later, last⟩ := ih
    refine ⟨front ++ taken, by rw [result, List.append_assoc], ?_, fun unended short => ?_⟩
    · rw [List.flatten_cons, List.append_nil]
      exact later.prepend clean fits
    · rw [List.mem_append, not_or] at unended
      rw [List.length_append] at short
      exact last unended.2 (by omega)
  | case4 budget line piece rest front left more split =>
    refine ⟨front, rfl, ?_⟩
    rw [List.flatten_cons, List.flatten_cons]
    cases fetched_cut split with
    | complete clean fits =>
      rw [List.append_assoc]
      exact ⟨.complete clean fits _, fun unended => absurd List.mem_concat_self unended⟩
    | spent clean full =>
      rw [List.append_assoc]
      exact ⟨.spent clean full _, fun _ short => absurd full (Nat.ne_of_lt short)⟩
    | exhausted => exact absurd rfl more

/-! ## The reader and what it has before it -/

/-- The bytes that have arrived and that no line was made of: the start of a line, which the reader
has, and what it has not read yet. -/
def ahead (r : LineReader) (i : Inflow) : List UInt8 := r.partialLine ++ i.pieces.flatten

/-- A reader between two looks: its partial line has no line end and is over the limit by one byte
at most. -/
structure Unfinished (r : LineReader) : Prop where
  clean : newline ∉ r.partialLine
  within : r.partialLine.length ≤ r.limit + 1

theorem unfinished_new (limit : Nat) : (new limit).Unfinished :=
  ⟨List.not_mem_nil, Nat.zero_le _⟩

theorem ahead_new (limit : Nat) (i : Inflow) : (new limit).ahead i = i.pieces.flatten := rfl

theorem ahead_push (r : LineReader) (i : Inflow) (read : List UInt8) :
    r.ahead (i.push read) = r.ahead i ++ read := by
  rw [ahead, ahead, Inflow.push, List.flatten_append, List.flatten_singleton, List.append_assoc]

theorem advance_fetched (unfinished : r.Unfinished) :
    Fetched (r.limit + 1) (r.ahead i) (r.advance i).1 (r.advance i).2.pieces.flatten := by
  obtain ⟨taken, line, fetched, -⟩ :=
    fetched_gather (r.limit + 1 - r.partialLine.length) r.partialLine i.pieces
  rw [show (r.advance i).1 = _ from line]
  exact fetched.prepend unfinished.clean unfinished.within

/-- With a line end, the partial line is the first segment of what is ahead. -/
theorem advance_complete (unfinished : r.Unfinished)
    (complete : (r.advance i).1.getLast? = some newline) :
    ∃ segment, newline ∉ segment ∧ segment.length ≤ r.limit ∧
      (r.advance i).1 = segment ++ [newline] ∧
      r.ahead i = segment ++ newline :: (r.advance i).2.pieces.flatten := by
  obtain ⟨segment, clean, fits, line, bytes⟩ := (advance_fetched unfinished).of_complete complete
  exact ⟨segment, clean, Nat.le_of_lt_succ fits, line, bytes⟩

/-- Without a line end, the partial line is in front of what is ahead. -/
theorem advance_incomplete (unfinished : r.Unfinished)
    (incomplete : (r.advance i).1.getLast? ≠ some newline) :
    Unfinished ⟨r.limit, (r.advance i).1⟩ ∧
      r.ahead i = ahead ⟨r.limit, (r.advance i).1⟩ (r.advance i).2 := by
  obtain ⟨clean, bytes, fits, -⟩ := (advance_fetched unfinished).of_incomplete incomplete
  exact ⟨⟨clean, fits⟩, bytes⟩

/-- A partial line within the limit is all there is. -/
theorem advance_short (unfinished : r.Unfinished)
    (incomplete : (r.advance i).1.getLast? ≠ some newline)
    (short : (r.advance i).1.length ≤ r.limit) :
    (r.advance i).2 = ⟨[], i.closed⟩ ∧ r.ahead i = (r.advance i).1 := by
  obtain ⟨taken, line, -, last⟩ :=
    fetched_gather (r.limit + 1 - r.partialLine.length) r.partialLine i.pieces
  have line : (r.advance i).1 = r.partialLine ++ taken := line
  obtain ⟨kept, bytes⟩ := advance_incomplete unfinished incomplete
  have clean := kept.clean
  rw [line, List.mem_append, not_or] at clean
  rw [line, List.length_append] at short
  have none : (r.advance i).2.pieces = [] := last clean.2 (by omega)
  refine ⟨congrArg (Inflow.mk · i.closed) none, ?_⟩
  rw [bytes, ahead, none, List.flatten_nil, List.append_nil]

theorem stripEnd_append_newline (segment : List UInt8) :
    stripEnd (segment ++ [newline]) = withoutReturn segment := by
  rw [stripEnd, withoutReturn, List.dropLast_concat]

/-! ## A look -/

/-- What a reading says of the bytes it was made from, given those that are left: it is the first
result of the stream, whatever arrives later, or it asks for more. The stream is known to have ended
when nothing can arrive any more. -/
inductive Tells (limit : Nat) (closed : Bool) (bytes : List UInt8) :
    Reading → List UInt8 → Prop
  | result {reading : Reading} {left : List UInt8} (settled : reading ≠ .paused .waiting)
      (ending : reading = .paused .ended → closed = true)
      (first : ∀ more, (closed = true → more = []) →
        reference limit (bytes ++ more) = .cons reading (reference limit (left ++ more))) :
      Tells limit closed bytes reading left
  | nothing {left : List UInt8} (unclosed : closed = false)
      (undecided : reference limit bytes = .const (.paused .ended))
      (same : ∀ more, reference limit (bytes ++ more) = reference limit (left ++ more)) :
      Tells limit closed bytes (.paused .waiting) left

/-- Bytes that make no difference to the results can be put in front. -/
theorem Tells.skip {limit : Nat} {closed : Bool} {before : List UInt8} {reading : Reading}
    (tells : Tells limit closed bytes reading left)
    (same : ∀ more, reference limit (before ++ more) = reference limit (bytes ++ more)) :
    Tells limit closed before reading left := by
  cases tells with
  | result settled ending first =>
    exact .result settled ending fun more last => (same more).trans (first more last)
  | nothing unclosed undecided later =>
    refine .nothing unclosed ?_ fun more => (same more).trans (later more)
    have here := same []
    rw [List.append_nil, List.append_nil] at here
    exact here.trans undecided

/-- The reading when it is the result of a call, and nothing while the call waits. -/
def Reading.settled (reading : Reading) : List Reading :=
  if reading = .paused .waiting then [] else [reading]

theorem Tells.reference {limit : Nat} {closed : Bool} {reading : Reading}
    (tells : Tells limit closed bytes reading left) (more : List UInt8)
    (last : closed = true → more = []) :
    reference limit (bytes ++ more) = reading.settled ++ₛ reference limit (left ++ more) := by
  cases tells with
  | result settled ending first =>
    rw [Reading.settled, if_neg settled]
    exact first more last
  | nothing unclosed undecided same => exact same more

/-- A call waits exactly when the stream goes on and nothing can be told of it yet. -/
theorem Tells.waiting_iff {limit : Nat} {closed : Bool} {reading : Reading}
    (tells : Tells limit closed bytes reading left) :
    reading = .paused .waiting ↔
      closed = false ∧ (LineReader.reference limit bytes).get 0 = .paused .ended := by
  cases tells with
  | result settled ending first =>
    refine iff_of_false settled fun ⟨unclosed, ended⟩ => ?_
    have here := first [] fun _ => rfl
    rw [List.append_nil] at here
    rw [here] at ended
    exact absurd (ending ended) (unclosed ▸ nofun)
  | nothing unclosed undecided same =>
    rw [undecided]
    exact iff_of_true rfl ⟨unclosed, rfl⟩

/-- What a look keeps, and what it tells. -/
structure Looked (r : LineReader) (i : Inflow) (reading : Reading) (r' : LineReader)
    (i' : Inflow) : Prop where
  limit : r'.limit = r.limit
  closed : i'.closed = i.closed
  unfinished : r'.Unfinished
  tells : Tells r.limit i.closed (r.ahead i) reading (r'.ahead i')

/-- A line that ends gives the readings of its segment first. -/
theorem reference_complete (unfinished : r.Unfinished)
    (complete : (r.advance i).1.getLast? = some newline) :
    ∃ segment, withoutReturn segment = stripEnd (r.advance i).1 ∧ ∀ more,
      reference r.limit (r.ahead i ++ more) =
        readings segment ++ₛ reference r.limit ((r.advance i).2.pieces.flatten ++ more) := by
  obtain ⟨segment, clean, fits, line, bytes⟩ := advance_complete unfinished complete
  refine ⟨segment, by rw [line, stripEnd_append_newline], fun more => ?_⟩
  rw [bytes, List.append_assoc, List.cons_append, reference_append_newline clean fits]

/-- A line that ends and gives something. -/
theorem looked_complete {reading : Reading} (unfinished : r.Unfinished)
    (complete : (r.advance i).1.getLast? = some newline)
    (settled : reading ≠ .paused .waiting) (going : reading ≠ .paused .ended)
    (gives : ∀ segment, withoutReturn segment = stripEnd (r.advance i).1 →
      readings segment = [reading]) :
    Looked r i reading (new r.limit) (r.advance i).2 := by
  obtain ⟨segment, text, first⟩ := reference_complete unfinished complete
  refine ⟨rfl, rfl, unfinished_new _, .result settled (fun ended => absurd ended going) ?_⟩
  intro more _
  rw [first more, gives segment text]
  rfl

/-- **A look tells the first result of the stream, or nothing could be told.** -/
theorem next_looked (unfinished : r.Unfinished) :
    Looked r i (r.next i).1 (r.next i).2.1 (r.next i).2.2 := by
  fun_induction next r i with
  | case1 r i line rest complete text blank ih =>
    obtain ⟨segment, same, first⟩ := reference_complete unfinished complete
    have nothing : readings segment = [] := by
      rw [readings, same, if_pos (List.isEmpty_iff.1 blank)]
    have looked := ih (unfinished_new _)
    refine ⟨looked.limit, looked.closed, looked.unfinished, looked.tells.skip fun more => ?_⟩
    exact (first more).trans (by rw [nothing]; rfl)
  | case2 r i line rest complete text nonempty read valid =>
    refine looked_complete unfinished complete (by simp) (by simp) fun segment same => ?_
    rw [readings, same, if_neg (mt List.isEmpty_iff.2 nonempty), valid]
  | case3 r i line rest complete text nonempty invalid =>
    refine looked_complete unfinished complete (by simp) (by simp) fun segment same => ?_
    rw [readings, same, if_neg (mt List.isEmpty_iff.2 nonempty), invalid]
  | case4 r i line rest incomplete exceeds =>
    obtain ⟨kept, bytes⟩ := advance_incomplete unfinished incomplete
    refine ⟨rfl, rfl, kept, .result (by simp) (by simp) fun more _ => ?_⟩
    rw [bytes, ahead, List.append_assoc, reference_of_overlong kept.clean exceeds]
    exact Stream'.const_eq _
  | case5 r i line rest incomplete short closed =>
    obtain ⟨kept, -⟩ := advance_incomplete unfinished incomplete
    obtain ⟨none, bytes⟩ := advance_short unfinished incomplete (Nat.not_lt.1 short)
    refine ⟨rfl, rfl, unfinished_new _, .result (by simp) (fun _ => closed) fun more last => ?_⟩
    rw [last closed, List.append_nil, List.append_nil, bytes, ahead_new,
      show rest = ⟨[], i.closed⟩ from none, List.flatten_nil,
      reference_of_clean kept.clean (Nat.not_lt.1 short),
      reference_of_clean List.not_mem_nil (Nat.zero_le _)]
    exact Stream'.const_eq _
  | case6 r i line rest incomplete short unclosed =>
    obtain ⟨kept, bytes⟩ := advance_incomplete unfinished incomplete
    obtain ⟨-, all⟩ := advance_short unfinished incomplete (Nat.not_lt.1 short)
    refine ⟨rfl, rfl, kept, .nothing (by simpa using unclosed) ?_ fun more => by rw [bytes]⟩
    rw [all]
    exact reference_of_clean kept.clean (Nat.not_lt.1 short)

end RingAgreement.LineReader
