import RingAgreement.Proofs.Transport.Call
/-!
The reading end of a connection over its whole life. Bytes arrive read by read, somebody polls for
lines, and a call that waits can be dropped at any time. The results, one call after the other, are
those that `reference` gives for the stream as a whole.
-/

namespace RingAgreement.LineReader

/-- A reader with its stream, the call that waits, if there is one, and the reads that are still to
come. The bytes that have arrived and the results so far are kept to be talked about. -/
structure Reception where
  reader : LineReader
  inflow : Inflow
  waiting : Option Call
  coming : List (List UInt8)
  seen : List UInt8
  results : List Reading

/-- What can happen next. The stream ends behind the last read. -/
inductive Happening where
  | arrives
  | polled
  | dropped
deriving DecidableEq, Repr

namespace Reception

variable {limit : Nat} {reads : List (List UInt8)} {s : Reception}

def start (limit : Nat) (reads : List (List UInt8)) : Reception :=
  ⟨.new limit, .empty, none, reads, [], []⟩

/-- The call that waits is polled again; when none does, there is a new one. -/
def poll (s : Reception) : Turn :=
  (s.waiting.getD (.start s.reader)).poll s.reader s.inflow

def step (s : Reception) : Happening → Reception
  | .arrives =>
    match s.coming with
    | [] => { s with inflow := s.inflow.close }
    | read :: coming =>
      { s with inflow := s.inflow.push read, coming := coming, seen := s.seen ++ read }
  | .polled =>
    let turn := s.poll
    { s with
      reader := turn.reader, inflow := turn.inflow, waiting := turn.ongoing,
      results := s.results ++ turn.reading.settled }
  | .dropped => { s with waiting := none }

def run (s : Reception) (happenings : List Happening) : Reception := happenings.foldl step s

/-- What holds of a reception at every moment. -/
structure Sound (limit : Nat) (reads : List (List UInt8)) (s : Reception) : Prop where
  limited : s.reader.limit = limit
  unfinished : s.reader.Unfinished
  fits : ∀ c, s.waiting = some c → c.Fits s.reader
  whole : s.seen ++ s.coming.flatten = reads.flatten
  last : s.inflow.closed = true → s.coming = []
  /-- Whatever arrives later, the results so far come first, and those of what is ahead next. -/
  told : ∀ more, (s.inflow.closed = true → more = []) →
    reference limit (s.seen ++ more) =
      s.results ++ₛ reference limit (s.reader.ahead s.inflow ++ more)

theorem sound_start (limit : Nat) (reads : List (List UInt8)) :
    Sound limit reads (start limit reads) where
  limited := rfl
  unfinished := unfinished_new limit
  fits := nofun
  whole := rfl
  last := nofun
  told _ _ := rfl

namespace Sound

theorem call_fits (sound : Sound limit reads s) :
    (s.waiting.getD (.start s.reader)).Fits s.reader := by
  cases waits : s.waiting with
  | none => exact Call.start_fits sound.unfinished
  | some c => exact sound.fits c waits

/-- A poll is a look, whether it starts a call or goes on with one. -/
theorem poll_eq_next (sound : Sound limit reads s) :
    (s.poll.reading, s.poll.reader, s.poll.inflow) = s.reader.next s.inflow :=
  Call.poll_eq_next sound.unfinished sound.call_fits

theorem poll_looked (sound : Sound limit reads s) :
    Looked s.reader s.inflow s.poll.reading s.poll.reader s.poll.inflow := by
  have looked := next_looked (i := s.inflow) sound.unfinished
  rwa [← sound.poll_eq_next] at looked

theorem arrives (sound : Sound limit reads s) : Sound limit reads (s.step .arrives) := by
  cases coming : s.coming with
  | nil =>
    simp only [step, coming]
    have whole := sound.whole
    rw [coming] at whole
    exact { sound with
      whole := whole
      last := fun _ => rfl
      told := fun more last => sound.told more fun _ => last rfl }
  | cons read rest =>
    have unclosed : s.inflow.closed ≠ true := fun closed => by
      have := sound.last closed
      simp [coming] at this
    simp only [step, coming]
    refine { sound with whole := ?_, last := fun closed => absurd closed unclosed, told := ?_ }
    · rw [← sound.whole, coming, List.flatten_cons, List.append_assoc]
    · intro more _
      rw [ahead_push, List.append_assoc, List.append_assoc]
      exact sound.told (read ++ more) fun closed => absurd closed unclosed

theorem polled (sound : Sound limit reads s) : Sound limit reads (s.step .polled) := by
  have looked := sound.poll_looked
  have fits (c : Call) (waits : s.poll.ongoing = some c) : c.Fits s.poll.reader :=
    Call.ongoing_fits sound.unfinished sound.call_fits waits
  refine ⟨looked.limit.trans sound.limited, looked.unfinished, fits, sound.whole, ?_, ?_⟩
  · intro closed
    exact sound.last (looked.closed ▸ closed)
  · intro more last
    have last (closed : s.inflow.closed = true) : more = [] := last (looked.closed.trans closed)
    have told := looked.tells.reference more last
    rw [sound.limited] at told
    rw [step, sound.told more last, told, Stream'.append_append_stream]

end Sound

theorem Sound.step (sound : Sound limit reads s) (happening : Happening) :
    Sound limit reads (s.step happening) := by
  cases happening with
  | arrives => exact sound.arrives
  | polled => exact sound.polled
  | dropped => exact { sound with fits := nofun }

theorem Sound.run (sound : Sound limit reads s) (happenings : List Happening) :
    Sound limit reads (s.run happenings) := by
  induction happenings generalizing s with
  | nil => exact sound
  | cons happening happenings ih => exact ih (sound.step happening)

/-- The results of a reception are those of the whole stream, as many as there are. -/
theorem Sound.results_eq (sound : Sound limit reads s) :
    s.results = (reference limit reads.flatten).take s.results.length := by
  have told := sound.told s.coming.flatten fun closed => by rw [sound.last closed, List.flatten_nil]
  rw [sound.whole] at told
  rw [told, Stream'.take_append_of_le_length _ _ _ (Nat.le_refl _), List.take_length]

theorem Sound.waits_iff (sound : Sound limit reads s) :
    s.poll.reading = .paused .waiting ↔ s.inflow.closed = false ∧
      (reference limit s.seen).get s.results.length = .paused .ended := by
  have told := sound.told [] fun _ => rfl
  rw [List.append_nil, List.append_nil] at told
  rw [sound.poll_looked.tells.waiting_iff, sound.limited, told, Stream'.get_append_length]

/-- Behind the end of the stream every call has a result. -/
theorem Sound.length_results (sound : Sound limit reads s) (closed : s.inflow.closed = true)
    (calls : Nat) :
    (s.run (.replicate calls .polled)).results.length = s.results.length + calls := by
  induction calls generalizing s with
  | zero => rfl
  | succ calls ih =>
    have settled : s.poll.reading ≠ .paused .waiting := fun waits => by
      have unclosed := (sound.waits_iff.1 waits).1
      rw [closed] at unclosed
      cases unclosed
    have result : (s.step .polled).results = s.results ++ [s.poll.reading] := by
      rw [Reception.step, Reading.settled, if_neg settled]
    have closed' : (s.step .polled).inflow.closed = true := sound.poll_looked.closed.trans closed
    rw [List.replicate_succ, Reception.run, List.foldl_cons, ← Reception.run,
      ih (sound.step .polled) closed', result, List.length_append, List.length_singleton]
    omega

/-- **A reader gives the results of the whole stream, however the stream is cut into reads and
whichever waiting calls are dropped.** At every moment the results are the first of them. A call
waits only while the stream goes on and the part of it that has arrived has no further result, so
behind the end the calls give all the results there are. Going on with a call and starting a new
one come to the same. -/
theorem framing_follows_reference (limit : Nat) (reads : List (List UInt8))
    (happenings : List Happening) :
    let s := (start limit reads).run happenings
    s.results = (reference limit reads.flatten).take s.results.length ∧
    s.seen ++ s.coming.flatten = reads.flatten ∧
    (s.poll.reading = .paused .waiting ↔ s.inflow.closed = false ∧
      (reference limit s.seen).get s.results.length = .paused .ended) ∧
    (s.inflow.closed = true → ∀ calls,
      (s.run (.replicate calls .polled)).results =
        (reference limit reads.flatten).take (s.results.length + calls)) ∧
    (s.poll.reading, s.poll.reader, s.poll.inflow) = s.reader.next s.inflow := by
  intro s
  have sound : Sound limit reads s := (sound_start limit reads).run happenings
  refine ⟨sound.results_eq, sound.whole, sound.waits_iff, fun closed calls => ?_,
    sound.poll_eq_next⟩
  have later := (sound.run (.replicate calls .polled)).results_eq
  rwa [sound.length_results closed] at later

end Reception

end RingAgreement.LineReader
