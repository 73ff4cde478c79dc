import RingAgreement.Proofs.Session.Enabled
/-!
How a session starts: once, by sending its offer. A start that fails leaves the session as it was,
and a session that was not started cannot come to the end of its run, so it cannot have failed
before.
-/

namespace RingAgreement.Session

variable {K : Kem} {s : Session} {ρ : Type} [RandomSource ρ]

/-- The ways a start can end. -/
inductive Starts (K : Kem) (s : Session) (source : ρ) : SessionOutcome ρ → Prop
  | ended (aborted : s.state = .aborted) : Starts K s source ⟨.error .aborted, s, source⟩
  | again (begun : s.progress.initiated = true) :
      Starts K s source ⟨.error (.alreadyStarted s.state), s, source⟩
  | unopened {fault : CryptoError} (fresh : s.progress.initiated = false)
      (failed : Handshake.initiate K (s.roster.party (s.roster.right s.own)).publicKey
        (RandomSource.draw 32 source).1 = .error fault) :
      Starts K s source ⟨.error (.crypto fault), s, (RandomSource.draw 32 source).2⟩
  | opened {offer : Handshake.Offer} {transcript : Handshake.Transcript}
      (fresh : s.progress.initiated = false)
      (made : Handshake.initiate K (s.roster.party (s.roster.right s.own)).publicKey
        (RandomSource.draw 32 source).1 = .ok (offer, transcript)) :
      Starts K s source ⟨.ok [.send (s.envelope (.akeInit offer))],
        (s.opened transcript).refreshed, (RandomSource.draw 32 source).2⟩

/-- A session that was not started has no right key, so it waits after its start. -/
theorem Coherent.start_opened (coherent : s.Coherent K) (alive : s.state ≠ .aborted) {source : ρ}
    {offer : Handshake.Offer} {transcript : Handshake.Transcript}
    (fresh : s.progress.initiated = false)
    (made : Handshake.initiate K (s.roster.party (s.roster.right s.own)).publicKey
      (RandomSource.draw 32 source).1 = .ok (offer, transcript)) :
    s.handle K .start source = ⟨.ok [.send (s.envelope (.akeInit offer))],
      (s.opened transcript).refreshed, (RandomSource.draw 32 source).2⟩ := by
  have write : s.Accepts K .start source (s.opened transcript) _ _ := .start fresh made
  have prepared := coherent.prepared_of_accepts alive write
  have keyless : s.progress.keyRight = none := by
    refine Option.not_isSome_iff_eq_none.1 fun keyed => ?_
    rw [coherent.begun (.inr keyed)] at fresh
    cases fresh
  have due : (s.opened transcript).slot (s.opened transcript).own = none := by
    refine Option.eq_none_iff_forall_not_mem.2 fun c present => ?_
    obtain ⟨right, _, rightKey, _⟩ := prepared.shared c present
    rw [show s.progress.keyRight = some right from rightKey] at keyless
    cases keyless
  rw [write.handle_eq alive]
  exact prepared.advance_waiting due (.inl keyless) _ _

theorem start_unopened (alive : s.state ≠ .aborted) {source : ρ} {fault : CryptoError}
    (fresh : s.progress.initiated = false)
    (failed : Handshake.initiate K (s.roster.party (s.roster.right s.own)).publicKey
      (RandomSource.draw 32 source).1 = .error fault) :
    s.handle K .start source =
      ⟨.error (.crypto fault), s, (RandomSource.draw 32 source).2⟩ := by
  rw [handle, if_neg alive]
  simp only [start, fresh, Bool.false_eq_true, if_false, failed]

theorem Coherent.starts (coherent : s.Coherent K) (source : ρ) :
    s.Starts K source (s.handle K .start source) := by
  by_cases aborted : s.state = .aborted
  · rw [s.handle_aborted K aborted]
    exact .ended aborted
  cases begun : s.progress.initiated with
  | true =>
    have refused : s.handle K .start source = ⟨.error (.alreadyStarted s.state), s, source⟩ := by
      rw [Session.handle, if_neg aborted]
      simp only [start, begun, if_true]
    rw [refused]
    exact .again begun
  | false =>
    cases tried : Handshake.initiate K (s.roster.party (s.roster.right s.own)).publicKey
        (RandomSource.draw 32 source).1 with
    | error fault =>
      rw [start_unopened aborted begun tried]
      exact .unopened begun tried
    | ok made =>
      rw [coherent.start_opened aborted begun tried]
      exact .opened begun tried

/-! ## Aborted sessions -/

omit [RandomSource ρ] in
theorem Prepared.initiated_of_conclude_aborted (prepared : s.Prepared)
    (actions : List SessionAction) (source : ρ)
    (aborted : (s.conclude K actions source).session.state = .aborted) :
    s.progress.initiated = true := by
  have filled := prepared.toRunning.filled_of_conclude_aborted aborted s.own
  obtain ⟨c, present⟩ := Option.isSome_iff_exists.1 filled
  obtain ⟨right, _, rightKey, _⟩ := prepared.shared c present
  exact prepared.begun (.inr (by rw [rightKey]; rfl))

theorem Prepared.initiated_of_aborted (prepared : s.Prepared) (actions : List SessionAction)
    (source : ρ) (aborted : (s.advance K actions source).session.state = .aborted) :
    s.progress.initiated = true := by
  have ended := s.advance_cases K actions source
  generalize s.advance K actions source = outcome at ended aborted
  cases ended with
  | silent undue ended =>
    subst ended
    exact prepared.initiated_of_conclude_aborted actions source aborted
  | broadcast right left c due rightKey => exact prepared.begun (.inr (by rw [rightKey]; rfl))
  | refused right left error due rightKey => exact prepared.begun (.inr (by rw [rightKey]; rfl))

/-- Only a session that was started aborts. -/
theorem Coherent.initiated_of_aborted (coherent : s.Coherent K)
    (kept : s.state = .aborted → s.progress.initiated = true) (event : SessionEvent) (source : ρ)
    (aborted : (s.handle K event source).session.state = .aborted) :
    (s.handle K event source).session.progress.initiated = true := by
  have step := coherent.stepped event source
  generalize s.handle K event source = outcome at step aborted
  cases step with
  | kept => exact kept aborted
  | @written s' actions source' _ _ prepared =>
    rw [(s'.follows_advance K actions source').initiated]
    exact prepared.initiated_of_aborted actions source' aborted

theorem Coherent.initiated_of_aborted_after (coherent : s.Coherent K)
    (kept : s.state = .aborted → s.progress.initiated = true)
    (inputs : List (SessionEvent × ρ)) (aborted : (s.after K inputs).state = .aborted) :
    (s.after K inputs).progress.initiated = true := by
  induction inputs generalizing s with
  | nil => exact kept aborted
  | cons input rest ih =>
    exact ih (coherent.handle input.1 input.2)
      (coherent.initiated_of_aborted kept input.1 input.2) aborted

end RingAgreement.Session
