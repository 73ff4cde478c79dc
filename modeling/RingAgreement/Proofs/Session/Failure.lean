import RingAgreement.Proofs.Session.Coherence
/-!
What a failed check means. The checks look at the sum of the shares first and then at the commitments
in ring order, so their error tells what is wrong with the contributions. A session only answers
with such an error when it is given up, and it keeps the contributions that have failed.
-/

namespace RingAgreement

/-- The shares of a ring cancel out, and the commitment at a position is the first one that is made
again differently. -/
structure Roster.Misfit (K : Kem) (r : Roster) (c : Fin r.size → Contribution) (i : Fin r.size) :
    Prop where
  closed : Share.isClosed (List.ofFn fun j => (c j).share) = true
  earlier : ∀ j < i, (c j).OpensAt K (r.party j).publicKey j
  differs : ∃ again, Commitment.make K (r.party i).publicKey
    ((c i).share.commitmentMessage i) (c i).coin = .ok again ∧ again ≠ (c i).commitment

theorem Roster.Misfit.not_opens {K : Kem} {r : Roster} {c : Fin r.size → Contribution}
    {i : Fin r.size} (misfit : r.Misfit K c i) :
    ¬ (c i).OpensAt K (r.party i).publicKey i := by
  obtain ⟨again, made, differs⟩ := misfit.differs
  exact fun opens => differs (Except.ok.inj (made.symm.trans opens))

namespace Session

variable {K : Kem} {s : Session} {ρ : Type}

/-! ## Errors of the checks -/

/-- With all contributions there, the checks fail at the closure when the shares do not cancel out. -/
theorem verifiedShares_of_open {c : Fin s.roster.size → Contribution}
    (filled : ∀ i : Fin s.roster.size, s.slot i = some (c i))
    (unclosed : Share.isClosed (List.ofFn fun i => (c i).share) = false) :
    s.verifiedShares K = .error (.verification .closure) := by
  have shares : (List.ofFn c).map (·.share) = List.ofFn fun i => (c i).share := List.map_ofFn ..
  rw [verifiedShares, contributions?_of_filled filled]
  dsimp only
  rw [shares, unclosed]
  rfl

/-- The check of the commitments names the first one that is made again differently. -/
theorem checkCommitments_differs {start index : Nat} {entries : List (Party × Contribution)}
    (failed : checkCommitments K start entries = .error (.verification (.commitment index))) :
    ∃ k, ∃ h : k < entries.length, index = start + k ∧
      (∀ j (before : j < k), entries[j].2.OpensAt K entries[j].1.publicKey (start + j)) ∧
      ∃ again, Commitment.make K entries[k].1.publicKey
        (entries[k].2.share.commitmentMessage (start + k)) entries[k].2.coin = .ok again ∧
          again ≠ entries[k].2.commitment := by
  induction entries generalizing start with
  | nil => cases failed
  | cons entry rest ih =>
    obtain ⟨party, c⟩ := entry
    rw [checkCommitments] at failed
    split at failed
    next => cases failed
    next again made =>
      split at failed
      next same =>
        obtain ⟨k, inside, rfl, earlier, differs⟩ := ih failed
        have shift : ∀ j, start + (j + 1) = start + 1 + j := fun j => by omega
        refine ⟨k + 1, Nat.succ_lt_succ inside, (shift k).symm, fun j before => ?_, ?_⟩
        · cases j with
          | zero => exact made.trans (congrArg Except.ok same)
          | succ j =>
            rw [shift j]
            exact earlier j (Nat.lt_of_succ_lt_succ before)
        · rw [shift k]
          exact differs
      next differs =>
        cases failed
        exact ⟨0, Nat.succ_pos _, rfl, fun j before => absurd before (Nat.not_lt_zero j),
          again, made, differs⟩

theorem checkCommitments_of_differs {start k : Nat} {entries : List (Party × Contribution)}
    (inside : k < entries.length)
    (earlier : ∀ j (before : j < k), entries[j].2.OpensAt K entries[j].1.publicKey (start + j))
    (differs : ∃ again, Commitment.make K entries[k].1.publicKey
      (entries[k].2.share.commitmentMessage (start + k)) entries[k].2.coin = .ok again ∧
        again ≠ entries[k].2.commitment) :
    checkCommitments K start entries = .error (.verification (.commitment (start + k))) := by
  induction entries generalizing start k with
  | nil => cases inside
  | cons entry rest ih =>
    obtain ⟨party, c⟩ := entry
    cases k with
    | zero =>
      obtain ⟨again, made, differs⟩ := differs
      have made : Commitment.make K party.publicKey (c.share.commitmentMessage start) c.coin =
        .ok again := made
      rw [checkCommitments, made]
      exact if_neg differs
    | succ k =>
      have first : c.OpensAt K party.publicKey start := earlier 0 (Nat.succ_pos k)
      have shift : ∀ j, start + (j + 1) = start + 1 + j := fun j => by omega
      rw [Contribution.OpensAt] at first
      rw [checkCommitments, first]
      dsimp only
      rw [if_pos rfl, shift k]
      refine ih (Nat.lt_of_succ_lt_succ inside) (fun j before => ?_) ?_
      · rw [← shift j]
        exact earlier (j + 1) (Nat.succ_lt_succ before)
      · rw [← shift k]
        exact differs

/-- Once the shares cancel out, what the checks find is what they find in the commitments. -/
theorem verifiedShares_of_closed {c : Fin s.roster.size → Contribution}
    (filled : ∀ i : Fin s.roster.size, s.slot i = some (c i))
    (closed : Share.isClosed (List.ofFn fun i => (c i).share) = true) :
    s.verifiedShares K = (checkCommitments K 0 (s.roster.parties.zip (List.ofFn c))).map
      fun _ => some (List.ofFn fun i => (c i).share) := by
  have shares : (List.ofFn c).map (·.share) = List.ofFn fun i => (c i).share := List.map_ofFn ..
  rw [verifiedShares, contributions?_of_filled filled]
  dsimp only
  rw [shares, if_pos closed]

/-- The checks name a position exactly when its commitment is the first one that does not fit. -/
theorem verifiedShares_misfit_iff {index : Nat} :
    s.verifiedShares K = .error (.verification (.commitment index)) ↔
      ∃ (c : Fin s.roster.size → Contribution) (i : Fin s.roster.size), index = i ∧
        (∀ j : Fin s.roster.size, s.slot j = some (c j)) ∧ s.roster.Misfit K c i := by
  constructor
  · intro failed
    cases present : s.contributions? with
    | none => simp [verifiedShares, present] at failed
    | some cs =>
      obtain ⟨c, filled, rfl⟩ := filled_of_contributions? present
      cases closed : Share.isClosed (List.ofFn fun i => (c i).share) with
      | false =>
        rw [verifiedShares_of_open filled closed] at failed
        cases failed
      | true =>
        rw [verifiedShares_of_closed filled closed] at failed
        cases checked : checkCommitments K 0 (s.roster.parties.zip (List.ofFn c)) with
        | ok =>
          rw [checked] at failed
          cases failed
        | error e =>
          rw [checked] at failed
          obtain rfl : e = .verification (.commitment index) := Except.error.inj failed
          obtain ⟨k, inside, here, earlier, differs⟩ := checkCommitments_differs checked
          rw [length_entries] at inside
          simp only [getElem_entries, Nat.zero_add] at here earlier differs
          exact ⟨c, ⟨k, inside⟩, here, filled, closed, fun j before => earlier j before, differs⟩
  · rintro ⟨c, i, rfl, filled, misfit⟩
    have inside : i.val < (s.roster.parties.zip (List.ofFn c)).length :=
      (length_entries c).symm ▸ i.isLt
    have checked : checkCommitments K 0 (s.roster.parties.zip (List.ofFn c)) =
        .error (.verification (.commitment (0 + i))) := by
      refine checkCommitments_of_differs inside (fun j before => ?_) ?_
      · simp only [getElem_entries, Nat.zero_add]
        exact misfit.earlier ⟨j, Nat.lt_trans before i.isLt⟩ before
      · simp only [getElem_entries, Nat.zero_add]
        exact misfit.differs
    rw [verifiedShares_of_closed filled misfit.closed, checked, Nat.zero_add]
    rfl

theorem SameParty.verifiedShares_of_open {start : Session} (member : start.SameParty s)
    {c : Fin start.roster.size → Contribution}
    (filled : ∀ k : Fin start.roster.size, s.slot k = some (c k))
    (unclosed : Share.isClosed (List.ofFn fun k => (c k).share) = false) :
    s.verifiedShares K = .error (.verification .closure) := by
  obtain ⟨state, progress, rfl⟩ := member
  exact Session.verifiedShares_of_open filled unclosed

theorem SameParty.verifiedShares_misfit_iff {start : Session} (member : start.SameParty s)
    {index : Nat} : s.verifiedShares K = .error (.verification (.commitment index)) ↔
      ∃ (c : Fin start.roster.size → Contribution) (i : Fin start.roster.size), index = i ∧
        (∀ j : Fin start.roster.size, s.slot j = some (c j)) ∧ start.roster.Misfit K c i := by
  obtain ⟨state, progress, rfl⟩ := member
  exact Session.verifiedShares_misfit_iff

/-! ## Errors of a step -/

/-- The end of a step fails with what the checks fail with. -/
theorem verifiedShares_of_conclude {actions : List SessionAction} {source : ρ}
    {error : SessionError} (failed : (s.conclude K actions source).result = .error error) :
    s.verifiedShares K = .error error := by
  unfold conclude finish at failed
  grind

/-- A session that was given up because its contributions fail the checks. -/
structure Rejected (K : Kem) (s : Session) (failure : VerificationFailure) : Prop where
  aborted : s.state = .aborted
  keyless : s.groupKey = none
  erased : s.progress.keyLeft = none ∧ s.progress.keyRight = none ∧ s.progress.transcript = none
  fails : s.verifiedShares K = .error (.verification failure)

theorem Running.conclude_of_failed (running : s.Running) {failure : VerificationFailure}
    (failed : s.verifiedShares K = .error (.verification failure)) (actions : List SessionAction)
    (source : ρ) :
    s.conclude K actions source = ⟨.error (.verification failure), s.abandoned, source⟩ := by
  simp [conclude, finish, running.keyless, failed]

theorem Running.rejected_abandoned (running : s.Running) {failure : VerificationFailure}
    (failed : s.verifiedShares K = .error (.verification failure)) :
    s.abandoned.Rejected K failure :=
  ⟨rfl, running.keyless, ⟨rfl, rfl, rfl⟩, failed⟩

/-- The end of a step ends the run only when the checks fail. -/
theorem Running.rejected_of_conclude (running : s.Running) {actions : List SessionAction}
    {source : ρ} {error : SessionError}
    (failed : (s.conclude K actions source).result = .error error) (fatal : error.isFatal = true) :
    ∃ failure, error = .verification failure ∧
      (s.conclude K actions source).session.Rejected K failure := by
  have checked := verifiedShares_of_conclude failed
  have ended := s.conclude_cases K running actions source
  generalize s.conclude K actions source = outcome at ended failed
  cases ended with
  | waiting => cases failed
  | completed => cases failed
  | aborted failure =>
    cases failed
    exact ⟨failure, rfl, running.rejected_abandoned checked⟩
  | refused =>
    cases failed
    cases fatal

variable [RandomSource ρ]

theorem Running.rejected_of_advance (running : s.Running) {actions : List SessionAction}
    {source : ρ} {error : SessionError}
    (failed : (s.advance K actions source).result = .error error) (fatal : error.isFatal = true) :
    ∃ failure, error = .verification failure ∧
      (s.advance K actions source).session.Rejected K failure := by
  have ended := s.advance_cases K actions source
  generalize s.advance K actions source = outcome at ended failed
  cases ended with
  | silent undue ended =>
    subst ended
    exact running.rejected_of_conclude failed fatal
  | broadcast right left c due rightKey leftKey share coin opens ended =>
    subst ended
    have still := running.withContribution s.own c
    exact still.rejected_of_conclude failed fatal
  | refused =>
    cases failed
    cases fatal

theorem Refuses.mild {event : SessionEvent} {source source' : ρ} {error : SessionError}
    (reason : s.Refuses K event source error source') : error.isFatal = false := by
  cases reason <;> rfl

/-- A session that is not aborted yet answers with a fatal error when its checks fail. -/
theorem Coherent.rejected_of_fatal (coherent : s.Coherent K) (alive : s.state ≠ .aborted)
    {event : SessionEvent} {source : ρ} {error : SessionError}
    (failed : (s.handle K event source).result = .error error) (fatal : error.isFatal = true) :
    ∃ failure, error = .verification failure ∧
      (s.handle K event source).session.Rejected K failure := by
  have step := s.handle_cases K alive event source
  generalize s.handle K event source = outcome at step failed
  cases step with
  | ignored => cases failed
  | refused reason =>
    cases failed
    rw [reason.mild] at fatal
    cases fatal
  | accepted write advanced =>
    subst advanced
    have running := (coherent.prepared_of_accepts alive write).toRunning
    exact running.rejected_of_advance failed fatal

/-- A session that answers with a fatal error is aborted. -/
theorem Coherent.aborted_of_fatal (coherent : s.Coherent K) {event : SessionEvent} {source : ρ}
    {error : SessionError} (failed : (s.handle K event source).result = .error error)
    (fatal : error.isFatal = true) : (s.handle K event source).session.state = .aborted := by
  by_cases aborted : s.state = .aborted
  · rw [s.handle_aborted K aborted]
    exact aborted
  · obtain ⟨_, _, rejected⟩ := coherent.rejected_of_fatal aborted failed fatal
    exact rejected.aborted

end Session

end RingAgreement
