import RingAgreement.Proofs.Session.Step
/-!
When a session has a group key. In every state that a session can reach, by whatever events, it is
established exactly when it holds a group key, and exactly when all contributions are there and pass
the checks; the group key is then derived from them.
-/

namespace RingAgreement.Session

variable {K : Kem} {ρ : Type} [RandomSource ρ]

/-! ## Runs -/

/-- The session of a party before its run. -/
def fresh (roster : Roster) (own : Fin roster.size) (secretKey : SecretKey) : Session :=
  ⟨roster, own, secretKey, .init, .initial roster.size⟩

/-- The session after events, each with the source of randomness as the event finds it. -/
def after (K : Kem) (s : Session) : List (SessionEvent × ρ) → Session
  | [] => s
  | (event, source) :: rest => (s.handle K event source).session.after K rest

theorem after_append (K : Kem) (s : Session) (inputs more : List (SessionEvent × ρ)) :
    s.after K (inputs ++ more) = (s.after K inputs).after K more := by
  induction inputs generalizing s with
  | nil => rfl
  | cons input rest ih => exact ih _

/-! ## The invariant -/

/-- What the neighbour keys, the own share and the group key of a session have to do with each
other between two events. -/
structure Coherent (K : Kem) (s : Session) : Prop where
  keyed : s.state = .established ↔ s.progress.groupKey.isSome
  erased : s.state = .aborted →
    s.progress.keyLeft = none ∧ s.progress.keyRight = none ∧ s.progress.transcript = none
  shared : s.state ≠ .aborted → ∀ c, s.slot s.own = some c →
    ∃ right left, s.progress.keyRight = some right ∧ s.progress.keyLeft = some left ∧
      c.share = .ofNeighborKeys right left
  begun : s.progress.transcript.isSome ∨ s.progress.keyRight.isSome → s.progress.initiated = true
  derived : ∀ key, s.progress.groupKey = some key →
    ∃ c left, s.Verified K c ∧ s.progress.keyLeft = some left ∧ key = s.keyFrom left c
  exhausted : ∀ c, s.Verified K c → s.progress.groupKey.isSome

/-- The part of the invariant that holds inside a step, before the run is looked at again. -/
structure Prepared (s : Session) : Prop extends s.Running where
  shared : ∀ c, s.slot s.own = some c →
    ∃ right left, s.progress.keyRight = some right ∧ s.progress.keyLeft = some left ∧
      c.share = .ofNeighborKeys right left
  begun : s.progress.transcript.isSome ∨ s.progress.keyRight.isSome → s.progress.initiated = true

variable {s : Session}

/-- What an established session holds. -/
theorem Coherent.of_established (coherent : s.Coherent K) (established : s.state = .established) :
    ∃ c left right, s.Verified K c ∧ s.progress.keyLeft = some left ∧
      s.progress.keyRight = some right ∧ (c s.own).share = .ofNeighborKeys right left ∧
      s.groupKey = some (s.keyFrom left c) := by
  obtain ⟨key, present⟩ := Option.isSome_iff_exists.1 (coherent.keyed.1 established)
  obtain ⟨c, left, verified, leftKey, rfl⟩ := coherent.derived key present
  have alive : s.state ≠ .aborted := by simp [established]
  obtain ⟨right, left', rightKey, leftKey', share⟩ :=
    coherent.shared alive _ (verified.filled s.own)
  obtain rfl := Option.some.inj (leftKey.symm.trans leftKey')
  exact ⟨c, left, right, verified, leftKey, rightKey, share, present⟩

theorem Coherent.prepared (coherent : s.Coherent K) (unfinished : s.state ≠ .established)
    (alive : s.state ≠ .aborted) : s.Prepared where
  keyless := by
    rw [← Option.not_isSome_iff_eq_none, ← coherent.keyed]
    exact unfinished
  unfinished := unfinished
  alive := alive
  shared := coherent.shared alive
  begun := coherent.begun

theorem Prepared.coherent (prepared : s.Prepared) (unverified : ∀ c, ¬ s.Verified K c) :
    s.Coherent K where
  keyed := by simp [prepared.unfinished, prepared.keyless]
  erased := fun aborted => absurd aborted prepared.alive
  shared := fun _ => prepared.shared
  begun := prepared.begun
  derived := by simp [prepared.keyless]
  exhausted := fun c verified => absurd verified (unverified c)

theorem fresh_slot (roster : Roster) (own : Fin roster.size) (secretKey : SecretKey) (i : Nat) :
    (fresh roster own secretKey).slot i = none := by
  change ((Vector.replicate roster.size (none : Option Contribution))[i]?).join = none
  rw [Vector.getElem?_replicate]
  split
  · rfl
  · rfl

theorem fresh_coherent (roster : Roster) (own : Fin roster.size) (secretKey : SecretKey) :
    (fresh roster own secretKey).Coherent K := by
  have prepared : (fresh roster own secretKey).Prepared := by
    refine ⟨⟨rfl, by simp [fresh], by simp [fresh]⟩, fun c present => ?_,
      by simp [fresh, Progress.initial]⟩
    rw [fresh_slot] at present
    cases present
  refine prepared.coherent fun c verified => ?_
  have filled := verified.filled own
  rw [fresh_slot] at filled
  cases filled

/-! ## Preservation -/

theorem Running.currentState (running : s.Running) :
    s.currentState ≠ .established ∧ s.currentState ≠ .aborted := by
  have open_run : s.progress.groupKey.isSome = false := by simp [running.keyless]
  rw [Session.currentState, if_neg (by simp [running.unfinished, running.alive]), open_run]
  constructor <;> simp only [Bool.false_eq_true, if_false] <;> (repeat' split) <;> simp

omit [RandomSource ρ] in
/-- A run is only given up when no contribution is missing. -/
theorem Running.filled_of_conclude_aborted (running : s.Running) {actions : List SessionAction}
    {source : ρ} (aborted : (s.conclude K actions source).session.state = .aborted)
    (i : Fin s.roster.size) : (s.slot i).isSome := by
  have ended := s.conclude_cases K running actions source
  generalize s.conclude K actions source = outcome at ended aborted
  cases ended with
  | waiting => exact absurd aborted running.currentState.2
  | completed => cases aborted
  | aborted _ filled => exact filled i
  | refused => exact absurd aborted running.alive

theorem Running.refreshed (running : s.Running) : s.refreshed.Running :=
  ⟨running.keyless, running.currentState.1, running.currentState.2⟩

theorem Prepared.refreshed (prepared : s.Prepared) : s.refreshed.Prepared where
  toRunning := prepared.toRunning.refreshed
  shared := prepared.shared
  begun := prepared.begun

theorem Accepts.prepared {event : SessionEvent} {source source' : ρ} {s' : Session}
    {actions : List SessionAction} (write : s.Accepts K event source s' actions source')
    (prepared : s.Prepared) : s'.Prepared := by
  cases write with
  | start =>
    exact ⟨⟨prepared.keyless, prepared.unfinished, prepared.alive⟩, prepared.shared, fun _ => rfl⟩
  | offer _ fresh _ =>
    refine ⟨⟨prepared.keyless, prepared.unfinished, prepared.alive⟩, fun c present => ?_,
      prepared.begun⟩
    obtain ⟨_, left, _, leftKey, _⟩ := prepared.shared c present
    rw [fresh] at leftKey
    cases leftKey
  | response _ fresh pending _ =>
    refine ⟨⟨prepared.keyless, prepared.unfinished, prepared.alive⟩, fun c present => ?_,
      fun _ => prepared.begun (.inl ?_)⟩
    · obtain ⟨right, _, rightKey, _⟩ := prepared.shared c present
      rw [fresh] at rightKey
      cases rightKey
    · simp [pending]
  | share heard fresh =>
    refine ⟨⟨prepared.keyless, prepared.unfinished, prepared.alive⟩,
      fun c present => prepared.shared c ?_, prepared.begun⟩
    have foreign : _ ≠ s.own.val := fun own => heard.foreign (Fin.ext own)
    rw [← present]
    exact ((s.slot_withContribution _ _ _).trans (if_neg foreign)).symm

theorem Prepared.withOwnShare (prepared : s.Prepared) {right left : SharedSecret} {c : Contribution}
    (rightKey : s.progress.keyRight = some right) (leftKey : s.progress.keyLeft = some left)
    (share : c.share = .ofNeighborKeys right left) : (s.withContribution s.own c).Prepared := by
  refine ⟨⟨prepared.keyless, prepared.unfinished, prepared.alive⟩, fun c' present => ?_,
    prepared.begun⟩
  have same : some c = some c' :=
    ((s.slot_withContribution s.own c s.own).trans (if_pos rfl)).symm.trans present
  obtain rfl := Option.some.inj same
  exact ⟨right, left, rightKey, leftKey, share⟩

omit [RandomSource ρ] in
theorem Prepared.conclude (prepared : s.Prepared) (actions : List SessionAction) (source : ρ) :
    (s.conclude K actions source).session.Coherent K := by
  have ended := s.conclude_cases K prepared.toRunning actions source
  generalize s.conclude K actions source = outcome at ended
  cases ended with
  | waiting missing =>
    -- A party without its left key has not contributed, so it does not have all contributions.
    refine prepared.refreshed.coherent fun c verified => ?_
    rcases missing with leftless | ⟨i, empty⟩
    · obtain ⟨_, left, _, leftKey, _⟩ := prepared.shared _ (verified.filled s.own)
      rw [leftless] at leftKey
      cases leftKey
    · have filled : s.slot i = some (c i) := verified.filled i
      rw [empty] at filled
      cases filled
  | completed c left verified leftKey =>
    exact {
      keyed := by simp [completed]
      erased := by simp [completed]
      shared := fun _ => prepared.shared
      begun := prepared.begun
      derived := fun key present =>
        ⟨c, left, ⟨verified.filled, verified.closed, verified.opens⟩, leftKey,
          (Option.some.inj present).symm⟩
      exhausted := fun _ _ => rfl }
  | aborted failure filled unverified =>
    exact {
      keyed := by simp [abandoned, prepared.keyless]
      erased := fun _ => ⟨rfl, rfl, rfl⟩
      shared := fun alive => absurd rfl alive
      begun := by simp [abandoned]
      derived := by simp [abandoned, prepared.keyless]
      exhausted := fun c verified =>
        absurd ⟨verified.filled, verified.closed, verified.opens⟩ (unverified c) }
  | refused error filled unverified => exact prepared.coherent unverified

theorem Prepared.advance (prepared : s.Prepared) (actions : List SessionAction) (source : ρ) :
    (s.advance K actions source).session.Coherent K := by
  have ended := s.advance_cases K actions source
  generalize s.advance K actions source = outcome at ended
  cases ended with
  | silent undue ended =>
    subst ended
    exact prepared.conclude actions source
  | broadcast right left c due rightKey leftKey share coin opens ended =>
    subst ended
    exact (prepared.withOwnShare rightKey leftKey share).conclude _ _
  | refused right left error due rightKey leftKey failed =>
    refine prepared.coherent fun c verified => ?_
    have filled := verified.filled s.own
    rw [due] at filled
    cases filled

theorem Coherent.initiated (coherent : s.Coherent K) (established : s.state = .established) :
    s.progress.initiated = true := by
  obtain ⟨_, _, right, _, _, rightKey, _⟩ := coherent.of_established established
  exact coherent.begun (.inr (by simp [rightKey]))

/-- Nothing is accepted once the run has ended well. -/
theorem Coherent.unfinished_of_accepts (coherent : s.Coherent K) {event : SessionEvent}
    {source source' : ρ} {s' : Session} {actions : List SessionAction}
    (write : s.Accepts K event source s' actions source') : s.state ≠ .established := by
  cases write with
  | start fresh made =>
    intro established
    rw [coherent.initiated established] at fresh
    cases fresh
  | offer heard fresh made => exact heard.unfinished
  | response heard fresh pending made => exact heard.unfinished
  | share heard fresh => exact heard.unfinished

theorem Coherent.prepared_of_accepts (coherent : s.Coherent K) (alive : s.state ≠ .aborted)
    {event : SessionEvent} {source source' : ρ} {s' : Session} {actions : List SessionAction}
    (write : s.Accepts K event source s' actions source') : s'.Prepared :=
  write.prepared (coherent.prepared (coherent.unfinished_of_accepts write) alive)

/-- What becomes of a session on an event: it stays as it is and does nothing, or it makes a write
and goes on with the rest of the step. -/
inductive Stepped (K : Kem) (s : Session) (event : SessionEvent) (source : ρ) :
    SessionOutcome ρ → Prop
  | kept {result : Except SessionError (List SessionAction)} {source' : ρ}
      (idle : (⟨result, s, source'⟩ : SessionOutcome ρ).actions = []) :
      Stepped K s event source ⟨result, s, source'⟩
  | written {s' : Session} {actions : List SessionAction} {source' : ρ}
      (alive : s.state ≠ .aborted) (write : s.Accepts K event source s' actions source')
      (prepared : s'.Prepared) : Stepped K s event source (s'.advance K actions source')

theorem Coherent.stepped (coherent : s.Coherent K) (event : SessionEvent) (source : ρ) :
    s.Stepped K event source (s.handle K event source) := by
  by_cases aborted : s.state = .aborted
  · rw [s.handle_aborted K aborted]
    exact .kept rfl
  have step := s.handle_cases K aborted event source
  generalize s.handle K event source = outcome at step
  cases step with
  | ignored => exact .kept rfl
  | refused => exact .kept rfl
  | accepted write advanced =>
    subst advanced
    exact .written aborted write (coherent.prepared_of_accepts aborted write)

theorem Coherent.handle (coherent : s.Coherent K) (event : SessionEvent) (source : ρ) :
    (s.handle K event source).session.Coherent K := by
  have step := coherent.stepped event source
  generalize s.handle K event source = outcome at step
  cases step with
  | kept => exact coherent
  | written _ _ prepared => exact prepared.advance _ _

theorem Coherent.after (coherent : s.Coherent K) (inputs : List (SessionEvent × ρ)) :
    (s.after K inputs).Coherent K := by
  induction inputs generalizing s with
  | nil => exact coherent
  | cons input rest ih => exact ih (coherent.handle input.1 input.2)

theorem sameParty_after (K : Kem) (s : Session) (inputs : List (SessionEvent × ρ)) :
    s.SameParty (s.after K inputs) := by
  induction inputs generalizing s with
  | nil => exact ⟨_, _, rfl⟩
  | cons input rest ih => exact (s.sameParty_handle K input.1 input.2).trans (ih _)

/-- Whatever events a session is handed, it stays the same party's. It is established exactly when
it holds a group key, and that is exactly when no contribution is missing, the shares cancel out
and every commitment opens. The group key is then derived from the own left key and the shares, of
which the own one was made from both neighbour keys. -/
theorem established_iff_verified (K : Kem) (roster : Roster) (own : Fin roster.size)
    (secretKey : SecretKey) (inputs : List (SessionEvent × ρ)) :
    let s := (fresh roster own secretKey).after K inputs
    (fresh roster own secretKey).SameParty s ∧
    (s.state = .established ↔ s.groupKey.isSome) ∧
    (s.groupKey.isSome ↔ ∃ c, s.Verified K c) ∧
    ∀ c, s.Verified K c → ∃ left right,
      s.progress.keyLeft = some left ∧ s.progress.keyRight = some right ∧
      (c s.own).share = .ofNeighborKeys right left ∧
      s.groupKey = some
        (.derive (Share.leftKeys s.own left (List.ofFn fun i => (c i).share)) s.roster.ids) := by
  intro s
  have coherent : s.Coherent K := (fresh_coherent roster own secretKey).after inputs
  refine ⟨sameParty_after K _ inputs, coherent.keyed,
    ⟨fun keyed => ?_, fun ⟨c, verified⟩ => coherent.exhausted c verified⟩, fun c verified => ?_⟩
  · obtain ⟨c, _, _, verified, _⟩ := coherent.of_established (coherent.keyed.2 keyed)
    exact ⟨c, verified⟩
  · have established := coherent.keyed.2 (coherent.exhausted c verified)
    obtain ⟨c', left, right, verified', leftKey, rightKey, share, key⟩ :=
      coherent.of_established established
    obtain rfl := eq_of_filled verified.filled verified'.filled
    exact ⟨left, right, leftKey, rightKey, share, key⟩

end RingAgreement.Session
