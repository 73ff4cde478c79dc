import RingAgreement.Proofs.Medium.Quiescence
import RingAgreement.Proofs.Session.Dropped
import RingAgreement.Proofs.Session.Start
import RingAgreement.Proofs.Session.Writes
/-!
What the state label of a session says. The label is stored and named again at the end of a step;
as long as no commitment fails, it is at every moment the one that the neighbour keys and the
contributions amount to, and it only moves forward.
-/

namespace RingAgreement

/-- The order in which a session goes through its states. -/
def SessionState.rank : SessionState → Nat
  | init => 0
  | akeSent => 1
  | keysPartial => 2
  | keysComplete => 3
  | awaitingShares => 4
  | established => 5
  | aborted => 6

namespace Session

variable {K : Kem} {s : Session} {ρ : Type}

/-- What a label says about the progress of a session that is not aborted. -/
def IsAt (s : Session) : SessionState → Prop
  | .init =>
    s.progress.initiated = false ∧ s.progress.keyLeft = none ∧ s.progress.keyRight = none
  | .akeSent =>
    s.progress.initiated = true ∧ s.progress.keyLeft = none ∧ s.progress.keyRight = none
  | .keysPartial =>
    s.progress.keyLeft.isSome ∧ s.progress.keyRight = none ∨
      s.progress.keyLeft = none ∧ s.progress.keyRight.isSome
  | .keysComplete =>
    s.progress.keyLeft.isSome ∧ s.progress.keyRight.isSome ∧ (s.slot s.own).isSome ∧
      ∀ i : Fin s.roster.size, i ≠ s.own → s.slot i = none
  | .awaitingShares =>
    s.progress.keyLeft.isSome ∧ s.progress.keyRight.isSome ∧ (s.slot s.own).isSome ∧
      (∃ i : Fin s.roster.size, i ≠ s.own ∧ (s.slot i).isSome) ∧
      ∃ i : Fin s.roster.size, i ≠ s.own ∧ s.slot i = none
  | .established => ∀ i : Fin s.roster.size, (s.slot i).isSome
  | .aborted => False

/-! ## The stored label -/

theorem peerCount_eq_zero_iff (s : Session) :
    s.peerCount = 0 ↔ ∀ i : Fin s.roster.size, i ≠ s.own → s.slot i = none := by
  simp only [peerCount, List.countP_eq_zero, List.mem_finRange, Fin.getElem_fin,
    getElem_contributions, decide_eq_true_eq, not_and, Option.not_isSome_iff_eq_none,
    forall_const]

/-- The label of a run that is still going on, as it is named at the end of a step. -/
theorem currentState_of_open (unfinished : s.state ≠ .established) (alive : s.state ≠ .aborted)
    (keyless : s.progress.groupKey = none) :
    s.currentState =
      if (s.slot s.own).isSome then if s.peerCount = 0 then .keysComplete else .awaitingShares
      else if s.progress.keyLeft.isSome ∨ s.progress.keyRight.isSome then .keysPartial
      else if s.progress.initiated then .akeSent else .init := by
  rw [currentState, if_neg (by simp [unfinished, alive]), if_neg (by simp [keyless]),
    Fin.getElem_fin, getElem_contributions]

theorem currentState_of_ended (ended : s.state = .established ∨ s.state = .aborted) :
    s.currentState = s.state :=
  if_pos ended

theorem Running.currentState_refreshed (running : s.Running) :
    s.refreshed.currentState = s.refreshed.state := by
  obtain ⟨unfinished, alive⟩ := running.currentState
  exact (currentState_of_open (s := s.refreshed) unfinished alive running.keyless).trans
    (currentState_of_open running.unfinished running.alive running.keyless).symm

/-- Whoever has contributed holds both neighbour keys. -/
theorem keyed_of_contributed
    (shared : ∀ c, s.slot s.own = some c → ∃ right left, s.progress.keyRight = some right ∧
      s.progress.keyLeft = some left ∧ c.share = .ofNeighborKeys right left)
    (present : (s.slot s.own).isSome) :
    s.progress.keyLeft.isSome ∧ s.progress.keyRight.isSome := by
  obtain ⟨c, held⟩ := Option.isSome_iff_exists.1 present
  obtain ⟨right, left, rightKey, leftKey, _⟩ := shared c held
  exact ⟨by rw [leftKey]; rfl, by rw [rightKey]; rfl⟩

/-- The label is the one that the progress amounts to; with both neighbour keys the own contribution
is there, and with all contributions the run is over. -/
structure Current (s : Session) : Prop where
  named : s.currentState = s.state
  contributed : s.progress.keyLeft.isSome → s.progress.keyRight.isSome → (s.slot s.own).isSome
  ended : (∀ i : Fin s.roster.size, (s.slot i).isSome) →
    s.state = .established ∨ s.state = .aborted

theorem fresh_current (roster : Roster) (own : Fin roster.size) (secretKey : SecretKey) :
    (fresh roster own secretKey).Current where
  named := by
    rw [currentState_of_open (by simp [fresh]) (by simp [fresh]) rfl, fresh_slot]
    rfl
  contributed := fun keyed => by cases keyed
  ended := fun filled => by
    have present := filled own
    rw [fresh_slot] at present
    cases present

theorem Prepared.current_conclude (prepared : s.Prepared)
    (contributed : s.progress.keyLeft.isSome → s.progress.keyRight.isSome →
      (s.slot s.own).isSome) (actions : List SessionAction) (source : ρ)
    (commits : ∀ fault, (s.conclude K actions source).result ≠ .error (.crypto fault)) :
    (s.conclude K actions source).session.Current := by
  have ended := s.conclude_cases K prepared.toRunning actions source
  generalize s.conclude K actions source = outcome at ended commits
  cases ended with
  | waiting missing =>
    refine ⟨prepared.toRunning.currentState_refreshed, contributed, fun filled => ?_⟩
    -- A party without its left key has not contributed, so some contribution is missing.
    rcases missing with leftless | ⟨i, empty⟩
    · have leftKey := (keyed_of_contributed prepared.shared (filled s.own)).1
      rw [leftless] at leftKey
      cases leftKey
    · have present : (s.slot i).isSome := filled i
      rw [empty] at present
      cases present
  | completed c left verified =>
    refine ⟨currentState_of_ended (.inl rfl), fun _ _ => ?_, fun _ => .inl rfl⟩
    exact Option.isSome_iff_exists.2 ⟨_, verified.filled s.own⟩
  | aborted =>
    exact ⟨currentState_of_ended (.inr rfl), fun keyed => (by cases keyed), fun _ => .inr rfl⟩
  | refused error => exact absurd rfl (commits error)

variable [RandomSource ρ]

theorem Prepared.current_advance (prepared : s.Prepared) (actions : List SessionAction)
    (source : ρ)
    (commits : ∀ fault, (s.advance K actions source).result ≠ .error (.crypto fault)) :
    (s.advance K actions source).session.Current := by
  have ended := s.advance_cases K actions source
  generalize s.advance K actions source = outcome at ended commits
  cases ended with
  | silent undue ended =>
    subst ended
    refine prepared.current_conclude (fun leftKey rightKey => ?_) actions source commits
    rcases undue with present | rightless | leftless
    · exact present
    · rw [rightless] at rightKey
      cases rightKey
    · rw [leftless] at leftKey
      cases leftKey
  | broadcast right left c due rightKey leftKey share coin opens ended =>
    subst ended
    refine (prepared.withOwnShare rightKey leftKey share).current_conclude (fun _ _ => ?_) _ _
      commits
    change ((s.withContribution s.own c).slot s.own).isSome
    rw [slot_withContribution, if_pos rfl]
    rfl
  | refused right left error => exact absurd rfl (commits error)

/-! ## Runs in which no commitment fails -/

/-- A commitment fails in the step of an event: the event is accepted, and what follows its write,
in which the mechanism is only asked for commitments, ends with an error of the mechanism. -/
def CommitFails (K : Kem) (s : Session) (event : SessionEvent) (source : ρ) : Prop :=
  s.state ≠ .aborted ∧ ∃ s' actions source' fault,
    s.Accepts K event source s' actions source' ∧
      (s'.advance K actions source').result = .error (.crypto fault)

/-- No commitment fails in the run over some events. -/
def CommitsHold (K : Kem) (s : Session) : List (SessionEvent × ρ) → Prop
  | [] => True
  | (event, source) :: rest =>
    ¬ s.CommitFails K event source ∧ (s.handle K event source).session.CommitsHold K rest

/-- A commitment only fails under a key of the roster that the mechanism does not take. -/
theorem Coherent.refuses_of_commitFails (coherent : s.Coherent K) {event : SessionEvent}
    {source : ρ} (fails : s.CommitFails K event source) : ∃ fault, s.roster.Refuses K fault := by
  obtain ⟨alive, s', actions, source', fault, write, failed⟩ := fails
  obtain ⟨fault', _, refuses⟩ :=
    (coherent.prepared_of_accepts alive write).refuses_of_advance failed rfl
  rw [write.sameParty.roster_eq] at refuses
  exact ⟨fault', refuses⟩

theorem Coherent.commitsHold (coherent : s.Coherent K)
    (takes : ∀ fault, ¬ s.roster.Refuses K fault) (inputs : List (SessionEvent × ρ)) :
    s.CommitsHold K inputs := by
  induction inputs generalizing s with
  | nil => trivial
  | cons input rest ih =>
    refine ⟨fun fails => ?_, ih (coherent.handle input.1 input.2) ?_⟩
    · obtain ⟨fault, refuses⟩ := coherent.refuses_of_commitFails fails
      exact takes fault refuses
    · rw [(s.sameParty_handle K input.1 input.2).roster_eq]
      exact takes

theorem Coherent.current_handle (coherent : s.Coherent K) (current : s.Current)
    (event : SessionEvent) (source : ρ) (commits : ¬ s.CommitFails K event source) :
    (s.handle K event source).session.Current := by
  have step := coherent.stepped event source
  generalize s.handle K event source = outcome at step
  cases step with
  | kept => exact current
  | written alive write prepared =>
    exact prepared.current_advance _ _ fun fault failed =>
      commits ⟨alive, _, _, _, fault, write, failed⟩

theorem Coherent.current_after (coherent : s.Coherent K) (current : s.Current)
    (inputs : List (SessionEvent × ρ)) (commits : s.CommitsHold K inputs) :
    (s.after K inputs).Current := by
  induction inputs generalizing s with
  | nil => exact current
  | cons input rest ih =>
    exact ih (coherent.handle input.1 input.2)
      (coherent.current_handle current input.1 input.2 commits.1) commits.2

/-! ## Exactness -/

theorem Coherent.filled_of_established (coherent : s.Coherent K)
    (established : s.state = .established) (i : Fin s.roster.size) : (s.slot i).isSome := by
  obtain ⟨c, _, _, verified, _⟩ := coherent.of_established established
  exact Option.isSome_iff_exists.2 ⟨_, verified.filled i⟩

/-- The label of a run that is still going on, read off the progress. -/
theorem Current.state_eq (current : s.Current) (coherent : s.Coherent K)
    (alive : s.state ≠ .aborted) (unfinished : s.state ≠ .established) :
    s.state =
      if (s.slot s.own).isSome then if s.peerCount = 0 then .keysComplete else .awaitingShares
      else if s.progress.keyLeft.isSome ∨ s.progress.keyRight.isSome then .keysPartial
      else if s.progress.initiated then .akeSent else .init :=
  current.named.symm.trans
    (currentState_of_open unfinished alive (coherent.prepared unfinished alive).keyless)

/-- The progress is as the label says. -/
theorem Current.isAt (current : s.Current) (coherent : s.Coherent K) (alive : s.state ≠ .aborted) :
    s.IsAt s.state := by
  by_cases established : s.state = .established
  · rw [established]
    exact coherent.filled_of_established established
  rw [current.state_eq coherent alive established]
  have open_run : ¬ ∀ i : Fin s.roster.size, (s.slot i).isSome := fun filled =>
    (current.ended filled).elim established alive
  split
  next present =>
    obtain ⟨leftKey, rightKey⟩ := keyed_of_contributed (coherent.shared alive) present
    split
    next alone => exact ⟨leftKey, rightKey, present, s.peerCount_eq_zero_iff.1 alone⟩
    next met =>
      rw [peerCount_eq_zero_iff] at met
      push Not at met
      push Not at open_run
      obtain ⟨i, other, there⟩ := met
      obtain ⟨j, missing⟩ := open_run
      refine ⟨leftKey, rightKey, present, ⟨i, other, Option.isSome_iff_ne_none.2 there⟩, j, ?_,
        Option.not_isSome_iff_eq_none.1 missing⟩
      rintro rfl
      exact missing present
  next silent =>
    split
    next keyed =>
      rcases keyed with leftKey | rightKey
      · refine .inl ⟨leftKey, Option.not_isSome_iff_eq_none.1 fun rightKey => ?_⟩
        exact silent (current.contributed leftKey rightKey)
      · refine .inr ⟨Option.not_isSome_iff_eq_none.1 fun leftKey => ?_, rightKey⟩
        exact silent (current.contributed leftKey rightKey)
    next keyless =>
      simp only [not_or, Option.not_isSome_iff_eq_none] at keyless
      split
      next begun => exact ⟨begun, keyless⟩
      next unbegun => exact ⟨by simpa using unbegun, keyless⟩

/-- An established session is at no other label. -/
theorem Coherent.established_of_isAt (coherent : s.Coherent K) (established : s.state = .established)
    {label : SessionState} (stands : s.IsAt label) : label = .established := by
  have filled := coherent.filled_of_established established
  have alive : s.state ≠ .aborted := by simp [established]
  obtain ⟨leftKey, rightKey⟩ := keyed_of_contributed (coherent.shared alive) (filled s.own)
  cases label with
  | init => simp [stands.2.1] at leftKey
  | akeSent => simp [stands.2.1] at leftKey
  | keysPartial =>
    rcases stands with ⟨_, rightless⟩ | ⟨leftless, _⟩
    · simp [rightless] at rightKey
    · simp [leftless] at leftKey
  | keysComplete =>
    have present := filled (s.roster.right s.own)
    rw [stands.2.2.2 _ (s.roster.right_ne s.own)] at present
    cases present
  | awaitingShares =>
    obtain ⟨i, _, missing⟩ := stands.2.2.2.2
    have present := filled i
    rw [missing] at present
    cases present
  | established => rfl
  | aborted => exact stands.elim

/-- The label is the only one that the progress is at. -/
theorem Current.state_of_isAt (current : s.Current) (coherent : s.Coherent K)
    (alive : s.state ≠ .aborted) {label : SessionState} (stands : s.IsAt label) :
    s.state = label := by
  by_cases established : s.state = .established
  · rw [established, coherent.established_of_isAt established stands]
  -- Without a neighbour key there is no own contribution.
  have silent : s.progress.keyLeft = none ∨ s.progress.keyRight = none → s.slot s.own = none := by
    refine fun keyless => Option.not_isSome_iff_eq_none.1 fun present => ?_
    obtain ⟨leftKey, rightKey⟩ := keyed_of_contributed (coherent.shared alive) present
    rcases keyless with leftless | rightless
    · simp [leftless] at leftKey
    · simp [rightless] at rightKey
  have named := current.state_eq coherent alive established
  cases label with
  | init =>
    obtain ⟨unbegun, leftless, rightless⟩ := stands
    simpa [silent (.inl leftless), leftless, rightless, unbegun] using named
  | akeSent =>
    obtain ⟨begun, leftless, rightless⟩ := stands
    simpa [silent (.inl leftless), leftless, rightless, begun] using named
  | keysPartial =>
    rcases stands with ⟨leftKey, rightless⟩ | ⟨leftless, rightKey⟩
    · simpa [silent (.inr rightless), leftKey] using named
    · simpa [silent (.inl leftless), rightKey] using named
  | keysComplete =>
    obtain ⟨_, _, present, alone⟩ := stands
    rwa [if_pos present, if_pos (s.peerCount_eq_zero_iff.2 alone)] at named
  | awaitingShares =>
    obtain ⟨_, _, present, ⟨i, other, there⟩, _⟩ := stands
    have met : ¬ s.peerCount = 0 := fun none => by
      rw [s.peerCount_eq_zero_iff.1 none i other] at there
      cases there
    rwa [if_pos present, if_neg met] at named
  | established => exact (current.ended stands).resolve_right alive
  | aborted => exact stands.elim

theorem Current.state_eq_iff (current : s.Current) (coherent : s.Coherent K)
    (alive : s.state ≠ .aborted) (label : SessionState) : s.state = label ↔ s.IsAt label := by
  refine ⟨fun named => ?_, current.state_of_isAt coherent alive⟩
  rw [← named]
  exact current.isAt coherent alive

/-! ## Order -/

/-- A session whose progress has only grown does not go back to an earlier label. -/
theorem Current.rank_le {s' : Session} (current : s.Current) (coherent : s.Coherent K)
    (alive : s.state ≠ .aborted) (current' : s'.Current) (coherent' : s'.Coherent K)
    (alive' : s'.state ≠ .aborted) (same : s.SameParty s') (grown : s.Grown s') :
    s.state.rank ≤ s'.state.rank := by
  by_cases established' : s'.state = .established
  · rw [established']
    cases label : s.state with
    | aborted => exact absurd label alive
    | _ => decide
  obtain ⟨state, progress, rfl⟩ := same
  have filled : ∀ i : Fin s.roster.size, (s.slot i).isSome →
      (slot { s with state := state, progress := progress } i).isSome :=
    fun i => isSome_of_grown (grown.slot i)
  by_cases established : s.state = .established
  · have ended := current'.ended fun i => filled i (coherent.filled_of_established established i)
    exact absurd ended (not_or.2 ⟨established', alive'⟩)
  have own := filled s.own
  have peers : peerCount { s with state := state, progress := progress } = 0 → s.peerCount = 0 := by
    simp only [peerCount_eq_zero_iff, ← Option.not_isSome_iff_eq_none]
    exact fun alone i other present => alone i other (filled i present)
  have left := isSome_of_grown grown.keyLeft
  have right := isSome_of_grown grown.keyRight
  have begun := grown.initiated
  rw [current.state_eq coherent alive established, current'.state_eq coherent' alive' established']
  dsimp only at own left right begun ⊢
  -- Five labels against five: whatever puts the first one above a label also holds of the second.
  split_ifs <;> simp_all [SessionState.rank]

theorem Coherent.rank_le_after (coherent : s.Coherent K) (current : s.Current)
    (inputs : List (SessionEvent × ρ)) (commits : s.CommitsHold K inputs) :
    s.state.rank ≤ (s.after K inputs).state.rank := by
  by_cases aborted : s.state = .aborted
  · rw [after_of_unchanged fun event source => by rw [s.handle_aborted K aborted]]
  rcases coherent.grown_after inputs with ended | grown
  · rw [ended]
    cases s.state <;> decide
  by_cases ended : (s.after K inputs).state = .aborted
  · rw [ended]
    cases s.state <;> decide
  · exact current.rank_le coherent aborted (coherent.current_after current inputs commits)
      (coherent.after inputs) ended (sameParty_after K s inputs) grown

/-- Only a run that has all contributions is given up, and none that has ended well. -/
theorem Coherent.filled_of_aborts (coherent : s.Coherent K) (alive : s.state ≠ .aborted)
    {event : SessionEvent} {source : ρ}
    (aborts : (s.handle K event source).session.state = .aborted) :
    s.state ≠ .established ∧
      ∀ i < s.roster.size, ((s.handle K event source).session.slot i).isSome := by
  refine ⟨fun established => ?_, fun i inside => ?_⟩
  · rw [coherent.handle_established established] at aborts
    exact alive aborts
  · rw [← (s.sameParty_handle K event source).roster_eq] at inside
    exact coherent.exhausted_handle (fun aborted => absurd aborted alive) event source aborts i
      inside

/-- Whatever events a session is handed, as long as no commitment fails: until it is aborted, its
label is exactly the one that its neighbour keys and contributions are at; the label never moves
backwards; and the session is only aborted by a step that has all contributions, from a label
before the last one. -/
theorem label_follows_progress (K : Kem) (roster : Roster) (own : Fin roster.size)
    (secretKey : SecretKey) (inputs : List (SessionEvent × ρ))
    (commits : (fresh roster own secretKey).CommitsHold K inputs) :
    let s := (fresh roster own secretKey).after K inputs
    (s.state ≠ .aborted → ∀ label, s.state = label ↔ s.IsAt label) ∧
    (∀ later : List (SessionEvent × ρ), s.CommitsHold K later →
      s.state.rank ≤ (s.after K later).state.rank) ∧
    ∀ event (source : ρ), s.state ≠ .aborted → (s.handle K event source).session.state = .aborted →
      s.state ≠ .established ∧
        ∀ i < roster.size, ((s.handle K event source).session.slot i).isSome := by
  intro s
  have initial := fresh_coherent (K := K) roster own secretKey
  have coherent : s.Coherent K := initial.after inputs
  have current : s.Current :=
    initial.current_after (fresh_current roster own secretKey) inputs commits
  have listed : s.roster = roster := (sameParty_after K (fresh roster own secretKey) inputs).roster_eq
  refine ⟨fun alive => current.state_eq_iff coherent alive,
    coherent.rank_le_after current, fun event source alive aborts => ?_⟩
  rw [← listed]
  exact coherent.filled_of_aborts alive aborts

end Session

namespace HonestRing

theorem not_refuses_roster {K : Kem} (ring : HonestRing K) (correct : K.Correct)
    (fault : CryptoError) : ¬ ring.roster.Refuses K fault := by
  rintro ⟨i, message, coin, failed⟩
  obtain ⟨commitment, made⟩ := Commitment.make_succeeds (ring.opens correct i) message coin
  rw [ring.party_publicKey, made] at failed
  cases failed

theorem commitsHold_fresh {K : Kem} {ρ : Type} [RandomSource ρ] (ring : HonestRing K)
    (correct : K.Correct) (i : Fin ring.roster.size) (inputs : List (SessionEvent × ρ)) :
    (ring.fresh i).CommitsHold K inputs :=
  (Session.fresh_coherent _ _ _).commitsHold (ring.not_refuses_roster correct) inputs

/-- Every party of an honest ring can come to the end of its run. -/
theorem exists_established {K : Kem} {ρ : Type} [RandomSource ρ] (ring : HonestRing K)
    (correct : K.Correct) (i : Fin ring.roster.size) (source : Fin ring.roster.size → ρ) :
    ∃ inputs : List (SessionEvent × ρ), ((ring.fresh i).after K inputs).state = .established := by
  obtain ⟨inputs, reached⟩ :=
    (ring.medium source).exists_session_run K (Medium.schedule ring.roster.size) i
  refine ⟨inputs, (congrArg (·.state) reached).symm.trans ?_⟩
  exact (ring.consistent_run correct source _).established_of_quiescent
    (schedule_quiescent correct ring source) i

/-- The first of three parties has sent its offer once it has started; at the end of an honest run
it holds all contributions, and no event takes it back from there. -/
theorem trio_label_follows :
    let fresh := trio.fresh ⟨0, by decide⟩
    let begun : List (SessionEvent × DrawCounter) := [(.start, ⟨0⟩)]
    fresh.CommitsHold .transparent begun ∧ (fresh.after .transparent begun).state = .akeSent ∧
    ∃ inputs : List (SessionEvent × DrawCounter), fresh.CommitsHold .transparent inputs ∧
      let s := fresh.after .transparent inputs
      s.state = .established ∧ s.IsAt .established ∧
      ∀ later : List (SessionEvent × DrawCounter), s.CommitsHold .transparent later →
        SessionState.established.rank ≤ (s.after .transparent later).state.rank := by
  intro fresh begun
  have correct := Kem.transparent_correct
  have commits := trio.commitsHold_fresh (ρ := DrawCounter) correct ⟨0, by decide⟩
  refine ⟨commits begun, ?_, ?_⟩
  · obtain ⟨labels, -⟩ := Session.label_follows_progress .transparent trio.roster ⟨0, by decide⟩
      (trio.pair ⟨0, by decide⟩).secretKey begun (commits begun)
    have coherent : fresh.Coherent .transparent := Session.fresh_coherent _ _ _
    have alive : fresh.state ≠ .aborted := by simp [fresh, HonestRing.fresh, Session.fresh]
    obtain ⟨offer, transcript, made⟩ := Handshake.initiate_succeeds
      (trio.opens correct (trio.roster.right ⟨0, by decide⟩))
      (RandomSource.draw 32 (⟨0⟩ : DrawCounter)).1
    rw [← trio.party_publicKey] at made
    have reached : fresh.after .transparent begun = (fresh.opened transcript).refreshed :=
      congrArg (·.session) (coherent.start_opened alive rfl made)
    have running : (fresh.after .transparent begun).state ≠ .aborted := by
      rw [reached]
      exact ((coherent.prepared_of_accepts alive (.start rfl made)).refreshed).alive
    have sent : (fresh.after .transparent begun).IsAt .akeSent := by
      rw [reached]
      exact ⟨rfl, rfl, rfl⟩
    exact (labels running .akeSent).2 sent
  · obtain ⟨inputs, established⟩ :=
      trio.exists_established correct ⟨0, by decide⟩ fun _ => (⟨0⟩ : DrawCounter)
    obtain ⟨labels, forward, -⟩ := Session.label_follows_progress .transparent trio.roster
      ⟨0, by decide⟩ (trio.pair ⟨0, by decide⟩).secretKey inputs (commits inputs)
    have alive : (fresh.after .transparent inputs).state ≠ .aborted := by simp [fresh, established]
    have filled := (labels alive .established).1 established
    refine ⟨inputs, commits inputs, established, filled, fun later holds => ?_⟩
    rw [← established]
    exact forward later holds

end HonestRing

end RingAgreement
