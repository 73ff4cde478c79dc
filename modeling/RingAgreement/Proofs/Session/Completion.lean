import RingAgreement.Proofs.Session.Coherence
/-!
How the run of a session ends. The group keys that a session announces over a run are the one it
holds at the end; a session that is established or aborted stays as it is, whatever comes.
-/

namespace RingAgreement

variable {ρ : Type}

namespace SessionAction

/-- The group key that an action announces. -/
def key? : SessionAction → Option GroupKey
  | send _ => none
  | established key => some key

@[simp] theorem key?_send (e : Envelope) : (send e).key? = none := rfl

@[simp] theorem key?_established (key : GroupKey) : (established key).key? = some key := rfl

end SessionAction

namespace SessionOutcome

/-- The group keys that a step announces. -/
def keys (outcome : SessionOutcome ρ) : List GroupKey := outcome.actions.filterMap (·.key?)

theorem mem_keys (outcome : SessionOutcome ρ) (key : GroupKey) :
    key ∈ outcome.keys ↔ .established key ∈ outcome.actions := by
  rw [keys, List.mem_filterMap]
  constructor
  · rintro ⟨action, member, shown⟩
    cases action with
    | send => cases shown
    | established announced =>
      obtain rfl := Option.some.inj shown
      exact member
  · exact fun member => ⟨_, member, rfl⟩

end SessionOutcome

namespace Session

variable {K : Kem} {s : Session}

/-! ## Announcements -/

theorem Running.keys_conclude (running : s.Running) {actions : List SessionAction}
    (silent : actions.filterMap (·.key?) = []) (source : ρ) :
    (s.conclude K actions source).keys = (s.conclude K actions source).session.groupKey.toList := by
  have ended := s.conclude_cases K running actions source
  have keyless := running.keyless
  generalize s.conclude K actions source = outcome at ended
  cases ended with
  | waiting missing =>
    simp [SessionOutcome.keys, SessionOutcome.actions, silent, groupKey, Session.refreshed, keyless]
  | completed c left verified leftKey =>
    simp [SessionOutcome.keys, SessionOutcome.actions, List.filterMap_append, silent, groupKey,
      Session.completed]
  | aborted failure filled unverified =>
    simp [SessionOutcome.keys, SessionOutcome.actions, groupKey, abandoned, keyless]
  | refused error filled unverified =>
    simp [SessionOutcome.keys, SessionOutcome.actions, groupKey, keyless]

variable [RandomSource ρ]

theorem Running.keys_advance (running : s.Running) {actions : List SessionAction}
    (silent : actions.filterMap (·.key?) = []) (source : ρ) :
    (s.advance K actions source).keys = (s.advance K actions source).session.groupKey.toList := by
  have ended := s.advance_cases K actions source
  have keyless := running.keyless
  generalize s.advance K actions source = outcome at ended
  cases ended with
  | silent undue ended =>
    subst ended
    exact running.keys_conclude silent source
  | broadcast right left c due rightKey leftKey share coin opens ended =>
    subst ended
    have still := running.withContribution s.own c
    exact still.keys_conclude (by rw [List.filterMap_append, silent]; rfl) _
  | refused right left error due rightKey leftKey failed =>
    simp [SessionOutcome.keys, SessionOutcome.actions, groupKey, keyless]

theorem Accepts.silent {event : SessionEvent} {source source' : ρ} {s' : Session}
    {actions : List SessionAction} (write : s.Accepts K event source s' actions source') :
    actions.filterMap (·.key?) = [] := by
  cases write <;> rfl

/-- A step announces the group key that it adds to the session. -/
theorem Coherent.keys_handle (coherent : s.Coherent K) (event : SessionEvent) (source : ρ) :
    s.groupKey.toList ++ (s.handle K event source).keys =
      (s.handle K event source).session.groupKey.toList := by
  have step := coherent.stepped event source
  generalize s.handle K event source = outcome at step
  cases step with
  | kept idle => simp [SessionOutcome.keys, idle]
  | written alive write prepared =>
    have unfinished := coherent.unfinished_of_accepts write
    have keyless : s.groupKey = none := (coherent.prepared unfinished alive).keyless
    rw [prepared.toRunning.keys_advance write.silent, keyless]
    rfl

/-- The outcomes of events, in their order. -/
def outcomes (K : Kem) (s : Session) : List (SessionEvent × ρ) → List (SessionOutcome ρ)
  | [] => []
  | (event, source) :: rest =>
    s.handle K event source :: (s.handle K event source).session.outcomes K rest

theorem outcomes_append (K : Kem) (s : Session) (inputs more : List (SessionEvent × ρ)) :
    s.outcomes K (inputs ++ more) = s.outcomes K inputs ++ (s.after K inputs).outcomes K more := by
  induction inputs generalizing s with
  | nil => rfl
  | cons input rest ih => exact congrArg (_ :: ·) (ih _)

theorem Coherent.keys_outcomes (coherent : s.Coherent K) (inputs : List (SessionEvent × ρ)) :
    s.groupKey.toList ++ (s.outcomes K inputs).flatMap (·.keys) =
      (s.after K inputs).groupKey.toList := by
  induction inputs generalizing s with
  | nil => simp [outcomes, Session.after]
  | cons input rest ih =>
    obtain ⟨event, source⟩ := input
    simp only [outcomes, Session.after, List.flatMap_cons]
    rw [← List.append_assoc, coherent.keys_handle, ih (coherent.handle event source)]

/-! ## The end -/

theorem after_of_unchanged
    (unchanged : ∀ event (source : ρ), (s.handle K event source).session = s)
    (inputs : List (SessionEvent × ρ)) : s.after K inputs = s := by
  induction inputs with
  | nil => rfl
  | cons input rest ih =>
    rw [Session.after, unchanged]
    exact ih

theorem Coherent.start_established (coherent : s.Coherent K) (established : s.state = .established)
    (source : ρ) :
    s.handle K .start source = ⟨.error (.alreadyStarted .established), s, source⟩ := by
  have initiated := coherent.initiated established
  simp [Session.handle, start, established, initiated]

theorem receive_established (established : s.state = .established) (e : Envelope) (source : ρ) :
    s.handle K (.received e) source =
      ⟨if e.sender.toNat < s.roster.size then .ok []
        else .error (.decode (.invalidIndex e.sender.toNat)), s, source⟩ := by
  by_cases inside : e.sender.toNat < s.roster.size
  · simp [handle, receive, established, inside]
  · simp [handle, receive, established, inside]

theorem Coherent.handle_established (coherent : s.Coherent K) (established : s.state = .established)
    (event : SessionEvent) (source : ρ) : (s.handle K event source).session = s := by
  cases event with
  | start => rw [coherent.start_established established]
  | received e => rw [receive_established established]

/-- A step announces a group key exactly when it establishes the session with that key. -/
theorem Coherent.announces_iff (coherent : s.Coherent K) (event : SessionEvent) (source : ρ)
    (key : GroupKey) :
    .established key ∈ (s.handle K event source).actions ↔
      s.state ≠ .established ∧ (s.handle K event source).session.state = .established ∧
        (s.handle K event source).session.groupKey = some key := by
  have keyed : s.state = .established ↔ s.groupKey.isSome := coherent.keyed
  have keyed' : (s.handle K event source).session.state = .established ↔
    (s.handle K event source).session.groupKey.isSome := (coherent.handle event source).keyed
  have announced := coherent.keys_handle event source
  rw [← SessionOutcome.mem_keys, keyed', Ne, keyed]
  cases before : s.groupKey with
  | none =>
    rw [before, Option.toList_none, List.nil_append] at announced
    rw [announced, Option.mem_toList]
    constructor
    · intro after
      simp [after]
    · exact fun ⟨_, _, after⟩ => after
  | some held =>
    have established : s.state = .established := keyed.2 (by simp [before])
    rw [coherent.handle_established established, before] at announced
    have silent : (s.handle K event source).keys = [] := by simpa using announced
    simp [silent]

/-- A session announces a group key at most once in its whole run, in the step that establishes
it. From then on, and likewise from the step that aborts it, nothing can change it; an aborted
session has kept no key. -/
theorem completes_at_most_once (K : Kem) (roster : Roster) (own : Fin roster.size)
    (secretKey : SecretKey) (inputs : List (SessionEvent × ρ)) :
    let start := fresh roster own secretKey
    let s := start.after K inputs
    (start.outcomes K inputs).flatMap (·.keys) = s.groupKey.toList ∧
    (∀ event (source : ρ) key,
      .established key ∈ (s.handle K event source).actions ↔
        s.state ≠ .established ∧ (s.handle K event source).session.state = .established ∧
          (s.handle K event source).session.groupKey = some key) ∧
    (s.state = .established →
      (∀ later : List (SessionEvent × ρ), s.after K later = s) ∧
      (∀ source : ρ,
        s.handle K .start source = ⟨.error (.alreadyStarted .established), s, source⟩) ∧
      ∀ e (source : ρ), s.handle K (.received e) source =
        ⟨if e.sender.toNat < s.roster.size then .ok []
          else .error (.decode (.invalidIndex e.sender.toNat)), s, source⟩) ∧
    (s.state = .aborted →
      s.groupKey = none ∧ s.progress.keyLeft = none ∧ s.progress.keyRight = none ∧
      s.progress.transcript = none ∧
      (∀ later : List (SessionEvent × ρ), s.after K later = s) ∧
      ∀ event (source : ρ), s.handle K event source = ⟨.error .aborted, s, source⟩) := by
  intro start s
  have unstarted : start.Coherent K := fresh_coherent roster own secretKey
  have coherent : s.Coherent K := unstarted.after inputs
  refine ⟨?_, coherent.announces_iff, fun established => ⟨?_, ?_, ?_⟩, fun aborted => ?_⟩
  · have announced := unstarted.keys_outcomes inputs
    rwa [show start.groupKey = none from rfl, Option.toList_none, List.nil_append] at announced
  · exact after_of_unchanged (coherent.handle_established established)
  · exact coherent.start_established established
  · exact receive_established established
  · have keyless : s.groupKey = none := by
      have open_run : ¬ s.progress.groupKey.isSome := by
        rw [← coherent.keyed, aborted]
        simp
      exact Option.not_isSome_iff_eq_none.1 open_run
    obtain ⟨noLeft, noRight, noTranscript⟩ := coherent.erased aborted
    have refused := fun event (source : ρ) => s.handle_aborted K aborted event source
    refine ⟨keyless, noLeft, noRight, noTranscript, ?_, refused⟩
    exact after_of_unchanged fun event source => by rw [refused]

end Session

end RingAgreement
