import RingAgreement.Proofs.Session.Sends
/-!
Where the messages of a session and its left key come from, and what it has drawn for the first two.
The offer is made from the first draw at the start; the left key comes with the first offer of the
left neighbour, and a session that was started before draws for its answer next. The contribution
that is sent is the one that the session has in its own slot, and it opens there.
-/

namespace RingAgreement.Session

variable {K : Kem} {s : Session} {ρ : Type}

theorem Running.source_conclude (running : s.Running) (actions : List SessionAction) (source : ρ) :
    (s.conclude K actions source).source = source := by
  have ended := s.conclude_cases K running actions source
  generalize s.conclude K actions source = outcome at ended
  cases ended <;> rfl

variable [RandomSource ρ]

/-- Without the left key there is no coin to draw. -/
theorem Running.source_advance (running : s.Running) (keyless : s.progress.keyLeft = none)
    (actions : List SessionAction) (source : ρ) :
    (s.advance K actions source).source = source := by
  have ended := s.advance_cases K actions source
  generalize s.advance K actions source = outcome at ended
  cases ended with
  | silent undue ended =>
    subst ended
    exact running.source_conclude actions source
  | broadcast right left c due rightKey leftKey =>
    rw [keyless] at leftKey
    cases leftKey
  | refused right left error due rightKey leftKey =>
    rw [keyless] at leftKey
    cases leftKey

/-! ## Steps -/

/-- An offer is only sent at the start, and it is made from the draw of the start. -/
theorem Coherent.offer_sent (coherent : s.Coherent K) {event : SessionEvent} {source : ρ}
    {e : Envelope} (sent : e ∈ (s.handle K event source).sends) (kind : e.kind = .akeInit) :
    ∃ offer transcript, e = s.envelope (.akeInit offer) ∧
      Handshake.initiate K (s.roster.party (s.roster.right s.own)).publicKey
        (RandomSource.draw 32 source).1 = .ok (offer, transcript) ∧
      event = .start ∧ s.progress.initiated = false := by
  obtain ⟨p, rfl, emits⟩ := coherent.emits_of_sent sent
  cases emits with
  | @offer _ offer transcript fresh made => exact ⟨offer, transcript, rfl, made, rfl, fresh⟩
  | response => cases kind
  | share => cases kind

/-- A left key is kept, or it comes with an offer of the left neighbour. -/
theorem Coherent.keyLeft_cases (coherent : s.Coherent K) {event : SessionEvent} {source : ρ}
    {key : SharedSecret}
    (held : (s.handle K event source).session.progress.keyLeft = some key) :
    s.progress.keyLeft = some key ∨ ∃ e offer response, event = .received e ∧
      s.Hears e (s.roster.left s.own) (.akeInit offer) ∧ s.progress.keyLeft = none ∧
      Handshake.respond K offer s.secretKey (s.roster.party (s.roster.left s.own)).publicKey
        (RandomSource.draw 32 source).1 = .ok (response, key) := by
  refine (coherent.holds_cases (x := .keyLeft key) held).imp_right ?_
  rintro ⟨fresh, writes⟩
  cases writes with
  | keyLeft heard made => exact ⟨_, _, _, rfl, heard, fresh, made⟩

/-! ## Contributions -/

/-- The own contribution is made from the neighbour keys that are there after the write of a step. -/
theorem Writes.made_of_slot {event : SessionEvent} {source : ρ} {c : Contribution}
    (writes : s.Writes K event source (.slot s.own c)) :
    ∃ s' actions source' right left, s.Accepts K event source s' actions source' ∧
      s'.progress.keyRight = some right ∧ s'.progress.keyLeft = some left ∧
      c.share = .ofNeighborKeys right left ∧ c.OpensAt K (s.roster.party s.own).publicKey s.own := by
  generalize entry : Entry.slot s.own c = x at writes
  cases writes with
  | theirs heard =>
    obtain ⟨here, _⟩ := Entry.slot.inj entry
    exact absurd (Fin.ext here.symm) heard.foreign
  | own write rightKey leftKey share _ opens =>
    obtain ⟨_, rfl⟩ := Entry.slot.inj entry
    exact ⟨_, _, _, _, _, write, rightKey, leftKey, share, opens⟩
  | transcript => cases entry
  | keyLeft => cases entry
  | keyRight => cases entry

theorem opens_of_own {roster : Roster} {own : Fin roster.size} {secretKey : SecretKey}
    {inputs : List (SessionEvent × ρ)} {c : Contribution}
    (held : ((fresh roster own secretKey).after K inputs).slot own = some c) :
    c.OpensAt K (roster.party own).publicKey own := by
  obtain ⟨earlier, event, source, _, _, writes⟩ :=
    ((fresh_coherent roster own secretKey).exists_write (x := .slot own c) held).resolve_left
      (not_holds_fresh roster own secretKey _)
  have member := sameParty_after K (fresh roster own secretKey) earlier
  generalize (fresh roster own secretKey).after K earlier = s at writes member
  obtain ⟨state, progress, rfl⟩ := member
  obtain ⟨_, _, _, _, _, _, _, _, _, opens⟩ := Writes.made_of_slot writes
  exact opens

theorem Accepts.kind_of_sent {event : SessionEvent} {source source' : ρ} {s' : Session}
    {actions : List SessionAction} (write : s.Accepts K event source s' actions source')
    {e : Envelope} (listed : e ∈ sent actions) : e.kind ≠ .shareBroadcast := by
  cases write with
  | start =>
    obtain rfl := List.mem_singleton.1 listed
    nofun
  | offer =>
    obtain rfl := List.mem_singleton.1 listed
    nofun
  | response => cases listed
  | share => cases listed

/-- A contribution is sent in the step that fills the own slot with it. -/
theorem Coherent.contribution_sent (coherent : s.Coherent K) {event : SessionEvent} {source : ρ}
    {e : Envelope} (sent : e ∈ (s.handle K event source).sends) (kind : e.kind = .shareBroadcast) :
    ∃ c, e = s.envelope (.shareBroadcast c) ∧
      (s.handle K event source).session.slot s.own = some c := by
  have step := coherent.stepped event source
  generalize s.handle K event source = outcome at step sent
  cases step with
  | kept idle =>
    rw [SessionOutcome.sends, idle] at sent
    cases sent
  | @written s' actions source' _ write prepared =>
    have rests := prepared.toRunning.rests (K := K) actions source'
    generalize s'.advance K actions source' = outcome at rests sent
    cases rests with
    | quiet _ sends =>
      rw [sends (ok_of_sent sent)] at sent
      exact absurd kind (write.kind_of_sent sent)
    | contributed _ _ c _ _ _ _ _ _ slots sends =>
      rw [sends (ok_of_sent sent)] at sent
      have mine := List.mem_singleton.1
        ((List.mem_append.1 sent).resolve_left fun before => write.kind_of_sent before kind)
      have filled : outcome.session.slot s'.own = some c := by
        rw [slots, slot_withContribution, if_pos rfl]
      refine ⟨c, ?_⟩
      cases write
      all_goals exact ⟨mine, filled⟩

/-- A contribution that was sent in a run is in the own slot at its end. -/
theorem Coherent.contribution_of_sent (coherent : s.Coherent K) {inputs : List (SessionEvent × ρ)}
    {e : Envelope} (sent : e ∈ (s.outcomes K inputs).flatMap (·.sends))
    (kind : e.kind = .shareBroadcast) :
    ∃ c, e = s.envelope (.shareBroadcast c) ∧ (s.after K inputs).slot s.own = some c := by
  induction inputs generalizing s with
  | nil => cases sent
  | cons input rest ih =>
    obtain ⟨event, source⟩ := input
    have later := coherent.handle event source
    have member := s.sameParty_handle K event source
    rw [outcomes, List.flatMap_cons] at sent
    rcases List.mem_append.1 sent with now | sent
    · obtain ⟨c, rfl, filled⟩ := coherent.contribution_sent now kind
      exact ⟨c, rfl, later.slot_after filled rest⟩
    · obtain ⟨c, rfl, filled⟩ := ih later sent
      refine ⟨c, ?_, ?_⟩
      · obtain ⟨state, progress, same⟩ := member
        rw [same]
        rfl
      · rw [← member.own_eq]
        exact filled

/-- What is read from a contribution that was sent in a run is in the own slot at its end. -/
theorem Coherent.slot_of_read (coherent : s.Coherent K) {inputs : List (SessionEvent × ρ)}
    {e : Envelope} {c : Contribution} (sent : e ∈ (s.outcomes K inputs).flatMap (·.sends))
    (read : Payload.ofEnvelope e = .ok (.shareBroadcast c)) :
    (s.after K inputs).slot s.own = some c := by
  have kind : e.kind = .shareBroadcast := (Payload.kind_of_ofEnvelope read).symm
  obtain ⟨made, rfl, held⟩ := coherent.contribution_of_sent sent kind
  rw [envelope, Payload.ofEnvelope_toEnvelope (p := .shareBroadcast made) trivial] at read
  rw [held, Payload.shareBroadcast.inj (Except.ok.inj read)]

/-! ## Draws -/

/-- What a session that is started first has used of its randomness: nothing before its start, and
until it has its left key, what it took for its offer. -/
structure Spent (source : ρ) (s : Session) (rest : ρ) : Prop where
  unopened : s.progress.initiated = false → rest = source ∧ s.progress.keyLeft = none
  opened : s.progress.initiated = true → s.progress.keyLeft = none →
    rest = (RandomSource.draw 32 source).2

theorem spent_fresh (source : ρ) (roster : Roster) (own : Fin roster.size)
    (secretKey : SecretKey) : Spent source (fresh roster own secretKey) source :=
  ⟨fun _ => ⟨rfl, rfl⟩, fun begun => by cases begun⟩

/-- The account of a started session goes on over the rest of a step. -/
theorem Running.spent_advance (running : s.Running) {source rest : ρ} (spent : Spent source s rest)
    (begun : s.progress.initiated = true) (actions : List SessionAction)
    (alive : (s.advance K actions rest).session.state ≠ .aborted) :
    Spent source (s.advance K actions rest).session (s.advance K actions rest).source := by
  have later := (running.grown_advance actions rest).resolve_left alive
  refine ⟨fun unopened => ?_, fun _ keyless => ?_⟩
  · rw [later.initiated begun] at unopened
    cases unopened
  · have before : s.progress.keyLeft = none := by
      refine Option.eq_none_iff_forall_not_mem.2 fun key held => ?_
      rw [later.keyLeft key held] at keyless
      cases keyless
    rw [running.source_advance before]
    exact spent.opened begun before

/-- A step that does not fail keeps the account, if the session is started before it is handed
anything. -/
theorem Coherent.spent_handle (coherent : s.Coherent K) {source rest : ρ}
    (spent : Spent source s rest) {event : SessionEvent}
    (first : event = .start ∨ s.progress.initiated = true)
    (ok : (s.handle K event rest).error? = none)
    (alive : (s.handle K event rest).session.state ≠ .aborted) :
    Spent source (s.handle K event rest).session (s.handle K event rest).source := by
  by_cases aborted : s.state = .aborted
  · rw [s.handle_aborted K aborted]
    exact spent
  have step := s.handle_cases K aborted event rest
  generalize s.handle K event rest = outcome at step ok alive
  cases step with
  | ignored => exact spent
  | refused => cases ok
  | @accepted s' _ source' _ write advanced =>
    subst advanced
    have running := (coherent.prepared_of_accepts aborted write).toRunning
    have written : Spent source s' source' ∧ s'.progress.initiated = true := by
      cases write with
      | start fresh made =>
        obtain ⟨rfl, _⟩ := spent.unopened fresh
        refine ⟨⟨fun unopened => ?_, fun _ _ => rfl⟩, rfl⟩
        cases unopened
      | offer heard fresh made =>
        have begun := first.resolve_left (by simp)
        refine ⟨⟨fun unopened => ?_, fun _ keyless => ?_⟩, begun⟩
        · exact absurd (begun.symm.trans unopened) (by simp)
        · cases keyless
      | response => exact ⟨⟨spent.unopened, spent.opened⟩, first.resolve_left (by simp)⟩
      | share => exact ⟨⟨spent.unopened, spent.opened⟩, first.resolve_left (by simp)⟩
    exact running.spent_advance written.1 written.2 _ alive

end RingAgreement.Session
