import RingAgreement.Proofs.Medium.Sound
import RingAgreement.Proofs.Session.Writes
/-!
What a session sends. Whatever it is handed, over its whole run it sends at most one offer, one
answer and one contribution, each to the parties it is meant for.
-/

namespace RingAgreement.Session

variable {K : Kem} {s : Session} {ρ : Type} [RandomSource ρ]

/-! ## Payloads -/

/-- The payloads that a session can send on an event: its offer at the start, the answer to an
offer of its left neighbour, and its own contribution. -/
inductive Emits (K : Kem) (s : Session) : SessionEvent → ρ → Payload → Prop
  | offer {source : ρ} {offer : Handshake.Offer} {transcript : Handshake.Transcript}
      (fresh : s.progress.initiated = false)
      (made : Handshake.initiate K (s.roster.party (s.roster.right s.own)).publicKey
        (RandomSource.draw 32 source).1 = .ok (offer, transcript)) :
      Emits K s .start source (.akeInit offer)
  | response {e : Envelope} {source : ρ} {offer : Handshake.Offer} {response : Handshake.Response}
      {key : SharedSecret} (heard : s.Hears e (s.roster.left s.own) (.akeInit offer))
      (fresh : s.progress.keyLeft = none)
      (made : Handshake.respond K offer s.secretKey
        (s.roster.party (s.roster.left s.own)).publicKey (RandomSource.draw 32 source).1 =
          .ok (response, key)) :
      Emits K s (.received e) source (.akeRespond response)
  | share {event : SessionEvent} {source : ρ} {right left : SharedSecret} {c : Contribution}
      (fresh : s.slot s.own = none)
      (rightKey : (s.handle K event source).session.progress.keyRight = some right)
      (leftKey : (s.handle K event source).session.progress.keyLeft = some left)
      (share : c.share = .ofNeighborKeys right left) :
      Emits K s event source (.shareBroadcast c)

theorem Emits.sendable {event : SessionEvent} {source : ρ} {p : Payload}
    (emits : s.Emits K event source p) : p.Sendable := by
  cases emits <;> trivial

theorem Emits.addressed {event : SessionEvent} {source : ρ} {p : Payload}
    (emits : s.Emits K event source p) :
    p.kind = .akeInit ∧ s.recipient p = .party s.rightIndex ∨
      p.kind = .akeRespond ∧ s.recipient p = .party s.leftIndex ∨
      p.kind = .shareBroadcast ∧ s.recipient p = .everyone := by
  cases emits with
  | offer => exact .inl ⟨rfl, rfl⟩
  | response => exact .inr (.inl ⟨rfl, rfl⟩)
  | share => exact .inr (.inr ⟨rfl, rfl⟩)

omit [RandomSource ρ] in
theorem sends_of_error {outcome : SessionOutcome ρ} (failed : outcome.error? ≠ none) :
    outcome.sends = [] := by
  obtain ⟨result, session, source⟩ := outcome
  cases result with
  | ok => exact absurd rfl failed
  | error => rfl

omit [RandomSource ρ] in
theorem ok_of_sent {outcome : SessionOutcome ρ} {e : Envelope} (sent : e ∈ outcome.sends) :
    outcome.error? = none := by
  by_contra failed
  rw [sends_of_error failed] at sent
  cases sent

omit [RandomSource ρ] in
/-- A step that sends something has not given up its keys. -/
theorem Ends.links_of_sent {outcome : SessionOutcome ρ} (ends : s.Ends outcome) {e : Envelope}
    (sent : e ∈ outcome.sends) : outcome.session.links = s.links := by
  rcases ends with ⟨_, kept⟩ | ⟨_, _, silent⟩
  · exact kept
  · rw [silent] at sent
    cases sent

theorem Accepts.emits {event : SessionEvent} {source source' : ρ} {s' : Session}
    {actions : List SessionAction} (write : s.Accepts K event source s' actions source')
    {e : Envelope} (listed : e ∈ sent actions) :
    ∃ p, e = s.envelope p ∧ s.Emits K event source p := by
  cases write with
  | start fresh made =>
    obtain rfl := List.mem_singleton.1 listed
    exact ⟨_, rfl, .offer fresh made⟩
  | offer heard fresh made =>
    obtain rfl := List.mem_singleton.1 listed
    exact ⟨_, rfl, .response heard fresh made⟩
  | response => cases listed
  | share => cases listed

/-- Every message that a session sends carries one of its payloads. -/
theorem Coherent.emits_of_sent (coherent : s.Coherent K) {event : SessionEvent} {source : ρ}
    {e : Envelope} (sent : e ∈ (s.handle K event source).sends) :
    ∃ p, e = s.envelope p ∧ s.Emits K event source p := by
  have step := coherent.stepped event source
  generalize handled : s.handle K event source = outcome at step sent
  cases step with
  | kept idle =>
    rw [SessionOutcome.sends, idle] at sent
    cases sent
  | @written s' actions source' _ write prepared =>
    have ends := prepared.toRunning.ends_advance (K := K) actions source'
    have rests := prepared.toRunning.rests (K := K) actions source'
    generalize s'.advance K actions source' = outcome at handled ends rests sent
    have ok := ok_of_sent sent
    have kept := ends.links_of_sent sent
    cases rests with
    | quiet _ sends =>
      rw [sends ok] at sent
      exact write.emits sent
    | contributed right left c due rightKey leftKey share coin opens slots sends =>
      rw [sends ok] at sent
      rcases List.mem_append.1 sent with before | contributed
      · exact write.emits before
      · obtain rfl := List.mem_singleton.1 contributed
        simp only [links, Prod.mk.injEq] at kept
        have rightKey' := kept.2.2.trans rightKey
        have leftKey' := kept.2.1.trans leftKey
        rw [← handled] at rightKey' leftKey'
        have fresh := write.due due
        refine ⟨.shareBroadcast c, ?_, .share fresh rightKey' leftKey' share⟩
        cases write
        all_goals rfl

/-! ## Numbers -/

/-- How many messages of a kind a session has used up: all that it could send, once it is
aborted. -/
def used (s : Session) (kind : MessageKind) : Nat :=
  if s.state = .aborted then 1 else s.tally kind

theorem tally_le_one (s : Session) (kind : MessageKind) : s.tally kind ≤ 1 := by
  cases kind with
  | akeInit => exact Bool.toNat_le _
  | akeRespond => exact Bool.toNat_le _
  | shareBroadcast => exact Bool.toNat_le _
  | _ => exact Nat.zero_le 1

theorem used_le_one (s : Session) (kind : MessageKind) : s.used kind ≤ 1 := by
  unfold used
  split
  · exact Nat.le_refl 1
  · exact s.tally_le_one kind

theorem used_of_alive (alive : s.state ≠ .aborted) (kind : MessageKind) :
    s.used kind = s.tally kind := if_neg alive

/-- How many messages of a kind there are in a list. -/
def number (kind : MessageKind) (sent : List Envelope) : Nat := (sent.map (·.kind)).count kind

theorem number_append (kind : MessageKind) (sent more : List Envelope) :
    number kind (sent ++ more) = number kind sent + number kind more := by
  rw [number, List.map_append, List.count_append]
  rfl

/-- A write uses up the messages that go with it. -/
theorem Accepts.tally_eq {event : SessionEvent} {source source' : ρ} {s' : Session}
    {actions : List SessionAction} (write : s.Accepts K event source s' actions source')
    (kind : MessageKind) : s.tally kind + number kind (sent actions) = s'.tally kind := by
  cases write with
  | start fresh made =>
    cases kind with
    | akeInit =>
      have unused : s.tally .akeInit = 0 := congrArg Bool.toNat fresh
      rw [unused]
      rfl
    | _ => rfl
  | offer heard fresh made =>
    cases kind with
    | akeRespond =>
      have unused : s.tally .akeRespond = 0 := congrArg (·.isSome.toNat) fresh
      rw [unused]
      rfl
    | _ => rfl
  | response => cases kind <;> rfl
  | @share _ _ sender c heard fresh =>
    cases kind with
    | shareBroadcast =>
      have elsewhere : (s.withContribution sender c).slot s.own = s.slot s.own := by
        rw [slot_withContribution, if_neg fun own => heard.foreign (Fin.ext own)]
      exact congrArg (·.isSome.toNat) elsewhere.symm
    | _ => rfl

omit [RandomSource ρ] in
theorem number_le_of_sends {outcome : SessionOutcome ρ} {sent : List Envelope}
    (sends : outcome.error? = none → outcome.sends = sent) (kind : MessageKind) :
    number kind outcome.sends ≤ number kind sent := by
  by_cases ok : outcome.error? = none
  · rw [sends ok]
  · rw [sends_of_error ok]
    exact Nat.zero_le _

theorem tally_congr {s' : Session} (begun : s'.progress.initiated = s.progress.initiated)
    (left : s'.progress.keyLeft = s.progress.keyLeft) (own : s'.slot s'.own = s.slot s.own)
    (kind : MessageKind) : s'.tally kind = s.tally kind := by
  cases kind with
  | akeInit => exact congrArg Bool.toNat begun
  | akeRespond => exact congrArg (·.isSome.toNat) left
  | shareBroadcast => exact congrArg (·.isSome.toNat) own
  | _ => rfl

/-- The own contribution uses up the message that it is sent with. -/
theorem tally_withContribution (due : s.slot s.own = none) (c : Contribution)
    (kind : MessageKind) :
    s.tally kind + number kind [s.envelope (.shareBroadcast c)] =
      (s.withContribution s.own c).tally kind := by
  cases kind with
  | shareBroadcast =>
    have unused : s.tally .shareBroadcast = 0 := congrArg (·.isSome.toNat) due
    have filled : (s.withContribution s.own c).slot s.own = some c := by
      rw [slot_withContribution, if_pos rfl]
    rw [unused]
    exact congrArg (·.isSome.toNat) filled.symm
  | _ => rfl

/-- Only the own contribution is sent after a write, and it is used up with that. -/
theorem Running.tally_advance (running : s.Running) {actions : List SessionAction} {source : ρ}
    (alive : (s.advance K actions source).session.state ≠ .aborted) (kind : MessageKind) :
    s.tally kind + number kind (s.advance K actions source).sends ≤
      (s.advance K actions source).session.tally kind + number kind (sent actions) := by
  have ends := running.ends_advance (K := K) actions source
  have rests := running.rests (K := K) actions source
  have begun := (s.follows_advance K actions source).initiated
  have own := (s.follows_advance K actions source).sameParty.own_eq
  generalize s.advance K actions source = outcome at alive ends rests begun own
  have kept : outcome.session.links = s.links := (ends.resolve_right fun ended => alive ended.1).2
  have left : outcome.session.progress.keyLeft = s.progress.keyLeft := congrArg (·.2.1) kept
  cases rests with
  | quiet slots sends =>
    have same : outcome.session.tally kind = s.tally kind :=
      tally_congr begun left (by rw [slots, own]) kind
    have numbered := number_le_of_sends sends kind
    omega
  | contributed _ _ c due _ _ _ _ _ slots sends =>
    have same : outcome.session.tally kind = (s.withContribution s.own c).tally kind :=
      tally_congr (s := s.withContribution s.own c) begun left (by rw [slots, own]; rfl) kind
    have gained := tally_withContribution due c kind
    have numbered := number_le_of_sends sends kind
    rw [number_append] at numbered
    omega

theorem Coherent.used_handle (coherent : s.Coherent K) (event : SessionEvent) (source : ρ)
    (kind : MessageKind) :
    s.used kind + number kind (s.handle K event source).sends ≤
      (s.handle K event source).session.used kind := by
  have step := coherent.stepped event source
  generalize s.handle K event source = outcome at step
  cases step with
  | kept idle =>
    rw [SessionOutcome.sends, idle]
    exact Nat.le_refl _
  | @written s' actions source' alive write prepared =>
    have running := prepared.toRunning
    by_cases ended : (s'.advance K actions source').session.state = .aborted
    · have silent : (s'.advance K actions source').sends = [] := by
        rcases running.ends_advance (K := K) actions source' with ⟨going, _⟩ | ⟨_, _, silent⟩
        · exact absurd ended going
        · exact silent
      rw [silent]
      exact (s.used_le_one kind).trans (Nat.le_of_eq (if_pos ended).symm)
    · have write_eq := write.tally_eq kind
      have advance_le := running.tally_advance ended kind
      rw [used_of_alive alive, used_of_alive ended]
      omega

/-- What a session sends over a run stays within what it has not used up before. -/
theorem Coherent.used_after (coherent : s.Coherent K) (inputs : List (SessionEvent × ρ))
    (kind : MessageKind) :
    s.used kind + number kind ((s.outcomes K inputs).flatMap (·.sends)) ≤
      (s.after K inputs).used kind := by
  induction inputs generalizing s with
  | nil => exact Nat.le_refl _
  | cons input rest ih =>
    have step := coherent.used_handle input.1 input.2 kind
    have later := ih (coherent.handle input.1 input.2)
    change s.used kind + number kind ((s.handle K input.1 input.2).sends ++
      ((s.handle K input.1 input.2).session.outcomes K rest).flatMap (·.sends)) ≤
        ((s.handle K input.1 input.2).session.after K rest).used kind
    rw [number_append]
    omega

/-- What is sent over a run is sent in one step of it. -/
theorem exists_step_of_sent {inputs : List (SessionEvent × ρ)} {e : Envelope}
    (sent : e ∈ (s.outcomes K inputs).flatMap (·.sends)) :
    ∃ earlier event source, earlier ++ [(event, source)] <+: inputs ∧
      e ∈ ((s.after K earlier).handle K event source).sends := by
  induction inputs generalizing s with
  | nil => cases sent
  | cons input rest ih =>
    obtain ⟨event, source⟩ := input
    rw [outcomes, List.flatMap_cons] at sent
    rcases List.mem_append.1 sent with now | later
    · exact ⟨[], event, source, List.prefix_append [(event, source)] rest, now⟩
    · obtain ⟨earlier, event', source', within, sent⟩ := ih later
      exact ⟨(event, source) :: earlier, event', source',
        (List.prefix_cons_inj (event, source)).2 within, sent⟩

/-! ## The end -/

theorem Coherent.actions_of_ended (coherent : s.Coherent K)
    (ended : s.state = .established ∨ s.state = .aborted) (event : SessionEvent) (source : ρ) :
    (s.handle K event source).actions = [] := by
  rcases ended with established | aborted
  · cases event with
    | start =>
      rw [coherent.start_established established]
      rfl
    | received e =>
      rw [receive_established established]
      by_cases inside : e.sender.toNat < s.roster.size
      · simp only [SessionOutcome.actions, if_pos inside]
      · simp only [SessionOutcome.actions, if_neg inside]
  · rw [s.handle_aborted K aborted]
    rfl

/-- Whatever events a session is handed, over the whole run it sends at most one message of each
kind: an offer to its right neighbour, an answer to its left neighbour, and a contribution to
everyone, each in its own name and with a payload that can be read. A contribution is only sent when
both neighbour keys are there, and its share is their exclusive or. A session that is established or
aborted does nothing any more. -/
theorem sends_within_budget (K : Kem) (roster : Roster) (own : Fin roster.size)
    (secretKey : SecretKey) (inputs : List (SessionEvent × ρ)) :
    let start := fresh roster own secretKey
    let s := start.after K inputs
    let messages := (start.outcomes K inputs).flatMap (·.sends)
    (∀ kind, (messages.map (·.kind)).count kind ≤ 1) ∧
    (∀ e ∈ messages, e.sender = .ofNat own ∧
      (e.kind = .akeInit ∧ e.recipient = .party (.ofNat (roster.right own)) ∨
        e.kind = .akeRespond ∧ e.recipient = .party (.ofNat (roster.left own)) ∨
        e.kind = .shareBroadcast ∧ e.recipient = .everyone) ∧
      ∃ p, p.kind = e.kind ∧ Payload.decode e.kind e.content = .ok p) ∧
    (∀ event (source : ρ), ∀ e ∈ (s.handle K event source).sends, e.kind = .shareBroadcast →
      ∃ right left c, (s.handle K event source).session.progress.keyRight = some right ∧
        (s.handle K event source).session.progress.keyLeft = some left ∧
        Payload.ofEnvelope e = .ok (.shareBroadcast c) ∧
        c.share.bytes = right.bytes ^^^ left.bytes) ∧
    (s.state = .established ∨ s.state = .aborted →
      ∀ event (source : ρ), (s.handle K event source).actions = []) := by
  intro start s messages
  have unstarted : start.Coherent K := fresh_coherent roster own secretKey
  have coherent : s.Coherent K := unstarted.after inputs
  refine ⟨fun kind => ?_, fun e sent => ?_, fun event source e sent kind => ?_,
    coherent.actions_of_ended⟩
  · have within := unstarted.used_after inputs kind
    exact (Nat.le_add_left _ _).trans (within.trans (s.used_le_one kind))
  · obtain ⟨earlier, event, source, _, sent⟩ := exists_step_of_sent sent
    obtain ⟨p, rfl, emits⟩ := (unstarted.after earlier).emits_of_sent sent
    have member := sameParty_after K start earlier
    generalize start.after K earlier = s' at emits member
    obtain ⟨state, progress, rfl⟩ := member
    exact ⟨rfl, emits.addressed, p, rfl, Payload.decode_encode emits.sendable⟩
  · obtain ⟨p, rfl, emits⟩ := coherent.emits_of_sent sent
    have read := Payload.ofEnvelope_toEnvelope emits.sendable s.ownIndex (s.recipient p)
    cases emits with
    | offer => cases kind
    | response => cases kind
    | @share _ _ right left c _ rightKey leftKey share =>
      exact ⟨right, left, c, rightKey, leftKey, read, congrArg Share.bytes share⟩

end RingAgreement.Session
