import Mathlib.Data.List.Infix
import RingAgreement.Proofs.Medium.Basic
import RingAgreement.Proofs.Session.Enabled
import RingAgreement.Proofs.Session.Growth
/-!
What a session writes once. The two neighbour keys and the contributions are entries that are made
one time each: every entry goes back to the one event that has led to it, no other event touches
it, and it stays, but that an aborted session gives up its neighbour keys.
-/

namespace RingAgreement

/-- The contribution that an event brings to a party from the party at a position. -/
def SessionEvent.share? (own : UInt32) (sender : Nat) : SessionEvent → Option Contribution
  | .start => none
  | .received e =>
    if e.sender.toNat = sender ∧ e.recipient.includes own then
      match Payload.ofEnvelope e with
      | .ok (.shareBroadcast c) => some c
      | _ => none
    else none

namespace Session

/-- Something that a session writes down: the transcript of its offer, a neighbour key, or the
contribution of the party at a position. -/
inductive Entry where
  | transcript (transcript : Handshake.Transcript)
  | keyLeft (key : SharedSecret)
  | keyRight (key : SharedSecret)
  | slot (position : Nat) (contribution : Contribution)

variable {K : Kem} {s : Session} {ρ : Type}

def Holds (s : Session) : Entry → Prop
  | .transcript t => s.progress.transcript = some t
  | .keyLeft key => s.progress.keyLeft = some key
  | .keyRight key => s.progress.keyRight = some key
  | .slot i c => s.slot i = some c

/-- There is nothing in the place of an entry. -/
def Lacks (s : Session) : Entry → Prop
  | .transcript _ => s.progress.transcript = none
  | .keyLeft _ => s.progress.keyLeft = none
  | .keyRight _ => s.progress.keyRight = none
  | .slot i _ => s.slot i = none

/-- What a session keeps of its handshakes. -/
def links (s : Session) : Option Handshake.Transcript × Option SharedSecret × Option SharedSecret :=
  (s.progress.transcript, s.progress.keyLeft, s.progress.keyRight)

/-! ## The end of a step -/

/-- The messages among some actions. -/
def sent (actions : List SessionAction) : List Envelope := actions.filterMap (·.envelope?)

theorem Running.slot_conclude (running : s.Running) (actions : List SessionAction) (source : ρ) :
    (s.conclude K actions source).session.slot = s.slot := by
  have ended := s.conclude_cases K running actions source
  generalize s.conclude K actions source = outcome at ended
  cases ended <;> rfl

/-- A step ends with the links as they are, or it gives them all up with the run. -/
def Ends (s : Session) (outcome : SessionOutcome ρ) : Prop :=
  outcome.session.state ≠ .aborted ∧ outcome.session.links = s.links ∨
    outcome.session.state = .aborted ∧ outcome.session.links = (none, none, none) ∧
      outcome.sends = []

theorem Running.ends_conclude (running : s.Running) (actions : List SessionAction)
    (source : ρ) : s.Ends (s.conclude K actions source) := by
  have ended := s.conclude_cases K running actions source
  generalize s.conclude K actions source = outcome at ended
  cases ended with
  | waiting => exact .inl ⟨running.currentState.2, rfl⟩
  | completed => exact .inl ⟨by simp [completed], rfl⟩
  | aborted => exact .inr ⟨rfl, rfl, rfl⟩
  | refused => exact .inl ⟨running.alive, rfl⟩

theorem Running.sends_conclude (running : s.Running) (actions : List SessionAction) (source : ρ)
    (ok : (s.conclude K actions source).error? = none) :
    (s.conclude K actions source).sends = sent actions := by
  have ended := s.conclude_cases K running actions source
  generalize s.conclude K actions source = outcome at ended ok
  cases ended with
  | waiting => rfl
  | completed =>
    change sent (actions ++ [_]) = sent actions
    rw [sent, List.filterMap_append]
    exact List.append_nil _
  | aborted => cases ok
  | refused => cases ok

variable [RandomSource ρ]

/-- What the rest of a step can add after a write: nothing, or the own contribution. -/
inductive Rests (K : Kem) (s : Session) (actions : List SessionAction) (source : ρ)
    (outcome : SessionOutcome ρ) : Prop
  | quiet (slots : outcome.session.slot = s.slot)
      (sends : outcome.error? = none → outcome.sends = sent actions) :
      Rests K s actions source outcome
  | contributed (right left : SharedSecret) (c : Contribution) (due : s.slot s.own = none)
      (rightKey : s.progress.keyRight = some right) (leftKey : s.progress.keyLeft = some left)
      (share : c.share = .ofNeighborKeys right left)
      (coin : c.coin = ⟨(RandomSource.draw 44 source).1⟩)
      (opens : c.OpensAt K (s.roster.party s.own).publicKey s.own)
      (slots : outcome.session.slot = (s.withContribution s.own c).slot)
      (sends : outcome.error? = none →
        outcome.sends = sent actions ++ [s.envelope (.shareBroadcast c)]) :
      Rests K s actions source outcome

theorem Running.rests (running : s.Running) (actions : List SessionAction) (source : ρ) :
    s.Rests K actions source (s.advance K actions source) := by
  have ended := s.advance_cases K actions source
  generalize s.advance K actions source = outcome at ended
  cases ended with
  | silent undue ended =>
    subst ended
    exact .quiet (running.slot_conclude actions source) (running.sends_conclude actions source)
  | broadcast right left c due rightKey leftKey share coin opens ended =>
    subst ended
    have still := running.withContribution s.own c
    refine .contributed right left c due rightKey leftKey share coin opens
      (still.slot_conclude _ _) fun ok => ?_
    rw [still.sends_conclude _ _ ok, sent, List.filterMap_append]
    rfl
  | refused => exact .quiet rfl fun ok => by cases ok

theorem Running.ends_advance (running : s.Running) (actions : List SessionAction)
    (source : ρ) : s.Ends (s.advance K actions source) := by
  have ended := s.advance_cases K actions source
  generalize s.advance K actions source = outcome at ended
  cases ended with
  | silent undue ended =>
    subst ended
    exact running.ends_conclude actions source
  | broadcast right left c due rightKey leftKey share coin opens ended =>
    subst ended
    have still := running.withContribution s.own c
    exact still.ends_conclude _ _
  | refused => exact .inl ⟨running.alive, rfl⟩

/-! ## Entries -/

/-- The entries that an event can lead to, each with what it is made from. The own contribution is
made from both neighbour keys as they are after the write of the event, and sent to everyone if the
step goes well. -/
inductive Writes (K : Kem) (s : Session) : SessionEvent → ρ → Entry → Prop
  | transcript {source : ρ} {offer : Handshake.Offer} {transcript : Handshake.Transcript}
      (fresh : s.progress.initiated = false)
      (made : Handshake.initiate K (s.roster.party (s.roster.right s.own)).publicKey
        (RandomSource.draw 32 source).1 = .ok (offer, transcript)) :
      Writes K s .start source (.transcript transcript)
  | keyLeft {e : Envelope} {source : ρ} {offer : Handshake.Offer} {response : Handshake.Response}
      {key : SharedSecret} (heard : s.Hears e (s.roster.left s.own) (.akeInit offer))
      (made : Handshake.respond K offer s.secretKey
        (s.roster.party (s.roster.left s.own)).publicKey (RandomSource.draw 32 source).1 =
          .ok (response, key)) :
      Writes K s (.received e) source (.keyLeft key)
  | keyRight {e : Envelope} {source : ρ} {response : Handshake.Response}
      {transcript : Handshake.Transcript} {key : SharedSecret}
      (heard : s.Hears e (s.roster.right s.own) (.akeRespond response))
      (pending : s.progress.transcript = some transcript)
      (made : Handshake.finalize K response transcript s.secretKey = .ok key) :
      Writes K s (.received e) source (.keyRight key)
  | theirs {e : Envelope} {source : ρ} {sender : Fin s.roster.size} {c : Contribution}
      (heard : s.Hears e sender (.shareBroadcast c)) :
      Writes K s (.received e) source (.slot sender c)
  | own {event : SessionEvent} {source source' : ρ} {s' : Session} {actions : List SessionAction}
      {right left : SharedSecret} {c : Contribution}
      (write : s.Accepts K event source s' actions source')
      (rightKey : s'.progress.keyRight = some right) (leftKey : s'.progress.keyLeft = some left)
      (share : c.share = .ofNeighborKeys right left)
      (coin : c.coin = ⟨(RandomSource.draw 44 source').1⟩)
      (opens : c.OpensAt K (s.roster.party s.own).publicKey s.own)
      (sends : (s.handle K event source).error? = none →
        s.envelope (.shareBroadcast c) ∈ (s.handle K event source).sends) :
      Writes K s event source (.slot s.own c)

/-- An entry that is there after the rest of a step was there before, or it is the own contribution,
which the step has then sent if it has gone well. -/
theorem Running.holds_advance (running : s.Running) {actions : List SessionAction} {source : ρ}
    {x : Entry} (held : (s.advance K actions source).session.Holds x) :
    s.Holds x ∨ ∃ right left c, x = .slot s.own c ∧ s.slot s.own = none ∧
      s.progress.keyRight = some right ∧ s.progress.keyLeft = some left ∧
      c.share = .ofNeighborKeys right left ∧ c.coin = ⟨(RandomSource.draw 44 source).1⟩ ∧
      c.OpensAt K (s.roster.party s.own).publicKey s.own ∧
      ((s.advance K actions source).error? = none →
        s.envelope (.shareBroadcast c) ∈ (s.advance K actions source).sends) := by
  have links := running.ends_advance (K := K) actions source
  have rests := running.rests (K := K) actions source
  generalize s.advance K actions source = outcome at held links rests
  simp only [Ends, Session.links, Prod.mk.injEq] at links
  cases x with
  | transcript t =>
    rcases links with ⟨_, same, _⟩ | ⟨_, ⟨gone, _⟩, _⟩
    · exact .inl (same.symm.trans held)
    · cases gone.symm.trans held
  | keyLeft key =>
    rcases links with ⟨_, _, same, _⟩ | ⟨_, ⟨_, gone, _⟩, _⟩
    · exact .inl (same.symm.trans held)
    · cases gone.symm.trans held
  | keyRight key =>
    rcases links with ⟨_, _, _, same⟩ | ⟨_, ⟨_, _, gone⟩, _⟩
    · exact .inl (same.symm.trans held)
    · cases gone.symm.trans held
  | slot i d =>
    change outcome.session.slot i = some d at held
    cases rests with
    | quiet slots =>
      rw [slots] at held
      exact .inl held
    | contributed right left c due rightKey leftKey share coin opens slots sends =>
      rw [slots, slot_withContribution] at held
      split at held
      next here =>
        obtain rfl := Option.some.inj held
        subst here
        refine .inr ⟨right, left, c, rfl, due, rightKey, leftKey, share, coin, opens, fun ok => ?_⟩
        rw [sends ok]
        exact List.mem_append_right _ (List.mem_singleton_self _)
      next => exact .inl held

/-- An entry that is there after a write was there before, or the event has led to it. -/
theorem Coherent.holds_of_accepts (coherent : s.Coherent K) {event : SessionEvent}
    {source source' : ρ} {s' : Session} {actions : List SessionAction}
    (write : s.Accepts K event source s' actions source') {x : Entry} (held : s'.Holds x) :
    s.Holds x ∨ s.Lacks x ∧ s.Writes K event source x := by
  cases write with
  | start fresh made =>
    cases x with
    | transcript t =>
      obtain rfl := Option.some.inj held
      have lacks : s.progress.transcript = none := by
        refine Option.not_isSome_iff_eq_none.1 fun begun => ?_
        rw [coherent.begun (.inl begun)] at fresh
        cases fresh
      exact .inr ⟨lacks, .transcript fresh made⟩
    | _ => exact .inl held
  | offer heard fresh made =>
    cases x with
    | keyLeft key =>
      obtain rfl := Option.some.inj held
      exact .inr ⟨fresh, .keyLeft heard made⟩
    | _ => exact .inl held
  | response heard fresh pending made =>
    cases x with
    | transcript t => cases held
    | keyRight key =>
      obtain rfl := Option.some.inj held
      exact .inr ⟨fresh, .keyRight heard pending made⟩
    | _ => exact .inl held
  | @share _ _ sender c heard fresh =>
    cases x with
    | slot i d =>
      have held : (s.withContribution sender c).slot i = some d := held
      rw [slot_withContribution] at held
      split at held
      next here =>
        obtain rfl := Option.some.inj held
        subst here
        exact .inr ⟨fresh, .theirs heard⟩
      next => exact .inl held
    | _ => exact .inl held

/-- The own contribution is missing before a write if it is missing after. -/
theorem Accepts.due {event : SessionEvent} {source source' : ρ} {s' : Session}
    {actions : List SessionAction} (write : s.Accepts K event source s' actions source')
    (due : s'.slot s'.own = none) : s.slot s.own = none := by
  cases write with
  | share heard fresh =>
    have due : (s.withContribution _ _).slot s.own = none := due
    rw [slot_withContribution, if_neg fun own => heard.foreign (Fin.ext own)] at due
    exact due
  | _ => exact due

/-- An entry that is there after an event was there before, or its place was empty and the event
has led to it. -/
theorem Coherent.holds_cases (coherent : s.Coherent K) {event : SessionEvent} {source : ρ}
    {x : Entry} (held : (s.handle K event source).session.Holds x) :
    s.Holds x ∨ s.Lacks x ∧ s.Writes K event source x := by
  have step := coherent.stepped event source
  generalize handled : s.handle K event source = outcome at step held
  cases step with
  | kept => exact .inl held
  | written _ write prepared =>
    rcases prepared.toRunning.holds_advance held with written | ⟨right, left, c, rfl, due, rightKey,
      leftKey, share, coin, opens, sends⟩
    · exact coherent.holds_of_accepts write written
    · have lacks := write.due due
      have accepted := write
      rw [← handled] at sends
      -- No write makes the session another party's, so the contribution is its own in each case.
      cases write
      all_goals exact .inr ⟨lacks, .own accepted rightKey leftKey share coin opens sends⟩

/-! ## Runs -/

/-- An entry that is there after a run was there before, or one event of the run has led to it. -/
theorem Coherent.exists_write (coherent : s.Coherent K) {inputs : List (SessionEvent × ρ)}
    {x : Entry} (held : (s.after K inputs).Holds x) :
    s.Holds x ∨ ∃ earlier event source, earlier ++ [(event, source)] <+: inputs ∧
      (s.after K earlier).Lacks x ∧ (s.after K earlier).Writes K event source x := by
  induction inputs generalizing s with
  | nil => exact .inl held
  | cons input rest ih =>
    rcases ih (coherent.handle input.1 input.2) held with held | ⟨earlier, event, source, within,
      lacks, writes⟩
    · rcases coherent.holds_cases held with before | ⟨lacks, writes⟩
      · exact .inl before
      · exact .inr ⟨[], input.1, input.2, List.prefix_append [input] rest, lacks, writes⟩
    · refine .inr ⟨input :: earlier, event, source, ?_, lacks, writes⟩
      exact (List.prefix_cons_inj input).2 within

theorem not_holds_fresh (roster : Roster) (own : Fin roster.size) (secretKey : SecretKey)
    (x : Entry) : ¬ (fresh roster own secretKey).Holds x := by
  intro held
  cases x with
  | slot i c =>
    have stored : (fresh roster own secretKey).slot i = some c := held
    rw [fresh_slot] at stored
    cases stored
  | _ => cases held

/-! ## Contributions -/

/-- A contribution stays, even when the session is aborted. -/
theorem Rests.slot_kept {actions : List SessionAction} {source : ρ} {outcome : SessionOutcome ρ}
    (rests : s.Rests K actions source outcome) {i : Nat} {c : Contribution}
    (held : s.slot i = some c) : outcome.session.slot i = some c := by
  cases rests with
  | quiet slots => rw [slots, held]
  | contributed _ _ d due _ _ _ _ _ slots =>
    rw [slots]
    exact (grown_withContribution due d).slot i c held

theorem Coherent.slot_handle (coherent : s.Coherent K) {i : Nat} {c : Contribution}
    (held : s.slot i = some c) (event : SessionEvent) (source : ρ) :
    (s.handle K event source).session.slot i = some c := by
  have step := coherent.stepped event source
  generalize s.handle K event source = outcome at step
  cases step with
  | kept => exact held
  | written _ write prepared =>
    exact (prepared.toRunning.rests _ _).slot_kept (write.grown.slot i c held)

theorem Coherent.slot_after (coherent : s.Coherent K) {i : Nat} {c : Contribution}
    (held : s.slot i = some c) (inputs : List (SessionEvent × ρ)) :
    (s.after K inputs).slot i = some c := by
  induction inputs generalizing s with
  | nil => exact held
  | cons input rest ih =>
    exact ih (coherent.handle input.1 input.2) (coherent.slot_handle held input.1 input.2)

/-- An aborted session has all contributions. -/
def Exhausted (s : Session) : Prop := s.state = .aborted → ∀ i < s.roster.size, (s.slot i).isSome

theorem Running.filled_of_advance_aborted (running : s.Running) {actions : List SessionAction}
    {source : ρ} (aborted : (s.advance K actions source).session.state = .aborted)
    (i : Fin s.roster.size) : ((s.advance K actions source).session.slot i).isSome := by
  have ended := s.advance_cases K actions source
  generalize s.advance K actions source = outcome at ended aborted
  cases ended with
  | silent undue ended =>
    subst ended
    rw [running.slot_conclude]
    exact running.filled_of_conclude_aborted aborted i
  | broadcast right left c due rightKey leftKey share coin opens ended =>
    subst ended
    have still := running.withContribution s.own c
    rw [still.slot_conclude]
    exact still.filled_of_conclude_aborted aborted i
  | refused => exact absurd aborted running.alive

theorem Coherent.exhausted_handle (coherent : s.Coherent K) (exhausted : s.Exhausted)
    (event : SessionEvent) (source : ρ) : (s.handle K event source).session.Exhausted := by
  intro aborted i inside
  rw [(s.sameParty_handle K event source).roster_eq] at inside
  have step := coherent.stepped event source
  generalize s.handle K event source = outcome at step aborted
  cases step with
  | kept => exact exhausted aborted i inside
  | written _ write prepared =>
    rw [← write.sameParty.roster_eq] at inside
    exact prepared.toRunning.filled_of_advance_aborted aborted ⟨i, inside⟩

/-- The contribution of another party comes from that party. -/
theorem Writes.heard_of_slot {event : SessionEvent} {source : ρ} {i : Fin s.roster.size}
    {c : Contribution} (writes : s.Writes K event source (.slot i c)) (foreign : i ≠ s.own) :
    ∃ e, event = .received e ∧ s.Hears e i (.shareBroadcast c) := by
  generalize entry : Entry.slot i c = x at writes
  cases writes with
  | @theirs e _ sender d heard =>
    obtain ⟨here, rfl⟩ := Entry.slot.inj entry
    obtain rfl : i = sender := Fin.ext here
    exact ⟨e, rfl, heard⟩
  | own => exact absurd (Fin.ext (Entry.slot.inj entry).1) foreign
  | transcript => cases entry
  | keyLeft => cases entry
  | keyRight => cases entry

theorem Hears.share?_eq {e : Envelope} {sender : Fin s.roster.size} {c : Contribution}
    (heard : s.Hears e sender (.shareBroadcast c)) :
    (SessionEvent.received e).share? s.ownIndex sender = some c := by
  simp only [SessionEvent.share?, heard.sent, heard.addressed, and_self, if_true, heard.decoded]

theorem exists_hears_of_share? (unfinished : s.state ≠ .established) {sender : Fin s.roster.size}
    (foreign : sender ≠ s.own) {event : SessionEvent} {c : Contribution}
    (brought : event.share? s.ownIndex sender = some c) :
    ∃ e, event = .received e ∧ s.Hears e sender (.shareBroadcast c) := by
  cases event with
  | start => cases brought
  | received e =>
    rw [SessionEvent.share?] at brought
    split at brought
    next from_sender =>
      split at brought
      next decoded =>
        obtain rfl := Option.some.inj brought
        exact ⟨e, rfl, ⟨from_sender.1, foreign, from_sender.2, unfinished⟩, decoded⟩
      next => cases brought
    next => cases brought

/-- A step fills the empty slot of another party with what the event brings from that party. -/
theorem Coherent.slot_handle_eq (coherent : s.Coherent K) (exhausted : s.Exhausted)
    {i : Fin s.roster.size} (foreign : i ≠ s.own) (event : SessionEvent) (source : ρ) :
    (s.handle K event source).session.slot i =
      (s.slot i).or (event.share? s.ownIndex i) := by
  cases held : s.slot i with
  | some c => exact coherent.slot_handle held event source
  | none =>
    rw [Option.none_or]
    have alive : s.state ≠ .aborted := by
      intro aborted
      have filled := exhausted aborted i i.isLt
      rw [held] at filled
      cases filled
    have unfinished : s.state ≠ .established := by
      intro established
      obtain ⟨c, _, _, verified, _⟩ := coherent.of_established established
      exact absurd ((verified.filled i).symm.trans held) (by simp)
    cases brought : event.share? s.ownIndex i with
    | some c =>
      obtain ⟨e, rfl, heard⟩ := exists_hears_of_share? unfinished foreign brought
      have write : s.Accepts K (.received e) source (s.withContribution i c) [] source :=
        .share heard held
      have running := (coherent.prepared_of_accepts alive write).toRunning
      rw [write.handle_eq alive]
      refine (running.rests _ _).slot_kept ?_
      rw [slot_withContribution, if_pos rfl]
    | none =>
      refine Option.eq_none_iff_forall_not_mem.2 fun c stored => ?_
      rcases coherent.holds_cases (x := .slot i c) stored with before | ⟨_, writes⟩
      · cases held.symm.trans before
      · obtain ⟨e, rfl, heard⟩ := writes.heard_of_slot foreign
        cases brought.symm.trans heard.share?_eq

/-- Over a run the slot of another party is filled with the first contribution that is brought from
that party. -/
theorem Coherent.slot_after_eq (coherent : s.Coherent K) (exhausted : s.Exhausted)
    {i : Fin s.roster.size} (foreign : i ≠ s.own) (inputs : List (SessionEvent × ρ)) :
    (s.after K inputs).slot i =
      (s.slot i).or (inputs.findSome? fun input => input.1.share? s.ownIndex i) := by
  induction inputs generalizing s with
  | nil => exact (Option.or_none).symm
  | cons input rest ih =>
    obtain ⟨event, source⟩ := input
    have step := coherent.slot_handle_eq exhausted foreign event source
    have member := s.sameParty_handle K event source
    have later := coherent.handle event source
    have exhausted' := coherent.exhausted_handle exhausted event source
    change ((s.handle K event source).session.after K rest).slot i = _
    generalize (s.handle K event source).session = s' at step member later exhausted' ⊢
    obtain ⟨state, progress, rfl⟩ := member
    have rest_eq := ih later exhausted' (i := i) foreign
    rw [rest_eq, step, Option.or_assoc, List.findSome?_cons]
    cases event.share? s.ownIndex i <;> rfl

/-! ## Neighbour keys -/

/-- With the right key the transcript is used up. -/
def Redeemed (s : Session) : Prop := s.progress.keyRight.isSome → s.progress.transcript = none

theorem Coherent.redeemed_of_accepts (coherent : s.Coherent K) (redeemed : s.Redeemed)
    {event : SessionEvent} {source source' : ρ} {s' : Session} {actions : List SessionAction}
    (write : s.Accepts K event source s' actions source') : s'.Redeemed := by
  cases write with
  | start fresh made =>
    intro keyed
    rw [coherent.begun (.inr keyed)] at fresh
    cases fresh
  | response => exact fun _ => rfl
  | _ => exact redeemed

theorem Coherent.redeemed_handle (coherent : s.Coherent K) (redeemed : s.Redeemed)
    (event : SessionEvent) (source : ρ) : (s.handle K event source).session.Redeemed := by
  have step := coherent.stepped event source
  generalize s.handle K event source = outcome at step
  cases step with
  | kept => exact redeemed
  | @written s' actions source' _ write prepared =>
    have redeemed' := coherent.redeemed_of_accepts redeemed write
    have links := prepared.toRunning.ends_advance (K := K) actions source'
    simp only [Ends, Session.links, Prod.mk.injEq] at links
    rcases links with ⟨_, transcript, _, right⟩ | ⟨_, ⟨transcript, _⟩, _⟩
    · intro keyed
      rw [transcript]
      exact redeemed' (right ▸ keyed)
    · exact fun _ => transcript

theorem Coherent.redeemed_after (coherent : s.Coherent K) (redeemed : s.Redeemed)
    (inputs : List (SessionEvent × ρ)) : (s.after K inputs).Redeemed := by
  induction inputs generalizing s with
  | nil => exact redeemed
  | cons input rest ih =>
    exact ih (coherent.handle input.1 input.2) (coherent.redeemed_handle redeemed input.1 input.2)

/-- In a run a session makes an offer at its start, and later takes an answer of its right neighbour
that leads to a key with the transcript of that start. -/
inductive Exchanged (K : Kem) (start : Session) (inputs : List (SessionEvent × ρ))
    (key : SharedSecret) : Prop
  | intro {first second : List (SessionEvent × ρ)} {source source' : ρ} {e : Envelope}
      {response : Handshake.Response} {transcript : Handshake.Transcript}
      (opened : first ++ [(.start, source)] <+: second)
      (answered : second ++ [(.received e, source')] <+: inputs)
      (written : (start.after K first).Writes K .start source (.transcript transcript))
      (heard : (start.after K second).Hears e
        ((start.after K second).roster.right (start.after K second).own) (.akeRespond response))
      (made : Handshake.finalize K response transcript start.secretKey = .ok key) :
      Exchanged K start inputs key

theorem exchanged_of_keyRight {roster : Roster} {own : Fin roster.size} {secretKey : SecretKey}
    {inputs : List (SessionEvent × ρ)} {key : SharedSecret}
    (held : ((fresh roster own secretKey).after K inputs).progress.keyRight = some key) :
    (fresh roster own secretKey).Exchanged K inputs key := by
  have coherent : (fresh roster own secretKey).Coherent K := fresh_coherent roster own secretKey
  obtain ⟨second, event, source', answered, _, writes⟩ :=
    (coherent.exists_write (x := .keyRight key) held).resolve_left (not_holds_fresh _ _ _ _)
  cases writes with
  | @keyRight e _ response transcript _ heard pending made =>
    obtain ⟨first, event, source, opened, _, writes⟩ :=
      (coherent.exists_write (x := .transcript transcript) pending).resolve_left
        (not_holds_fresh _ _ _ _)
    rw [(sameParty_after K _ second).secretKey_eq] at made
    have written := writes
    cases writes with
    | transcript => exact .intro opened answered written heard made

/-- Whatever events a session is handed, its neighbour keys and its contributions are written once.
What an event adds to them was missing before and is made from the event. So everything that is
there goes back to one event of the run: an offer of the left neighbour for the left key, an answer
of the right neighbour for the right key, and the session's own making for its contribution. The
slot of another party holds the first contribution that came from that party. With the right key the
transcript that it was made from is gone. Later events change nothing of this, but that an aborted
session has no neighbour keys any more. -/
theorem entries_written_once (K : Kem) (roster : Roster) (own : Fin roster.size)
    (secretKey : SecretKey) (inputs : List (SessionEvent × ρ)) :
    let start := fresh roster own secretKey
    let s := start.after K inputs
    (∀ event (source : ρ) x, (s.handle K event source).session.Holds x →
      s.Holds x ∨ s.Lacks x ∧ s.Writes K event source x) ∧
    (∀ x, s.Holds x → ∃ earlier event source, earlier ++ [(event, source)] <+: inputs ∧
      (start.after K earlier).Lacks x ∧ (start.after K earlier).Writes K event source x) ∧
    (∀ i : Fin roster.size, i ≠ own →
      s.slot i = inputs.findSome? fun input => input.1.share? start.ownIndex i) ∧
    (∀ key, s.progress.keyRight = some key →
      s.progress.transcript = none ∧ start.Exchanged K inputs key) ∧
    ∀ later : List (SessionEvent × ρ), let s' := s.after K later
      (∀ i c, s.slot i = some c → s'.slot i = some c) ∧
      (s'.state ≠ .aborted → ∀ key,
        (s.progress.keyLeft = some key → s'.progress.keyLeft = some key) ∧
        (s.progress.keyRight = some key → s'.progress.keyRight = some key)) ∧
      (s'.state = .aborted → s'.progress.keyLeft = none ∧ s'.progress.keyRight = none) := by
  intro start s
  have unstarted : start.Coherent K := fresh_coherent roster own secretKey
  have coherent : s.Coherent K := unstarted.after inputs
  refine ⟨fun event source x held => coherent.holds_cases held, fun x held => ?_,
    fun i foreign => ?_, fun key held => ⟨?_, exchanged_of_keyRight held⟩,
    fun later => ⟨fun i c held => coherent.slot_after held later, fun alive key => ?_,
      fun aborted => ?_⟩⟩
  · exact (unstarted.exists_write held).resolve_left (not_holds_fresh _ _ _ _)
  · have first := unstarted.slot_after_eq (fun aborted => by cases aborted) (i := i) foreign inputs
    rwa [fresh_slot, Option.none_or] at first
  · exact unstarted.redeemed_after (fun keyed => by cases keyed) inputs (by rw [held]; rfl)
  · have grown := (coherent.grown_after later).resolve_left alive
    exact ⟨grown.keyLeft key, grown.keyRight key⟩
  · obtain ⟨left, right, _⟩ := (coherent.after later).erased aborted
    exact ⟨left, right⟩

end Session

end RingAgreement
