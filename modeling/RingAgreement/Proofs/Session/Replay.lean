import RingAgreement.Proofs.Medium.Basic
import RingAgreement.Proofs.Session.Enabled
import RingAgreement.Proofs.Session.Growth
import RingAgreement.Proofs.Wire.RoundTrip
/-!
Messages that come again. Once a session has taken a message without an error, it passes the message
over whenever it comes again, unless its run has been aborted in the meantime.
-/

namespace RingAgreement.Session

variable {K : Kem} {s : Session} {ρ : Type} [RandomSource ρ]

/-- The session has nothing more to do with a message. -/
def Past (s : Session) (e : Envelope) : Prop := s.state = .aborted ∨ s.Ignores (.received e)

theorem Ignores.handle_eq {e : Envelope} (ignores : s.Ignores (.received e))
    (alive : s.state ≠ .aborted) (source : ρ) :
    s.handle K (.received e) source = ⟨.ok [], s, source⟩ := by
  cases ignores with
  | @passed _ sender sent unconcerned =>
    have inside : e.sender.toNat < s.roster.size := by
      rw [sent]
      exact sender.isLt
    have concerned : e.sender.toNat = s.own ∨ (!e.recipient.includes s.ownIndex) ∨
        s.state = .established := by
      rcases unconcerned with own | elsewhere | established
      · exact .inl (by rw [sent, own])
      · exact .inr (.inl (by rw [elsewhere]; rfl))
      · exact .inr (.inr established)
    rw [handle, if_neg alive]
    simp only [receive, dif_pos inside, if_pos concerned]
  | offer heard known =>
    rw [heard.handle_eq alive]
    simp only [receivePayload, receiveOffer, ne_eq, not_true_eq_false, if_false, if_pos known]
  | response heard known =>
    rw [heard.handle_eq alive]
    simp only [receivePayload, receiveResponse, ne_eq, not_true_eq_false, if_false, if_pos known]
  | share heard known =>
    rw [heard.handle_eq alive]
    rw [receivePayload, receiveContribution, Fin.getElem_fin, getElem_contributions, if_pos known]

/-- A later state of the session passes the message over as well. -/
theorem Ignores.later {s' : Session} {e : Envelope} (ignores : s.Ignores (.received e))
    (unfinished : s.state ≠ .established) (member : s.SameParty s') (grown : s.Grown s') :
    s'.Ignores (.received e) := by
  obtain ⟨state, progress, rfl⟩ := member
  by_cases established : state = .established
  · cases ignores with
    | passed sent => exact .passed sent (.inr (.inr established))
    | offer heard => exact .passed heard.sent (.inr (.inr established))
    | response heard => exact .passed heard.sent (.inr (.inr established))
    | share heard => exact .passed heard.sent (.inr (.inr established))
  · cases ignores with
    | passed sent unconcerned =>
      rcases unconcerned with own | elsewhere | ended
      · exact .passed sent (.inl own)
      · exact .passed sent (.inr (.inl elsewhere))
      · exact absurd ended unfinished
    | offer heard known =>
      exact .offer ⟨⟨heard.sent, heard.foreign, heard.addressed, established⟩, heard.decoded⟩
        (isSome_of_grown grown.keyLeft known)
    | response heard known =>
      exact .response ⟨⟨heard.sent, heard.foreign, heard.addressed, established⟩, heard.decoded⟩
        (isSome_of_grown grown.keyRight known)
    | @share _ sender _ heard known =>
      exact .share ⟨⟨heard.sent, heard.foreign, heard.addressed, established⟩, heard.decoded⟩
        (isSome_of_grown (grown.slot sender) known)

/-- The write that a message has led to makes the session pass it over. -/
theorem Accepts.ignores {e : Envelope} {source source' : ρ} {s' : Session}
    {actions : List SessionAction}
    (write : s.Accepts K (.received e) source s' actions source') : s'.Ignores (.received e) := by
  cases write with
  | offer heard =>
    exact .offer ⟨⟨heard.sent, heard.foreign, heard.addressed, heard.unfinished⟩, heard.decoded⟩ rfl
  | response heard =>
    exact .response ⟨⟨heard.sent, heard.foreign, heard.addressed, heard.unfinished⟩,
      heard.decoded⟩ rfl
  | @share _ _ sender c heard =>
    refine .share ⟨⟨heard.sent, heard.foreign, heard.addressed, heard.unfinished⟩, heard.decoded⟩ ?_
    rw [slot_withContribution, if_pos rfl]
    rfl

/-- A message that was answered without an error is done with. -/
theorem Coherent.past_of_ok (coherent : s.Coherent K) {e : Envelope} {source : ρ}
    {actions : List SessionAction}
    (ok : (s.handle K (.received e) source).result = .ok actions) :
    (s.handle K (.received e) source).session.Past e := by
  by_cases aborted : s.state = .aborted
  · rw [s.handle_aborted K aborted] at ok
    cases ok
  have step := s.handle_cases K aborted (.received e) source
  generalize s.handle K (.received e) source = outcome at step ok
  cases step with
  | ignored reason => exact .inr reason
  | refused => cases ok
  | @accepted s' written source' _ write advanced =>
    subst advanced
    have running := (coherent.prepared_of_accepts aborted write).toRunning
    refine (running.grown_advance written source').imp_right fun grown => ?_
    exact write.ignores.later running.unfinished (s'.follows_advance K _ _).sameParty grown

theorem Coherent.past_handle (coherent : s.Coherent K) {e : Envelope} (past : s.Past e)
    (event : SessionEvent) (source : ρ) : (s.handle K event source).session.Past e := by
  rcases past with aborted | ignores
  · rw [s.handle_aborted K aborted]
    exact .inl aborted
  · by_cases established : s.state = .established
    · rw [coherent.handle_established established]
      exact .inr ignores
    · exact (coherent.grown_handle event source).imp_right
        (ignores.later established (s.sameParty_handle K event source))

theorem Coherent.past_after (coherent : s.Coherent K) {e : Envelope} (past : s.Past e)
    (inputs : List (SessionEvent × ρ)) : (s.after K inputs).Past e := by
  induction inputs generalizing s with
  | nil => exact past
  | cons input rest ih =>
    exact ih (coherent.handle input.1 input.2) (coherent.past_handle past input.1 input.2)

theorem Past.handle_eq {e : Envelope} (past : s.Past e) (source : ρ) :
    s.handle K (.received e) source =
      ⟨if s.state = .aborted then .error .aborted else .ok [], s, source⟩ := by
  by_cases aborted : s.state = .aborted
  · rw [s.handle_aborted K aborted, if_pos aborted]
  · rw [(past.resolve_left aborted).handle_eq aborted, if_neg aborted]

/-- A session that has once answered an envelope without an error does nothing when the envelope
comes again, at whatever time: the answer is empty, nothing is drawn and the session stays as it is.
Only an aborted session refuses the envelope, as it refuses everything. -/
theorem taken_envelope_passed_over (K : Kem) (roster : Roster) (own : Fin roster.size)
    (secretKey : SecretKey) (inputs : List (SessionEvent × ρ)) (e : Envelope) (source : ρ)
    (actions : List SessionAction)
    (taken : (((fresh roster own secretKey).after K inputs).handle K (.received e) source).result =
      .ok actions) (later : List (SessionEvent × ρ)) (source' : ρ) :
    let s := (fresh roster own secretKey).after K inputs
    let reached := (s.handle K (.received e) source).session.after K later
    reached.handle K (.received e) source' =
      ⟨if reached.state = .aborted then .error .aborted else .ok [], reached, source'⟩ := by
  intro s reached
  have coherent : s.Coherent K := (fresh_coherent roster own secretKey).after inputs
  have past := (coherent.handle (.received e) source).past_after (coherent.past_of_ok taken) later
  exact past.handle_eq source'

/-- The first of three parties takes a share of the second one before it has started. It passes
the share over when it comes again after the start and after a different share. -/
theorem early_share_passed_over :
    let start := fresh HonestRing.trio.roster ⟨0, by decide⟩ default
    let c (byte : UInt8) : Contribution :=
      ⟨⟨.replicate 32 byte⟩, ⟨default, default, default⟩, default⟩
    let share (byte : UInt8) : Envelope := (Payload.shareBroadcast (c byte)).toEnvelope 1 .everyone
    let source : DrawCounter := ⟨0⟩
    let taken := (start.after (ρ := DrawCounter) .transparent []).handle .transparent
      (.received (share 1)) source
    let reached := taken.session.after .transparent
      [(.received (share 2), source), (.start, source)]
    taken.result = .ok [] ∧ reached.handle .transparent (.received (share 1)) source =
      ⟨if reached.state = .aborted then .error .aborted else .ok [], reached, source⟩ := by
  intro start c share source taken reached
  have prepared : start.Prepared := (fresh_coherent _ _ _ : start.Coherent .transparent).prepared
    (by simp [fresh]) (by simp [fresh])
  have empty : ∀ i, start.slot i = none := fresh_slot _ _ _
  have heard : start.Hears (share 1) ⟨1, by decide⟩ (.shareBroadcast (c 1)) :=
    ⟨⟨rfl, by decide, rfl, prepared.unfinished⟩,
      Payload.ofEnvelope_toEnvelope (p := .shareBroadcast (c 1)) trivial _ _⟩
  have write : start.Accepts .transparent (.received (share 1)) source _ _ _ :=
    .share heard (empty _)
  have ok : taken.result = .ok [] := by
    have due : (start.withContribution ⟨1, by decide⟩ (c 1)).slot start.own = none := by
      rw [slot_withContribution, if_neg (by decide), empty]
    change (start.handle .transparent (.received (share 1)) source).result = _
    rw [write.handle_eq prepared.alive,
      (write.prepared prepared).toRunning.advance_waiting due (.inl rfl)]
  exact ⟨ok, taken_envelope_passed_over .transparent _ _ _ [] _ source _ ok _ source⟩

end RingAgreement.Session
