import RingAgreement.Proofs.Session.Coherence
/-!
What a session does with an event that it accepts: the write, and then as much of the rest of the
step as the progress allows.
-/

namespace RingAgreement.Session

variable {K : Kem} {s : Session} {ρ : Type} [RandomSource ρ]

theorem Hears.handle_eq {e : Envelope} {sender : Fin s.roster.size} {payload : Payload}
    (heard : s.Hears e sender payload) (alive : s.state ≠ .aborted) (source : ρ) :
    s.handle K (.received e) source = s.receivePayload K sender payload source := by
  have inside : e.sender.toNat < s.roster.size := by
    rw [heard.sent]
    exact sender.isLt
  have concerned : ¬ (e.sender.toNat = s.own ∨ (!e.recipient.includes s.ownIndex) ∨
      s.state = .established) := by
    rw [heard.sent, heard.addressed]
    simp [heard.unfinished, Fin.ext_iff.ne.1 heard.foreign]
  have position : (⟨e.sender.toNat, inside⟩ : Fin s.roster.size) = sender := Fin.ext heard.sent
  rw [handle, if_neg alive]
  simp only [receive, dif_pos inside, if_neg concerned, heard.decoded, position]

/-- An accepted event is answered with what follows from its write. -/
theorem Accepts.handle_eq {event : SessionEvent} {source source' : ρ} {s' : Session}
    {actions : List SessionAction} (write : s.Accepts K event source s' actions source')
    (alive : s.state ≠ .aborted) : s.handle K event source = s'.advance K actions source' := by
  cases write with
  | start fresh made =>
    rw [handle, if_neg alive]
    simp only [Session.start, fresh, Bool.false_eq_true, if_false, made]
    rfl
  | offer heard fresh made =>
    rw [heard.handle_eq alive]
    simp only [receivePayload, receiveOffer, ne_eq, not_true_eq_false, if_false, fresh,
      Option.isSome_none, Bool.false_eq_true, made]
    rfl
  | response heard fresh pending made =>
    rw [heard.handle_eq alive]
    simp only [receivePayload, receiveResponse, ne_eq, not_true_eq_false, if_false, fresh,
      Option.isSome_none, Bool.false_eq_true, pending, made]
    rfl
  | share heard fresh =>
    rw [heard.handle_eq alive]
    rw [receivePayload, receiveContribution, Fin.getElem_fin, getElem_contributions, fresh]
    rfl

omit [RandomSource ρ] in
/-- A step ends with waiting as long as a contribution is missing. -/
theorem Running.conclude_waiting (running : s.Running) {i : Fin s.roster.size}
    (missing : s.slot i = none) (actions : List SessionAction) (source : ρ) :
    s.conclude K actions source = ⟨.ok actions, s.refreshed, source⟩ := by
  have ended := s.conclude_cases K running actions source
  generalize s.conclude K actions source = outcome at ended
  cases ended with
  | waiting => rfl
  | completed c left verified =>
    have filled := verified.filled i
    rw [missing] at filled
    cases filled
  | aborted _ filled =>
    have present := filled i
    rw [missing] at present
    cases present
  | refused _ filled =>
    have present := filled i
    rw [missing] at present
    cases present

/-- A party that has not contributed and lacks a neighbour key waits. -/
theorem Running.advance_waiting (running : s.Running) (due : s.slot s.own = none)
    (missing : s.progress.keyRight = none ∨ s.progress.keyLeft = none)
    (actions : List SessionAction) (source : ρ) :
    s.advance K actions source = ⟨.ok actions, s.refreshed, source⟩ := by
  have ended := s.advance_cases K actions source
  generalize s.advance K actions source = outcome at ended
  cases ended with
  | broadcast right left _ _ rightKey leftKey => simp [rightKey, leftKey] at missing
  | refused right left _ _ rightKey leftKey => simp [rightKey, leftKey] at missing
  | silent undue ended =>
    subst ended
    exact running.conclude_waiting due actions source

omit [RandomSource ρ] in
/-- A step ends with the group key when all contributions are there and pass the checks. -/
theorem Running.conclude_verified (running : s.Running) {c : Fin s.roster.size → Contribution}
    (verified : s.Verified K c) {left : SharedSecret} (leftKey : s.progress.keyLeft = some left)
    (actions : List SessionAction) (source : ρ) :
    s.conclude K actions source =
      ⟨.ok (actions ++ [.established (s.keyFrom left c)]), s.completed (s.keyFrom left c),
        source⟩ := by
  have ended := s.conclude_cases K running actions source
  generalize s.conclude K actions source = outcome at ended
  cases ended with
  | waiting missing =>
    rcases missing with leftless | ⟨i, missing⟩
    · rw [leftKey] at leftless
      cases leftless
    · rw [verified.filled i] at missing
      cases missing
  | completed c' left' verified' leftKey' =>
    obtain rfl := eq_of_filled verified.filled verified'.filled
    obtain rfl := Option.some.inj (leftKey.symm.trans leftKey')
    rfl
  | aborted _ _ unverified => exact absurd verified (unverified c)
  | refused _ _ unverified => exact absurd verified (unverified c)

/-- A party with both neighbour keys sends its share, and the step ends. -/
theorem advance_contributes {right left : SharedSecret} {c : Contribution} {source : ρ}
    (due : s.slot s.own = none) (rightKey : s.progress.keyRight = some right)
    (leftKey : s.progress.keyLeft = some left) (share : c.share = .ofNeighborKeys right left)
    (coin : c.coin = ⟨(RandomSource.draw 44 source).1⟩)
    (opens : c.OpensAt K (s.roster.party s.own).publicKey s.own) (actions : List SessionAction) :
    s.advance K actions source =
      (s.withContribution s.own c).conclude K
        (actions ++ [.send (s.envelope (.shareBroadcast c))]) (RandomSource.draw 44 source).2 := by
  obtain ⟨_, commitment, _⟩ := c
  subst share coin
  have ended := s.advance_cases K actions source
  generalize s.advance K actions source = outcome at ended
  cases ended with
  | silent undue => simp [due, rightKey, leftKey] at undue
  | refused right' left' error _ rightKey' leftKey' failed =>
    obtain rfl := Option.some.inj (rightKey.symm.trans rightKey')
    obtain rfl := Option.some.inj (leftKey.symm.trans leftKey')
    cases opens.symm.trans failed
  | broadcast right' left' d _ rightKey' leftKey' share coin opens' ended =>
    obtain rfl := Option.some.inj (rightKey.symm.trans rightKey')
    obtain rfl := Option.some.inj (leftKey.symm.trans leftKey')
    obtain ⟨_, commitment', _⟩ := d
    subst share coin ended
    obtain rfl : commitment = commitment' := Except.ok.inj (opens.symm.trans opens')
    rfl

/-- A contribution that comes when the own one has been sent is stored, and the step ends. -/
theorem Hears.handle_share {e : Envelope} {sender : Fin s.roster.size} {c : Contribution}
    (heard : s.Hears e sender (.shareBroadcast c)) (alive : s.state ≠ .aborted)
    (fresh : s.slot sender = none) (sent : (s.slot s.own).isSome) (source : ρ) :
    s.handle K (.received e) source = (s.withContribution sender c).conclude K [] source := by
  have write : s.Accepts K (.received e) source (s.withContribution sender c) [] source :=
    .share heard fresh
  have held : ((s.withContribution sender c).slot s.own).isSome := by
    rw [slot_withContribution, if_neg fun own => heard.foreign (Fin.ext own)]
    exact sent
  rw [write.handle_eq alive]
  have ended := (s.withContribution sender c).advance_cases K [] source
  generalize (s.withContribution sender c).advance K [] source = outcome at ended
  cases ended with
  | silent _ ended => exact ended.symm
  | broadcast _ _ _ due =>
    rw [show (s.withContribution sender c).slot s.own = none from due] at held
    cases held
  | refused _ _ _ due =>
    rw [show (s.withContribution sender c).slot s.own = none from due] at held
    cases held

/-- A contribution that comes before the own one can be made is stored, and the party waits. -/
theorem Hears.handle_share_early {e : Envelope} {sender : Fin s.roster.size} {c : Contribution}
    (heard : s.Hears e sender (.shareBroadcast c)) (running : s.Running)
    (fresh : s.slot sender = none) (due : s.slot s.own = none)
    (missing : s.progress.keyRight = none ∨ s.progress.keyLeft = none) (source : ρ) :
    s.handle K (.received e) source =
      ⟨.ok [], (s.withContribution sender c).refreshed, source⟩ := by
  have write : s.Accepts K (.received e) source (s.withContribution sender c) [] source :=
    .share heard fresh
  have still : (s.withContribution sender c).slot s.own = none := by
    rw [slot_withContribution, if_neg fun own => heard.foreign (Fin.ext own), due]
  rw [write.handle_eq running.alive]
  exact (running.withContribution sender c).advance_waiting still missing [] source

/-- A party whose own key refuses the commitment to its share keeps what it has written. -/
theorem advance_refused {right left : SharedSecret} {error : CryptoError}
    (due : s.slot s.own = none) (rightKey : s.progress.keyRight = some right)
    (leftKey : s.progress.keyLeft = some left)
    (failed : ∀ message coin, Commitment.make K (s.roster.party s.own).publicKey message coin =
      .error error) (actions : List SessionAction) (source : ρ) :
    s.advance K actions source =
      ⟨.error (.crypto error), s, (RandomSource.draw 44 source).2⟩ := by
  have ended := s.advance_cases K actions source
  generalize s.advance K actions source = outcome at ended
  cases ended with
  | silent undue => simp [due, rightKey, leftKey] at undue
  | broadcast _ _ _ _ _ _ _ _ opens =>
    rw [Contribution.OpensAt, failed] at opens
    cases opens
  | refused _ _ _ _ _ _ refused =>
    rw [failed] at refused
    obtain rfl := Except.error.inj refused
    rfl

end RingAgreement.Session
