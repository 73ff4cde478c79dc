import RingAgreement.Proofs.Session.Verification
/-!
What one event can do to a session. An accepted event writes into the progress; then the own share
may be broadcast, and then the run may end. Each of the three parts has one relation that lists its
outcomes, with everything that led to them, and one theorem that there are no others.
-/

namespace RingAgreement

/-- The actions of a step; an error comes with none. -/
def SessionOutcome.actions {ρ : Type} (outcome : SessionOutcome ρ) : List SessionAction :=
  match outcome.result with
  | .ok actions => actions
  | .error _ => []

namespace Session

variable (s : Session) {ρ : Type}

/-! ## Writes -/

def opened (transcript : Handshake.Transcript) : Session :=
  { s with progress := { s.progress with transcript := some transcript, initiated := true } }

def answered (key : SharedSecret) : Session :=
  { s with progress := { s.progress with keyLeft := some key } }

def confirmed (key : SharedSecret) : Session :=
  { s with progress := { s.progress with transcript := none, keyRight := some key } }

def completed (key : GroupKey) : Session :=
  { s with state := .established, progress := { s.progress with groupKey := some key } }

/-! ## Messages and keys -/

/-- Whom a message of the ring protocol is for. -/
def recipient : Payload → Recipient
  | .akeInit _ => .party s.rightIndex
  | .akeRespond _ => .party s.leftIndex
  | _ => .everyone

def envelope (p : Payload) : Envelope := p.toEnvelope s.ownIndex (s.recipient p)

/-- The group key that a party derives from its left key and the contributions of all parties. -/
def keyFrom (left : SharedSecret) (c : Fin s.roster.size → Contribution) : GroupKey :=
  .derive (Share.leftKeys s.own left (List.ofFn fun i => (c i).share)) s.roster.ids

/-! ## The end of a step -/

/-- The run of a session is still going on. -/
structure Running : Prop where
  keyless : s.progress.groupKey = none
  unfinished : s.state ≠ .established
  alive : s.state ≠ .aborted

variable {s} in
theorem Running.withContribution (running : s.Running) (i : Fin s.roster.size) (c : Contribution) :
    (s.withContribution i c).Running :=
  ⟨running.keyless, running.unfinished, running.alive⟩

/-- The ways a step can end. -/
inductive Concluded (K : Kem) (actions : List SessionAction) (source : ρ) :
    SessionOutcome ρ → Prop
  | waiting
      (missing : s.progress.keyLeft = none ∨ ∃ i : Fin s.roster.size, s.slot i = none) :
      Concluded K actions source ⟨.ok actions, s.refreshed, source⟩
  | completed (c : Fin s.roster.size → Contribution) (left : SharedSecret)
      (verified : s.Verified K c) (leftKey : s.progress.keyLeft = some left) :
      Concluded K actions source
        ⟨.ok (actions ++ [.established (s.keyFrom left c)]), s.completed (s.keyFrom left c), source⟩
  | aborted (failure : VerificationFailure)
      (filled : ∀ i : Fin s.roster.size, (s.slot i).isSome)
      (unverified : ∀ c, ¬ s.Verified K c) :
      Concluded K actions source ⟨.error (.verification failure), s.abandoned, source⟩
  | refused (error : CryptoError)
      (filled : ∀ i : Fin s.roster.size, (s.slot i).isSome)
      (unverified : ∀ c, ¬ s.Verified K c) :
      Concluded K actions source ⟨.error (.crypto error), s, source⟩

theorem refreshed_completed (key : GroupKey) : (s.completed key).refreshed = s.completed key := by
  simp [refreshed, currentState, Session.completed]

theorem conclude_cases (K : Kem) (running : s.Running) (actions : List SessionAction)
    (source : ρ) : s.Concluded K actions source (s.conclude K actions source) := by
  have open_run : s.progress.groupKey.isSome = false := by simp [running.keyless]
  rcases s.verifiedShares_cases K with ⟨checked, missing⟩ | ⟨c, verified, checked⟩ |
    ⟨e, checked, kind, filled, unverified⟩
  · have ended : s.conclude K actions source = ⟨.ok actions, s.refreshed, source⟩ := by
      simp [conclude, finish, open_run, checked]
    rw [ended]
    exact .waiting (.inr missing)
  · cases leftKey : s.progress.keyLeft with
    | none =>
      have ended : s.conclude K actions source = ⟨.ok actions, s.refreshed, source⟩ := by
        simp [conclude, finish, open_run, checked, leftKey]
      rw [ended]
      exact .waiting (.inl leftKey)
    | some left =>
      have ended : s.conclude K actions source =
          ⟨.ok (actions ++ [.established (s.keyFrom left c)]),
            (s.completed (s.keyFrom left c)).refreshed, source⟩ := by
        simp [conclude, finish, open_run, checked, leftKey, Session.completed, keyFrom]
      rw [ended, refreshed_completed]
      exact .completed c left verified leftKey
  · rcases kind with ⟨failure, rfl⟩ | ⟨error, rfl⟩
    · have ended : s.conclude K actions source =
          ⟨.error (.verification failure), s.abandoned, source⟩ := by
        simp [conclude, finish, open_run, checked]
      rw [ended]
      exact .aborted failure filled unverified
    · have ended : s.conclude K actions source = ⟨.error (.crypto error), s, source⟩ := by
        simp [conclude, finish, open_run, checked]
      rw [ended]
      exact .refused error filled unverified

/-! ## The own share -/

variable [RandomSource ρ]

/-- What goes on after a write: the own share is broadcast if it is due, and the step ends. -/
inductive Advanced (K : Kem) (actions : List SessionAction) (source : ρ) :
    SessionOutcome ρ → Prop
  | silent {outcome : SessionOutcome ρ}
      (undue : (s.slot s.own).isSome ∨ s.progress.keyRight = none ∨ s.progress.keyLeft = none)
      (ended : s.conclude K actions source = outcome) :
      Advanced K actions source outcome
  | broadcast {outcome : SessionOutcome ρ} (right left : SharedSecret) (c : Contribution)
      (due : s.slot s.own = none)
      (rightKey : s.progress.keyRight = some right) (leftKey : s.progress.keyLeft = some left)
      (share : c.share = .ofNeighborKeys right left)
      (coin : c.coin = ⟨(RandomSource.draw 44 source).1⟩)
      (opens : c.OpensAt K (s.roster.party s.own).publicKey s.own)
      (ended : (s.withContribution s.own c).conclude K
        (actions ++ [.send (s.envelope (.shareBroadcast c))]) (RandomSource.draw 44 source).2 =
          outcome) :
      Advanced K actions source outcome
  | refused (right left : SharedSecret) (error : CryptoError)
      (due : s.slot s.own = none)
      (rightKey : s.progress.keyRight = some right) (leftKey : s.progress.keyLeft = some left)
      (failed : Commitment.make K (s.roster.party s.own).publicKey
        ((Share.ofNeighborKeys right left).commitmentMessage s.own)
        ⟨(RandomSource.draw 44 source).1⟩ = .error error) :
      Advanced K actions source
        ⟨.error (.crypto error), s, (RandomSource.draw 44 source).2⟩

theorem advance_cases (K : Kem) (actions : List SessionAction) (source : ρ) :
    s.Advanced K actions source (s.advance K actions source) := by
  have held := s.getElem_contributions s.own
  cases own : s.slot s.own with
  | some c =>
    exact .silent (.inl (by simp [own])) (by simp [advance, held, own])
  | none =>
    cases rightKey : s.progress.keyRight with
    | none =>
      exact .silent (.inr (.inl rightKey)) (by simp [advance, held, own, ownShare?, rightKey])
    | some right =>
      cases leftKey : s.progress.keyLeft with
      | none =>
        exact .silent (.inr (.inr leftKey))
          (by simp [advance, held, own, ownShare?, rightKey, leftKey])
      | some left =>
        cases made : Commitment.make K (s.roster.party s.own).publicKey
            ((Share.ofNeighborKeys right left).commitmentMessage s.own)
            ⟨(RandomSource.draw 44 source).1⟩ with
        | error e =>
          have ended : s.advance K actions source =
              ⟨.error (.crypto e), s, (RandomSource.draw 44 source).2⟩ := by
            simp [advance, held, own, ownShare?, rightKey, leftKey, contribution, made, Except.map]
          rw [ended]
          exact .refused right left e own rightKey leftKey made
        | ok commitment =>
          refine .broadcast right left ⟨.ofNeighborKeys right left, commitment, _⟩ own rightKey
            leftKey rfl rfl made ?_
          simp [advance, held, own, ownShare?, rightKey, leftKey, contribution, made, Except.map,
            envelope, recipient]

/-! ## Events -/

/-- A running session looks into an envelope: another party of its ring has sent it there. -/
structure Admits (e : Envelope) (sender : Fin s.roster.size) : Prop where
  sent : e.sender.toNat = sender
  foreign : sender ≠ s.own
  addressed : e.recipient.includes s.ownIndex = true
  unfinished : s.state ≠ .established

/-- It finds a payload there. -/
structure Hears (e : Envelope) (sender : Fin s.roster.size) (payload : Payload) : Prop
    extends s.Admits e sender where
  decoded : Payload.ofEnvelope e = .ok payload

/-- The events that pass without effect. -/
inductive Ignores : SessionEvent → Prop
  | passed {e : Envelope} {sender : Fin s.roster.size} (sent : e.sender.toNat = sender)
      (unconcerned : sender = s.own ∨ e.recipient.includes s.ownIndex = false ∨
        s.state = .established) : Ignores (.received e)
  | offer {e : Envelope} {offer : Handshake.Offer}
      (heard : s.Hears e (s.roster.left s.own) (.akeInit offer))
      (known : s.progress.keyLeft.isSome) : Ignores (.received e)
  | response {e : Envelope} {response : Handshake.Response}
      (heard : s.Hears e (s.roster.right s.own) (.akeRespond response))
      (known : s.progress.keyRight.isSome) : Ignores (.received e)
  | share {e : Envelope} {sender : Fin s.roster.size} {c : Contribution}
      (heard : s.Hears e sender (.shareBroadcast c)) (known : (s.slot sender).isSome) :
      Ignores (.received e)

/-- The events that are refused, and why. -/
inductive Refuses (K : Kem) : SessionEvent → ρ → SessionError → ρ → Prop
  | started {source : ρ} (initiated : s.progress.initiated = true) :
      Refuses K .start source (.alreadyStarted s.state) source
  | unopened {source : ρ} {error : CryptoError} (fresh : s.progress.initiated = false)
      (failed : Handshake.initiate K (s.roster.party (s.roster.right s.own)).publicKey
        (RandomSource.draw 32 source).1 = .error error) :
      Refuses K .start source (.crypto error) (RandomSource.draw 32 source).2
  | outside {e : Envelope} {source : ρ} (outside : s.roster.size ≤ e.sender.toNat) :
      Refuses K (.received e) source (.decode (.invalidIndex e.sender.toNat)) source
  | undecoded {e : Envelope} {source : ρ} {sender : Fin s.roster.size} {error : WireError}
      (admitted : s.Admits e sender) (failed : Payload.ofEnvelope e = .error error) :
      Refuses K (.received e) source (.decode error) source
  | strangeOffer {e : Envelope} {source : ρ} {sender : Fin s.roster.size}
      {offer : Handshake.Offer} (heard : s.Hears e sender (.akeInit offer))
      (strange : sender ≠ s.roster.left s.own) :
      Refuses K (.received e) source (.unexpectedSender .akeInit (.ofNat sender)) source
  | unanswered {e : Envelope} {source : ρ} {offer : Handshake.Offer} {error : CryptoError}
      (heard : s.Hears e (s.roster.left s.own) (.akeInit offer))
      (fresh : s.progress.keyLeft = none)
      (failed : Handshake.respond K offer s.secretKey
        (s.roster.party (s.roster.left s.own)).publicKey (RandomSource.draw 32 source).1 =
          .error error) :
      Refuses K (.received e) source (.crypto error) (RandomSource.draw 32 source).2
  | strangeResponse {e : Envelope} {source : ρ} {sender : Fin s.roster.size}
      {response : Handshake.Response} (heard : s.Hears e sender (.akeRespond response))
      (strange : sender ≠ s.roster.right s.own) :
      Refuses K (.received e) source (.unexpectedSender .akeRespond (.ofNat sender)) source
  | early {e : Envelope} {source : ρ} {response : Handshake.Response}
      (heard : s.Hears e (s.roster.right s.own) (.akeRespond response))
      (fresh : s.progress.keyRight = none) (pending : s.progress.transcript = none) :
      Refuses K (.received e) source .responseBeforeOffer source
  | unconfirmed {e : Envelope} {source : ρ} {response : Handshake.Response}
      {transcript : Handshake.Transcript} {error : CryptoError}
      (heard : s.Hears e (s.roster.right s.own) (.akeRespond response))
      (fresh : s.progress.keyRight = none) (pending : s.progress.transcript = some transcript)
      (failed : Handshake.finalize K response transcript s.secretKey = .error error) :
      Refuses K (.received e) source (.crypto error) source
  | misplaced {e : Envelope} {source : ρ} {sender : Fin s.roster.size} {payload : Payload}
      (heard : s.Hears e sender payload)
      (kind : payload.kind = .wrappedKey ∨ payload.kind = .appMessage) :
      Refuses K (.received e) source (.unexpectedKind payload.kind .ringSession) source

/-- The events that change a session, with the session that is advanced and the answer so far. -/
inductive Accepts (K : Kem) : SessionEvent → ρ → Session → List SessionAction → ρ → Prop
  | start {source : ρ} {offer : Handshake.Offer} {transcript : Handshake.Transcript}
      (fresh : s.progress.initiated = false)
      (made : Handshake.initiate K (s.roster.party (s.roster.right s.own)).publicKey
        (RandomSource.draw 32 source).1 = .ok (offer, transcript)) :
      Accepts K .start source (s.opened transcript) [.send (s.envelope (.akeInit offer))]
        (RandomSource.draw 32 source).2
  | offer {e : Envelope} {source : ρ} {offer : Handshake.Offer} {response : Handshake.Response}
      {key : SharedSecret} (heard : s.Hears e (s.roster.left s.own) (.akeInit offer))
      (fresh : s.progress.keyLeft = none)
      (made : Handshake.respond K offer s.secretKey
        (s.roster.party (s.roster.left s.own)).publicKey (RandomSource.draw 32 source).1 =
          .ok (response, key)) :
      Accepts K (.received e) source (s.answered key) [.send (s.envelope (.akeRespond response))]
        (RandomSource.draw 32 source).2
  | response {e : Envelope} {source : ρ} {response : Handshake.Response}
      {transcript : Handshake.Transcript} {key : SharedSecret}
      (heard : s.Hears e (s.roster.right s.own) (.akeRespond response))
      (fresh : s.progress.keyRight = none) (pending : s.progress.transcript = some transcript)
      (made : Handshake.finalize K response transcript s.secretKey = .ok key) :
      Accepts K (.received e) source (s.confirmed key) [] source
  | share {e : Envelope} {source : ρ} {sender : Fin s.roster.size} {c : Contribution}
      (heard : s.Hears e sender (.shareBroadcast c)) (fresh : s.slot sender = none) :
      Accepts K (.received e) source (s.withContribution sender c) [] source

/-- What an event can lead to: nothing, a refusal, or a write with all that follows. -/
inductive Handled (K : Kem) (event : SessionEvent) (source : ρ) : SessionOutcome ρ → Prop
  | ignored (reason : s.Ignores event) : Handled K event source ⟨.ok [], s, source⟩
  | refused {error : SessionError} {source' : ρ}
      (reason : s.Refuses K event source error source') :
      Handled K event source ⟨.error error, s, source'⟩
  | accepted {s' : Session} {actions : List SessionAction} {source' : ρ}
      {outcome : SessionOutcome ρ} (write : s.Accepts K event source s' actions source')
      (advanced : s'.advance K actions source' = outcome) :
      Handled K event source outcome

theorem start_cases (K : Kem) (source : ρ) : s.Handled K .start source (s.start K source) := by
  rw [start]
  split
  next initiated => exact .refused (.started initiated)
  next fresh =>
    have fresh : s.progress.initiated = false := by simpa using fresh
    dsimp only
    split
    next failed => exact .refused (.unopened fresh failed)
    next made => exact .accepted (.start fresh made) rfl

theorem receivePayload_cases (K : Kem) {e : Envelope} {sender : Fin s.roster.size}
    {payload : Payload} (heard : s.Hears e sender payload) (source : ρ) :
    s.Handled K (.received e) source (s.receivePayload K sender payload source) := by
  cases payload with
  | akeInit offer =>
    rw [receivePayload, receiveOffer]
    split
    next strange => exact .refused (.strangeOffer heard strange)
    next neighbor =>
      obtain rfl := not_not.1 neighbor
      split
      next known => exact .ignored (.offer heard known)
      next fresh =>
        have fresh : s.progress.keyLeft = none := by simpa using fresh
        dsimp only
        split
        next failed => exact .refused (.unanswered heard fresh failed)
        next made => exact .accepted (.offer heard fresh made) rfl
  | akeRespond response =>
    rw [receivePayload, receiveResponse]
    split
    next strange => exact .refused (.strangeResponse heard strange)
    next neighbor =>
      obtain rfl := not_not.1 neighbor
      split
      next known => exact .ignored (.response heard known)
      next fresh =>
        have fresh : s.progress.keyRight = none := by simpa using fresh
        split
        next pending => exact .refused (.early heard fresh pending)
        next pending =>
          split
          next failed => exact .refused (.unconfirmed heard fresh pending failed)
          next made => exact .accepted (.response heard fresh pending made) rfl
  | shareBroadcast c =>
    rw [receivePayload, receiveContribution]
    split
    next known =>
      rw [Fin.getElem_fin, getElem_contributions] at known
      exact .ignored (.share heard known)
    next fresh =>
      rw [Fin.getElem_fin, getElem_contributions] at fresh
      exact .accepted (.share heard (by simpa using fresh)) rfl
  | wrappedKey => exact .refused (.misplaced heard (.inl rfl))
  | appMessage => exact .refused (.misplaced heard (.inr rfl))

theorem receive_cases (K : Kem) (e : Envelope) (source : ρ) :
    s.Handled K (.received e) source (s.receive K e source) := by
  rw [receive]
  split
  next inside =>
    have sent : e.sender.toNat = (⟨e.sender.toNat, inside⟩ : Fin s.roster.size) := rfl
    split
    next unconcerned =>
      refine .ignored (.passed sent ?_)
      rcases unconcerned with own | elsewhere | established
      · exact .inl (Fin.ext own)
      · exact .inr (.inl (by simpa using elsewhere))
      · exact .inr (.inr established)
    next concerned =>
      simp only [not_or, Bool.not_eq_true', Bool.not_eq_false] at concerned
      have admitted : s.Admits e ⟨e.sender.toNat, inside⟩ :=
        ⟨sent, fun own => concerned.1 (congrArg Fin.val own), concerned.2.1, concerned.2.2⟩
      split
      next failed => exact .refused (.undecoded admitted failed)
      next decoded => exact s.receivePayload_cases K ⟨admitted, decoded⟩ source
  next outside => exact .refused (.outside (Nat.le_of_not_lt outside))

theorem handle_cases (K : Kem) (alive : s.state ≠ .aborted) (event : SessionEvent) (source : ρ) :
    s.Handled K event source (s.handle K event source) := by
  unfold handle
  rw [if_neg alive]
  cases event with
  | start => exact s.start_cases K source
  | received e => exact s.receive_cases K e source

theorem handle_aborted (K : Kem) (aborted : s.state = .aborted) (event : SessionEvent)
    (source : ρ) : s.handle K event source = ⟨.error .aborted, s, source⟩ := by
  unfold handle
  rw [if_pos aborted]

/-! ## What stays -/

/-- Two sessions of one party: they differ in how far they have come, at most. -/
def SameParty (s s' : Session) : Prop :=
  ∃ state progress, s' = { s with state := state, progress := progress }

theorem Accepts.sameParty {K : Kem} {s s' : Session} {event : SessionEvent} {source source' : ρ}
    {actions : List SessionAction} (write : s.Accepts K event source s' actions source') :
    s.SameParty s' := by
  cases write
  all_goals exact ⟨_, _, rfl⟩

/-- Two sessions of one party between which the party was not started. -/
def Follows (s s' : Session) : Prop :=
  ∃ state progress, s' = { s with state := state, progress := progress } ∧
    progress.initiated = s.progress.initiated

theorem SameParty.trans {s s' s'' : Session} (first : s.SameParty s') (second : s'.SameParty s'') :
    s.SameParty s'' := by
  obtain ⟨state, progress, rfl⟩ := first
  obtain ⟨state', progress', rfl⟩ := second
  exact ⟨state', progress', rfl⟩

theorem SameParty.roster_eq {s s' : Session} (same : s.SameParty s') : s'.roster = s.roster := by
  obtain ⟨state, progress, rfl⟩ := same
  rfl

theorem SameParty.own_eq {s s' : Session} (same : s.SameParty s') : (s'.own : Nat) = s.own := by
  obtain ⟨state, progress, rfl⟩ := same
  rfl

theorem SameParty.secretKey_eq {s s' : Session} (same : s.SameParty s') :
    s'.secretKey = s.secretKey := by
  obtain ⟨state, progress, rfl⟩ := same
  rfl

theorem Follows.trans {s s' s'' : Session} (first : s.Follows s') (second : s'.Follows s'') :
    s.Follows s'' := by
  obtain ⟨state, progress, rfl, same⟩ := first
  obtain ⟨state', progress', rfl, same'⟩ := second
  exact ⟨state', progress', rfl, same'.trans same⟩

theorem Follows.sameParty {s s' : Session} (follows : s.Follows s') : s.SameParty s' := by
  obtain ⟨state, progress, rfl, _⟩ := follows
  exact ⟨state, progress, rfl⟩

theorem Follows.initiated {s s' : Session} (follows : s.Follows s') :
    s'.progress.initiated = s.progress.initiated := by
  obtain ⟨state, progress, rfl, same⟩ := follows
  exact same

omit [RandomSource ρ] in
theorem follows_conclude (K : Kem) (actions : List SessionAction) (source : ρ) :
    s.Follows (s.conclude K actions source).session := by
  have finished : s.Follows (s.finish K).2 := by
    unfold finish
    repeat' split
    all_goals exact ⟨_, _, rfl, rfl⟩
  unfold conclude
  split
  next failed =>
    rw [failed] at finished
    exact finished
  next waiting =>
    rw [waiting] at finished
    exact finished.trans ⟨_, _, rfl, rfl⟩
  next completed =>
    rw [completed] at finished
    exact finished.trans ⟨_, _, rfl, rfl⟩

theorem follows_advance (K : Kem) (actions : List SessionAction) (source : ρ) :
    s.Follows (s.advance K actions source).session := by
  have ended := s.advance_cases K actions source
  generalize s.advance K actions source = outcome at ended
  cases ended with
  | silent undue ended =>
    subst ended
    exact s.follows_conclude K _ _
  | broadcast right left c due rightKey leftKey share coin opens ended =>
    subst ended
    have written : s.Follows (s.withContribution s.own c) := ⟨_, _, rfl, rfl⟩
    exact written.trans (follows_conclude _ K _ _)
  | refused => exact ⟨_, _, rfl, rfl⟩

/-- No message starts a session. -/
theorem follows_received (K : Kem) (e : Envelope) (source : ρ) :
    s.Follows (s.handle K (.received e) source).session := by
  by_cases aborted : s.state = .aborted
  · rw [s.handle_aborted K aborted]
    exact ⟨_, _, rfl, rfl⟩
  have step := s.handle_cases K aborted (.received e) source
  generalize s.handle K (.received e) source = outcome at step
  cases step with
  | ignored => exact ⟨_, _, rfl, rfl⟩
  | refused => exact ⟨_, _, rfl, rfl⟩
  | @accepted s' _ _ _ write advanced =>
    subst advanced
    have written : s.Follows s' := by
      cases write
      all_goals exact ⟨_, _, rfl, rfl⟩
    exact written.trans (s'.follows_advance K _ _)

/-- No event makes a session another party's. -/
theorem sameParty_handle (K : Kem) (event : SessionEvent) (source : ρ) :
    s.SameParty (s.handle K event source).session := by
  cases event with
  | received e => exact (s.follows_received K e source).sameParty
  | start =>
    by_cases aborted : s.state = .aborted
    · rw [s.handle_aborted K aborted]
      exact ⟨_, _, rfl⟩
    have step := s.handle_cases K aborted .start source
    generalize s.handle K .start source = outcome at step
    cases step with
    | ignored => exact ⟨_, _, rfl⟩
    | refused => exact ⟨_, _, rfl⟩
    | @accepted s' _ _ _ write advanced =>
      subst advanced
      exact write.sameParty.trans (s'.follows_advance K _ _).sameParty

end Session

end RingAgreement
