import RingAgreement.Proofs.Medium.Step
/-!
What honest parties do with events. A start that comes first is carried out, and a message that
comes from another honest party is taken: it is never refused, and afterwards the receiver has
what the message is for.
-/

namespace RingAgreement.HonestRing

variable {K : Kem} {ring : HonestRing K} {session : Fin ring.roster.size → Session}
  {posted : List (Posted ring.roster.size)} {i : Fin ring.roster.size} {ρ : Type} [RandomSource ρ]

/-- What a message has brought about when its receiver has taken it. -/
structure Taken (origin receiver : Fin ring.roster.size) (kind : MessageKind) (s : Session) :
    Prop where
  offer : kind = .akeInit → receiver = ring.roster.right origin → s.progress.keyLeft.isSome
  response : kind = .akeRespond → receiver = ring.roster.left origin → s.progress.keyRight.isSome
  share : kind = .shareBroadcast → (s.slot origin).isSome

section Taken

variable {origin receiver : Fin ring.roster.size} {s s' : Session}

theorem Taken.of_keyLeft
    (held : receiver = ring.roster.right origin → s.progress.keyLeft.isSome) :
    Taken origin receiver .akeInit s :=
  ⟨fun _ => held, by simp, by simp⟩

theorem Taken.of_keyRight
    (held : receiver = ring.roster.left origin → s.progress.keyRight.isSome) :
    Taken origin receiver .akeRespond s :=
  ⟨by simp, fun _ => held, by simp⟩

theorem Taken.of_slot (held : (s.slot origin).isSome) :
    Taken origin receiver .shareBroadcast s :=
  ⟨by simp, by simp, fun _ => held⟩

theorem Taken.grown {kind : MessageKind} (taken : Taken origin receiver kind s)
    (grown : s.Grown s') : Taken origin receiver kind s' where
  offer := fun offer mine => Session.isSome_of_grown grown.keyLeft (taken.offer offer mine)
  response := fun response mine =>
    Session.isSome_of_grown grown.keyRight (taken.response response mine)
  share := fun share => Session.isSome_of_grown (grown.slot _) (taken.share share)

end Taken

theorem Sound.start (correct : K.Correct) (sound : ring.Sound session posted)
    (coherent : (session i).Coherent K) (fresh : (session i).progress.initiated = false)
    (source : ρ) :
    Flows session posted i ((session i).handle K .start source) ∧
      ((session i).handle K .start source).session.progress.initiated = true := by
  have rightKey := rightKey_of_member (sound.member i)
  have step := (session i).handle_cases K (sound.alive i) .start source
  generalize (session i).handle K .start source = outcome at step
  cases step with
  | ignored reason => cases reason
  | refused reason =>
    cases reason with
    | started initiated =>
      rw [fresh] at initiated
      cases initiated
    | unopened _ failed =>
      obtain ⟨offer, transcript, made⟩ := Handshake.initiate_succeeds
        (ring.opens correct (ring.roster.right i)) (RandomSource.draw 32 source).1
      rw [rightKey, made] at failed
      cases failed
  | accepted write advanced =>
    subst advanced
    have running := (coherent.prepared_of_accepts (sound.alive i) write).toRunning
    cases write with
    | @start _ offer _ _ made =>
      rw [rightKey] at made
      obtain ⟨flows, grown⟩ := sound.write correct (sound.opened fresh made) running
        (mail_send (sound.member i) (.akeInit offer)).symm (RandomSource.draw 32 source).2
      exact ⟨flows, grown.initiated rfl⟩

variable {origin receiver : Fin ring.roster.size} {payload : Payload}

theorem Backed.sendable (backed : ring.Backed session origin payload) : payload.Sendable := by
  cases backed
  all_goals exact trivial

theorem Backed.begun {offer : Handshake.Offer}
    (backed : ring.Backed session origin (.akeInit offer)) :
    (session origin).progress.initiated = true := by
  cases backed with
  | offer begun made kept => exact begun

/-- An offer is always answered, with a key to which the transcript of its sender leads. -/
theorem Backed.answered (correct : K.Correct) {offer : Handshake.Offer}
    (backed : ring.Backed session origin (.akeInit offer)) (seed : Bytes 32) :
    ∃ response key,
      Handshake.respond K offer (ring.pair (ring.roster.right origin)).secretKey
        (ring.pair origin).publicKey seed = .ok (response, key) ∧
      ∀ t, (session origin).progress.transcript = some t →
        Handshake.finalize K response t (ring.pair origin).secretKey = .ok key := by
  cases backed with
  | offer begun made kept =>
    obtain ⟨response, key, answered, finalized⟩ := Handshake.exchange_agrees correct
      (ring.opens correct origin) (ring.opens correct (ring.roster.right origin)) made seed
    refine ⟨response, key, answered, fun t held => ?_⟩
    rw [kept t held]
    exact finalized

/-- Messages that are passed over have been taken before, or are for others. -/
theorem Sound.taken_of_ignores (sound : ring.Sound session posted)
    (coherent : (session receiver).Coherent K) (foreign : origin ≠ receiver)
    (backed : ring.Backed session origin payload)
    (reason : (session receiver).Ignores (.received (ring.post origin payload).envelope)) :
    Taken origin receiver payload.kind (session receiver) := by
  have member := sound.member receiver
  have own := sound.own_eq receiver
  have sendable := backed.sendable
  have addressed := includes_ownIndex member
  cases reason with
  | passed sent unconcerned =>
    rcases unconcerned with mine | elsewhere | established
    · have origin_eq : (origin : Nat) = receiver := by
        rw [← ring.roster.toNat_ofNat origin, ← own, ← mine]
        exact sent
      exact absurd (Fin.ext origin_eq) foreign
    · cases backed with
      | offer =>
        refine .of_keyLeft fun mine => ?_
        have included := (addressed (ring.roster.right origin)).2 mine
        exact absurd (elsewhere.symm.trans included) (by simp)
      | response =>
        refine .of_keyRight fun mine => ?_
        have included := (addressed (ring.roster.left origin)).2 mine
        exact absurd (elsewhere.symm.trans included) (by simp)
      | share => cases elsewhere
    · obtain ⟨leftKey, rightKey, filled⟩ := coherent.complete established
      have sized := roster_of_member member
      exact ⟨fun _ _ => leftKey, fun _ _ => rightKey,
        fun _ => filled ⟨origin, by rw [sized]; exact origin.isLt⟩⟩
  | offer heard known =>
    obtain ⟨_, rfl⟩ := hears_post sendable heard
    exact .of_keyLeft fun _ => known
  | response heard known =>
    obtain ⟨_, rfl⟩ := hears_post sendable heard
    exact .of_keyRight fun _ => known
  | share heard known =>
    obtain ⟨sender, rfl⟩ := hears_post sendable heard
    rw [sender] at known
    exact .of_slot known

/-- No message of an honest party is refused. -/
theorem Sound.not_refuses (correct : K.Correct) (sound : ring.Sound session posted)
    (backed : ring.Backed session origin payload) {source source' : ρ} {error : SessionError} :
    ¬ (session receiver).Refuses K (.received (ring.post origin payload).envelope) source error
      source' := by
  have member := sound.member receiver
  have sendable := backed.sendable
  have addressed := includes_ownIndex member
  intro reason
  cases reason with
  | outside outside =>
    have sender : (ring.post origin payload).envelope.sender.toNat = origin :=
      ring.roster.toNat_ofNat origin
    rw [roster_of_member member, sender] at outside
    exact absurd origin.isLt (Nat.not_lt.2 outside)
  | undecoded admitted failed =>
    have read : Payload.ofEnvelope (ring.post origin payload).envelope = .ok payload :=
      Payload.ofEnvelope_toEnvelope sendable _ _
    rw [read] at failed
    cases failed
  | strangeOffer heard strange =>
    obtain ⟨sender, rfl⟩ := hears_post sendable heard
    obtain rfl := (addressed (ring.roster.right origin)).1 heard.addressed
    apply strange
    rw [Fin.ext_iff, sender, left_of_member member, Roster.left_right]
  | unanswered heard fresh failed =>
    obtain ⟨sender, rfl⟩ := hears_post sendable heard
    obtain rfl := (addressed (ring.roster.right origin)).1 heard.addressed
    obtain ⟨response, key, answered, _⟩ :=
      backed.answered correct (RandomSource.draw 32 source).1
    rw [secretKey_of_member member, leftKey_of_member member, Roster.left_right, answered]
      at failed
    cases failed
  | strangeResponse heard strange =>
    obtain ⟨sender, rfl⟩ := hears_post sendable heard
    obtain rfl := (addressed (ring.roster.left origin)).1 heard.addressed
    apply strange
    rw [Fin.ext_iff, sender, right_of_member member, Roster.right_left]
  | early heard fresh pending =>
    obtain ⟨sender, rfl⟩ := hears_post sendable heard
    obtain rfl := (addressed (ring.roster.left origin)).1 heard.addressed
    -- An answer comes after the start, and a started party keeps its transcript until then.
    cases backed with
    | response held fits =>
      have begun := sound.answered origin (by rw [held]; rfl)
      rcases sound.pending _ begun with kept | confirmed
      · simp [pending] at kept
      · simp [fresh] at confirmed
  | unconfirmed heard fresh pending failed =>
    obtain ⟨sender, rfl⟩ := hears_post sendable heard
    obtain rfl := (addressed (ring.roster.left origin)).1 heard.addressed
    cases backed with
    | response held fits =>
      rw [secretKey_of_member member, fits _ pending] at failed
      cases failed
  | misplaced heard kind =>
    obtain ⟨_, rfl⟩ := hears_post sendable heard
    cases backed
    all_goals simp [Payload.kind] at kind

/-- What an honest party accepts keeps the invariant of the ring. -/
theorem Sound.accepts (correct : K.Correct) (sound : ring.Sound session posted)
    (foreign : origin ≠ receiver) (backed : ring.Backed session origin payload)
    {source source' : ρ} {s' : Session} {actions : List SessionAction}
    (write : (session receiver).Accepts K (.received (ring.post origin payload).envelope) source
      s' actions source') :
    ∃ payloads, ring.Change session receiver s' payloads ∧
      payloads.map (ring.post receiver) = mail receiver actions ∧
        Taken origin receiver payload.kind s' := by
  have member := sound.member receiver
  have sendable := backed.sendable
  have addressed := includes_ownIndex member
  cases write with
  | @offer _ _ _ response key heard fresh made =>
    obtain ⟨sender, rfl⟩ := hears_post sendable heard
    obtain rfl := (addressed (ring.roster.right origin)).1 heard.addressed
    obtain ⟨response', key', answered, fits⟩ :=
      backed.answered correct (RandomSource.draw 32 source).1
    rw [secretKey_of_member member, leftKey_of_member member, Roster.left_right, answered,
      Except.ok.injEq, Prod.mk.injEq] at made
    obtain ⟨rfl, rfl⟩ := made
    have change := sound.answered_with fresh (by rw [Roster.left_right]; exact backed.begun)
      (by rwa [Roster.left_right])
    exact ⟨_, change, (mail_send member (.akeRespond response')).symm, .of_keyLeft fun _ => rfl⟩
  | @response _ _ _ transcript key heard fresh pending made =>
    obtain ⟨sender, rfl⟩ := hears_post sendable heard
    obtain rfl := (addressed (ring.roster.left origin)).1 heard.addressed
    cases backed with
    | response held fits =>
      rw [secretKey_of_member member, fits _ pending, Except.ok.injEq] at made
      subst made
      have change := sound.confirmed fresh (by rwa [Roster.right_left])
      exact ⟨[], change, rfl, .of_keyRight fun _ => rfl⟩
  | @share _ _ sender c heard fresh =>
    obtain ⟨sender_eq, rfl⟩ := hears_post sendable heard
    cases backed with
    | share theirs =>
      have change := sound.stored foreign sender_eq fresh theirs
      refine ⟨[], change, rfl, .of_slot ?_⟩
      have held := (session receiver).slot_withContribution sender c origin
      rw [if_pos sender_eq] at held
      rw [held]
      rfl

/-- A message of an honest party is taken. -/
theorem Sound.deliver (correct : K.Correct) (sound : ring.Sound session posted)
    (coherent : (session receiver).Coherent K) (prompt : (session receiver).Prompt)
    (foreign : origin ≠ receiver) (backed : ring.Backed session origin payload) (source : ρ) :
    let outcome :=
      (session receiver).handle K (.received (ring.post origin payload).envelope) source
    Flows session posted receiver outcome ∧
      Taken origin receiver payload.kind outcome.session := by
  intro outcome
  have step : (session receiver).Handled K _ source outcome :=
    (session receiver).handle_cases K (sound.alive receiver) _ source
  clear_value outcome
  cases step with
  | ignored reason =>
    have same : ring.Sound (Function.update session receiver (session receiver))
        (posted ++ mail receiver []) := by
      rw [Function.update_eq_self]
      simpa [mail] using sound
    exact ⟨⟨rfl, same, .refl _, prompt⟩, sound.taken_of_ignores coherent foreign backed reason⟩
  | refused reason => exact absurd reason (sound.not_refuses correct backed)
  | @accepted s' actions source' _ write advanced =>
    subst advanced
    have running := (coherent.prepared_of_accepts (sound.alive receiver) write).toRunning
    obtain ⟨payloads, change, sent, taken⟩ := sound.accepts correct foreign backed write
    obtain ⟨flows, grown⟩ := sound.write correct change running sent source'
    exact ⟨flows, taken.grown grown⟩

end RingAgreement.HonestRing
