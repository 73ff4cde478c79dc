import RingAgreement.Proofs.Medium.Links
/-!
Steps of honest parties. With a correct mechanism for key encapsulation no step fails, whatever
message it takes; it keeps the invariant of the ring, and its party does not wait with the own
share once it can be made.
-/

namespace RingAgreement

/-- The own share is out as soon as both neighbour keys are there. -/
def Session.Prompt (s : Session) : Prop :=
  s.progress.keyRight.isSome → s.progress.keyLeft.isSome → (s.slot s.own).isSome

/-- An established session has both neighbour keys and all contributions. -/
theorem Session.Coherent.complete {K : Kem} {s : Session} (coherent : s.Coherent K)
    (established : s.state = .established) :
    s.progress.keyLeft.isSome ∧ s.progress.keyRight.isSome ∧
      ∀ i : Fin s.roster.size, (s.slot i).isSome := by
  obtain ⟨c, left, right, verified, leftKey, rightKey, _⟩ := coherent.of_established established
  refine ⟨by simp [leftKey], by simp [rightKey], fun i => ?_⟩
  rw [verified.filled i]
  rfl

namespace HonestRing

variable {K : Kem} {ring : HonestRing K}

/-! ## What a party knows of the ring -/

/-- A party finds in an envelope the payload that its sender has put there. -/
theorem hears_post {s : Session} {j : Fin ring.roster.size} {p payload : Payload}
    (sendable : p.Sendable) {sender : Fin s.roster.size}
    (heard : s.Hears (ring.post j p).envelope sender payload) :
    (sender : Nat) = j ∧ payload = p := by
  refine ⟨?_, ?_⟩
  · rw [← heard.sent]
    exact ring.roster.toNat_ofNat j
  · have read := Payload.ofEnvelope_toEnvelope sendable (ring.fresh j).ownIndex
      ((ring.fresh j).recipient p)
    exact Except.ok.inj (heard.decoded.symm.trans read)

section Member

variable {s : Session} {i : Fin ring.roster.size} (member : (ring.fresh i).SameParty s)
include member

theorem roster_of_member : s.roster = ring.roster := by
  obtain ⟨state, progress, rfl⟩ := member
  rfl

theorem envelope_of_member (p : Payload) : s.envelope p = (ring.fresh i).envelope p := by
  obtain ⟨state, progress, rfl⟩ := member
  rfl

theorem secretKey_of_member : s.secretKey = (ring.pair i).secretKey := by
  obtain ⟨state, progress, rfl⟩ := member
  rfl

theorem ownKey_of_member : (s.roster.party s.own).publicKey = (ring.pair i).publicKey := by
  obtain ⟨state, progress, rfl⟩ := member
  exact ring.party_publicKey i

theorem rightKey_of_member : (s.roster.party (s.roster.right s.own)).publicKey =
    (ring.pair (ring.roster.right i)).publicKey := by
  obtain ⟨state, progress, rfl⟩ := member
  exact ring.party_publicKey _

theorem leftKey_of_member : (s.roster.party (s.roster.left s.own)).publicKey =
    (ring.pair (ring.roster.left i)).publicKey := by
  obtain ⟨state, progress, rfl⟩ := member
  exact ring.party_publicKey _

theorem right_of_member : (s.roster.right s.own : Nat) = ring.roster.right i := by
  obtain ⟨state, progress, rfl⟩ := member
  rfl

theorem left_of_member : (s.roster.left s.own : Nat) = ring.roster.left i := by
  obtain ⟨state, progress, rfl⟩ := member
  rfl

theorem includes_ownIndex (target : Fin ring.roster.size) :
    (Recipient.party (.ofNat target)).includes s.ownIndex = true ↔ i = target := by
  obtain ⟨state, progress, rfl⟩ := member
  simp only [Recipient.includes, decide_eq_true_eq]
  constructor
  · intro same
    have positions := congrArg UInt32.toNat same
    rw [ring.roster.toNat_ofNat] at positions
    exact Fin.ext ((ring.roster.toNat_ofNat i).symm.trans positions.symm)
  · intro same
    subst same
    rfl

end Member

/-! ## The end of a step -/

section Step

variable {session : Fin ring.roster.size → Session} {posted : List (Posted ring.roster.size)}
  {i : Fin ring.roster.size} {ρ : Type}

/-- What a party has put on the medium with its actions. -/
def mail (i : Fin ring.roster.size) (actions : List SessionAction) :
    List (Posted ring.roster.size) :=
  (actions.filterMap (·.envelope?)).map fun e => ⟨i, e⟩

theorem mail_append (i : Fin ring.roster.size) (actions more : List SessionAction) :
    mail i (actions ++ more) = mail i actions ++ mail i more := by
  simp [mail, List.filterMap_append]

theorem mail_send {s : Session} (member : (ring.fresh i).SameParty s) (p : Payload) :
    mail i [.send (s.envelope p)] = [ring.post i p] := by
  rw [envelope_of_member member]
  rfl

/-- A step of a party that does not fail and keeps the invariant of the ring. -/
structure Flows (session : Fin ring.roster.size → Session)
    (posted : List (Posted ring.roster.size)) (i : Fin ring.roster.size)
    (outcome : SessionOutcome ρ) : Prop where
  unfailing : outcome.error? = none
  sound : ring.Sound (Function.update session i outcome.session) (posted ++ mail i outcome.actions)
  grown : (session i).Grown outcome.session
  prompt : outcome.session.Prompt

/-- The rest of a step, seen from before its first write. -/
theorem Flows.after {s' : Session} {outcome : SessionOutcome ρ}
    (rest : Flows (Function.update session i s') posted i outcome) (grown : (session i).Grown s') :
    Flows session posted i outcome where
  unfailing := rest.unfailing
  sound := by
    have sound := rest.sound
    rwa [Function.update_idem] at sound
  grown := by
    have later := rest.grown
    rw [Function.update_self] at later
    exact grown.trans later
  prompt := rest.prompt

theorem Sound.conclude {actions : List SessionAction}
    (sound : ring.Sound session (posted ++ mail i actions)) (running : (session i).Running)
    (prompt : (session i).Prompt) (source : ρ) :
    Flows session posted i ((session i).conclude K actions source) := by
  -- A party that has all contributions of an honest ring finds them verified and cannot fail.
  have complete : (∀ j : Fin (session i).roster.size, ((session i).slot j).isSome) →
      ∃ c, (session i).Verified K c := by
    intro filled
    have sized := roster_of_member (sound.member i)
    exact sound.verified i fun j => filled ⟨j, by rw [sized]; exact j.isLt⟩
  have ended := (session i).conclude_cases K running actions source
  generalize (session i).conclude K actions source = outcome at ended
  cases ended with
  | waiting missing =>
    have change := sound.settled i running.currentState.2 (session i).progress.groupKey
    have settled := sound.change change
    rw [List.map_nil, List.append_nil] at settled
    exact ⟨rfl, settled, change.grown, prompt⟩
  | completed c left verified leftKey =>
    have final : SessionState.established ≠ .aborted := by simp
    have change := sound.settled i final (some ((session i).keyFrom left c))
    have settled := sound.change change
    rw [List.map_nil] at settled
    refine ⟨rfl, ?_, change.grown, prompt⟩
    have quiet : mail i (actions ++ [.established ((session i).keyFrom left c)]) =
        mail i actions ++ [] := mail_append i _ _
    rw [SessionOutcome.actions, quiet, ← List.append_assoc]
    exact settled
  | aborted failure filled unverified =>
    obtain ⟨c, verified⟩ := complete filled
    exact absurd verified (unverified c)
  | refused error filled unverified =>
    obtain ⟨c, verified⟩ := complete filled
    exact absurd verified (unverified c)

variable [RandomSource ρ]

theorem Sound.advance (correct : K.Correct) {actions : List SessionAction}
    (sound : ring.Sound session (posted ++ mail i actions)) (running : (session i).Running)
    (source : ρ) : Flows session posted i ((session i).advance K actions source) := by
  have own := sound.own_eq i
  have ownKey := ownKey_of_member (sound.member i)
  have ended := (session i).advance_cases K actions source
  generalize (session i).advance K actions source = outcome at ended
  cases ended with
  | silent undue ended =>
    subst ended
    refine sound.conclude running (fun rightKey leftKey => ?_) source
    rcases undue with done | missing | missing
    · exact done
    · simp [missing] at rightKey
    · simp [missing] at leftKey
  | broadcast right left c due rightKey leftKey share coin opens ended =>
    subst ended
    rw [ownKey, ← ring.party_publicKey, own] at opens
    have change := sound.contributed due rightKey leftKey share opens
    have written := sound.change change
    rw [List.map_singleton, ← mail_send (sound.member i), List.append_assoc, ← mail_append]
      at written
    have still := running.withContribution (session i).own c
    have done : ((session i).withContribution (session i).own c).Prompt := by
      intro _ _
      have stored := (session i).slot_withContribution (session i).own c (session i).own
      rw [if_pos rfl] at stored
      exact Option.isSome_iff_exists.2 ⟨c, stored⟩
    refine Flows.after ?_ change.grown
    have rest := written.conclude (by rwa [Function.update_self])
      (by rwa [Function.update_self]) (RandomSource.draw 44 source).2
    rwa [Function.update_self] at rest
  | refused right left error due rightKey leftKey failed =>
    obtain ⟨commitment, made⟩ := Commitment.make_succeeds (ring.opens correct i)
      ((Share.ofNeighborKeys right left).commitmentMessage (session i).own)
      ⟨(RandomSource.draw 44 source).1⟩
    rw [ownKey, made] at failed
    cases failed

/-- A write with all that follows. -/
theorem Sound.write (correct : K.Correct) (sound : ring.Sound session posted) {s' : Session}
    {payloads : List Payload} (change : ring.Change session i s' payloads) (running : s'.Running)
    {actions : List SessionAction} (sent : payloads.map (ring.post i) = mail i actions)
    (source : ρ) :
    Flows session posted i (s'.advance K actions source) ∧
      s'.Grown (s'.advance K actions source).session := by
  have written := sound.change change
  rw [sent] at written
  have rest := written.advance correct (by rwa [Function.update_self]) source
  have later := rest.grown
  rw [Function.update_self] at rest later
  exact ⟨rest.after change.grown, later⟩

end Step

end HonestRing

end RingAgreement
