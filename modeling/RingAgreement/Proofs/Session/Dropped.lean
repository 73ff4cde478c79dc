import RingAgreement.Proofs.Medium.Exchange
import RingAgreement.Proofs.Ring.Exchange
import RingAgreement.Proofs.Ring.Neighbors
import RingAgreement.Proofs.Session.Enabled
import RingAgreement.Proofs.Session.Failure
import RingAgreement.Proofs.Wire.RoundTrip
/-!
What an error leaves behind. An error that does not end the run leaves the session as it was, with
one exception: when the mechanism refuses a public key of the roster, a commitment fails that is
made after the write of the step, and the write stays.
-/

namespace RingAgreement

/-- The mechanism refuses to make a commitment under some key of a roster. -/
def Roster.Refuses (K : Kem) (r : Roster) (error : CryptoError) : Prop :=
  ∃ i message coin, Commitment.make K (r.party i).publicKey message coin = .error error

namespace Session

variable {K : Kem} {s : Session} {ρ : Type}

/-! ## Failed commitments -/

theorem checkCommitments_crypto {start : Nat} {entries : List (Party × Contribution)}
    {error : CryptoError} (failed : checkCommitments K start entries = .error (.crypto error)) :
    ∃ entry ∈ entries, ∃ message coin,
      Commitment.make K entry.1.publicKey message coin = .error error := by
  induction entries generalizing start with
  | nil => cases failed
  | cons entry rest ih =>
    obtain ⟨party, c⟩ := entry
    rw [checkCommitments] at failed
    split at failed
    next refused =>
      cases failed
      exact ⟨_, List.mem_cons_self, _, _, refused⟩
    next =>
      split at failed
      next =>
        obtain ⟨entry, member, refused⟩ := ih failed
        exact ⟨entry, List.mem_cons_of_mem _ member, refused⟩
      next => cases failed

theorem refuses_of_verifiedShares {error : CryptoError}
    (failed : s.verifiedShares K = .error (.crypto error)) : s.roster.Refuses K error := by
  rw [verifiedShares] at failed
  split at failed
  next => cases failed
  next cs _ =>
    dsimp only at failed
    split at failed
    next =>
      cases checked : checkCommitments K 0 (s.roster.parties.zip cs) with
      | ok =>
        rw [checked] at failed
        cases failed
      | error e =>
        rw [checked] at failed
        obtain rfl : e = .crypto error := Except.error.inj failed
        obtain ⟨⟨party, c⟩, member, refused⟩ := checkCommitments_crypto checked
        obtain ⟨i, inside, here⟩ := List.getElem_of_mem (List.of_mem_zip member).1
        refine ⟨⟨i, inside⟩, ?_⟩
        rwa [show s.roster.party ⟨i, inside⟩ = party from here]
    next => cases failed

/-- The end of a step fails without ending the run only when a commitment cannot be repeated. -/
theorem Running.refuses_of_conclude (running : s.Running) {actions : List SessionAction}
    {source : ρ} {error : SessionError}
    (failed : (s.conclude K actions source).result = .error error) (mild : error.isFatal = false) :
    ∃ fault, error = .crypto fault ∧ s.roster.Refuses K fault := by
  have checked := verifiedShares_of_conclude failed
  have ended := s.conclude_cases K running actions source
  generalize s.conclude K actions source = outcome at ended failed
  cases ended with
  | waiting => cases failed
  | completed => cases failed
  | aborted =>
    cases failed
    cases mild
  | refused fault =>
    cases failed
    exact ⟨fault, rfl, refuses_of_verifiedShares checked⟩

variable [RandomSource ρ]

/-- The rest of a step fails without ending the run only when a commitment cannot be made. -/
theorem Prepared.refuses_of_advance (prepared : s.Prepared) {actions : List SessionAction}
    {source : ρ} {error : SessionError}
    (failed : (s.advance K actions source).result = .error error) (mild : error.isFatal = false) :
    ∃ fault, error = .crypto fault ∧ s.roster.Refuses K fault := by
  have ended := s.advance_cases K actions source
  generalize s.advance K actions source = outcome at ended failed
  cases ended with
  | silent undue ended =>
    subst ended
    exact prepared.toRunning.refuses_of_conclude failed mild
  | broadcast right left c due rightKey leftKey share coin opens ended =>
    subst ended
    have still := (prepared.withOwnShare rightKey leftKey share).toRunning
    exact still.refuses_of_conclude failed mild
  | refused right left fault due rightKey leftKey refused =>
    cases failed
    exact ⟨fault, rfl, s.own, _, _, refused⟩

theorem Coherent.unchanged_of_dropped (coherent : s.Coherent K) {event : SessionEvent} {source : ρ}
    {error : SessionError} (failed : (s.handle K event source).result = .error error)
    (mild : error.isFatal = false) :
    (s.handle K event source).session = s ∨
      ∃ fault, error = .crypto fault ∧ s.roster.Refuses K fault := by
  by_cases aborted : s.state = .aborted
  · rw [s.handle_aborted K aborted]
    exact .inl rfl
  have step := s.handle_cases K aborted event source
  generalize s.handle K event source = outcome at step failed
  cases step with
  | ignored => exact .inl rfl
  | refused => exact .inl rfl
  | accepted write advanced =>
    subst advanced
    have refuses := (coherent.prepared_of_accepts aborted write).refuses_of_advance failed mild
    rw [write.sameParty.roster_eq] at refuses
    exact .inr refuses

/-- An event that is answered with an error leaves the session as it was, unless the error ends the
run or the mechanism refuses a key of the roster. -/
theorem dropped_events_change_nothing (K : Kem) (roster : Roster) (own : Fin roster.size)
    (secretKey : SecretKey) (inputs : List (SessionEvent × ρ)) (event : SessionEvent) (source : ρ)
    (error : SessionError)
    (failed : (((fresh roster own secretKey).after K inputs).handle K event source).result =
      .error error) (mild : error.isFatal = false) :
    let s := (fresh roster own secretKey).after K inputs
    (s.handle K event source).session = s ∨
      ∃ fault, error = .crypto fault ∧ roster.Refuses K fault := by
  intro s
  have coherent : s.Coherent K := (fresh_coherent roster own secretKey).after inputs
  obtain ⟨state, progress, same⟩ := sameParty_after K (fresh roster own secretKey) inputs
  have listed : s.roster = roster := congrArg (·.roster) same
  rw [← listed]
  exact coherent.unchanged_of_dropped failed mild

/-- Only the right neighbour's answer is taken. -/
theorem Hears.handle_strange_response {e : Envelope} {sender : Fin s.roster.size}
    {response : Handshake.Response} (heard : s.Hears e sender (.akeRespond response))
    (alive : s.state ≠ .aborted) (strange : sender ≠ s.roster.right s.own) (source : ρ) :
    s.handle K (.received e) source =
      ⟨.error (.unexpectedSender .akeRespond (.ofNat sender)), s, source⟩ := by
  rw [heard.handle_eq alive]
  exact if_pos strange

/-- A party that waits for the answer of its right neighbour is handed that answer in the name of
its left neighbour. It drops it and stays as it is; from the right neighbour it takes the answer. -/
theorem misnamed_answer_dropped :
    let ring := HonestRing.trio
    let first : Fin ring.roster.size := ⟨0, by decide⟩
    let left := ring.roster.left first
    let right := ring.roster.right first
    let source : DrawCounter := ⟨0⟩
    ∃ x : ring.Exchange source,
      let s := (ring.fresh first).after .transparent [(.start, source),
        (.received ((ring.fresh left).envelope (.akeInit (x.offer left))), source)]
      let answer := (ring.fresh right).envelope (.akeRespond (x.response right))
      let misnamed := { answer with sender := (ring.fresh left).ownIndex }
      let error := SessionError.unexpectedSender .akeRespond 2
      let outcome := s.handle .transparent (.received misnamed) source
      outcome.result = .error error ∧ error.isFatal = false ∧ outcome.session = s ∧
        (s.handle .transparent (.received answer) source).session ≠ s := by
  intro ring first left right source
  obtain ⟨x⟩ := HonestRing.exists_exchange Kem.transparent_correct ring source
  refine ⟨x, ?_⟩
  intro s answer misnamed error outcome
  have waits : s = x.answering first := by
    simp only [s, left, Session.after, x.handle_start, x.handle_offer]
  have refused : outcome.result = .error error := by
    have heard : (x.answering first).Hears misnamed left (.akeRespond (x.response right)) :=
      ⟨⟨rfl, ring.roster.left_ne first,
        decide_eq_true (HonestRing.Exchange.leftIndex_right first),
        (x.prepared_answering first).unfinished⟩,
        Payload.ofEnvelope_toEnvelope (p := .akeRespond (x.response right)) trivial _ _⟩
    have strange : left ≠ ring.roster.right first := by decide
    simp only [outcome, waits]
    rw [heard.handle_strange_response (x.prepared_answering first).alive strange]
    rfl
  refine ⟨refused, rfl, ?_, fun same => ?_⟩
  · rcases dropped_events_change_nothing .transparent ring.roster first (ring.pair first).secretKey
      _ (.received misnamed) source error refused rfl with kept | ⟨fault, spoilt, _⟩
    · exact kept
    · cases (show SessionError.unexpectedSender .akeRespond 2 = .crypto fault from spoilt)
  · rw [waits, x.handle_response first] at same
    have written := (x.slot_contributed first first).trans (if_pos rfl)
    rw [show x.contributed first = x.answering first from same] at written
    cases written.symm.trans (HonestRing.Exchange.slot_fresh first first)

/-- Three parties, of which the first is listed with a key that the mechanism does not take. -/
def clouded : Roster where
  name := "leaders"
  parties :=
    [⟨⟨.replicate 20 1⟩, ⟨.replicate _ 1⟩⟩,
      ⟨⟨.replicate 20 2⟩, (Kem.transparent.keypair (.replicate 32 2)).publicKey⟩,
      ⟨⟨.replicate 20 3⟩, (Kem.transparent.keypair (.replicate 32 3)).publicKey⟩]
  minSize_le := by decide
  size_lt := by decide
  nodup := by decide

namespace clouded

/-- The key pair of the party at a position; the roster does not list the first one's key. -/
def pair (i : Nat) : Keypair := Kem.transparent.keypair (.replicate 32 (.ofNat (i + 1)))

def first : Fin clouded.size := ⟨0, by decide⟩

theorem encapsulate_refused (message : Bytes 32) :
    Kem.transparent.encapsulate (clouded.party first).publicKey message =
      .error (.kem .parseEncapsulationKey .coefficientRange) := by
  have odd : ((Bytes.replicate publicKeySize 1).toList.drop 32).all (· = 0) = false := by decide
  change Kem.transparent.encapsulate ⟨.replicate publicKeySize 1⟩ message = _
  simp only [Kem.transparent, odd]
  rfl

theorem refuses (message : Bytes 36) (coin : Coin) :
    Commitment.make .transparent (clouded.party first).publicKey message coin =
      .error (.kem .parseEncapsulationKey .coefficientRange) := by
  simp only [Commitment.make, Kem.encapsulateFrom, encapsulate_refused]
  rfl

/-- A party whose own key is refused keeps the left key of an offer although it answers the offer
with an error. -/
theorem keeps_write :
    ∃ (inputs : List (SessionEvent × DrawCounter)) (event : SessionEvent) (source : DrawCounter),
      let s := (fresh clouded first (pair 0).secretKey).after .transparent inputs
      ∃ error, (s.handle .transparent event source).result = .error error ∧
        error.isFatal = false ∧ (s.handle .transparent event source).session ≠ s := by
  have correct := Kem.transparent_correct
  have opens : ∀ i, Kem.transparent.Opens (pair i) := fun i => correct.keypair _
  let source : DrawCounter := ⟨0⟩
  let s0 := fresh clouded first (pair 0).secretKey
  have empty : ∀ i, s0.slot i = none := fresh_slot _ _ _
  have alive0 : s0.state ≠ .aborted := by simp [s0, fresh]
  -- The party starts, so it waits for an answer of its right neighbour.
  obtain ⟨offer, transcript, opened⟩ :=
    Handshake.initiate_succeeds (opens 1) (RandomSource.draw 32 source).1
  have write0 : s0.Accepts .transparent .start source _ _ _ := .start rfl opened
  have prepared0 := (fresh_coherent _ _ _ : s0.Coherent .transparent).prepared_of_accepts alive0
    write0
  have step0 := (write0.handle_eq alive0).trans (prepared0.advance_waiting (empty _) (.inl rfl) _ _)
  let s1 := (s0.opened transcript).refreshed
  have prepared1 : s1.Prepared := prepared0.refreshed
  -- The answer gives it the right key.
  let response : Handshake.Response := ⟨default, default⟩
  obtain ⟨right, confirmed⟩ : ∃ key, Handshake.finalize .transparent response transcript
      s1.secretKey = .ok key := ⟨_, rfl⟩
  let answer := (Payload.akeRespond response).toEnvelope 1 (.party 0)
  have heard1 : s1.Hears answer (s1.roster.right s1.own) (.akeRespond response) :=
    ⟨⟨rfl, clouded.right_ne first, rfl, prepared1.unfinished⟩,
      Payload.ofEnvelope_toEnvelope (p := .akeRespond response) trivial _ _⟩
  have write1 : s1.Accepts .transparent (.received answer) source _ _ _ :=
    .response heard1 rfl rfl confirmed
  have prepared2 := write1.prepared prepared1
  have step1 := (write1.handle_eq prepared1.alive).trans
    (prepared2.advance_waiting (empty _) (.inr rfl) _ _)
  let s2 := (s1.confirmed right).refreshed
  have prepared3 : s2.Prepared := prepared2.refreshed
  -- The left neighbour's offer completes the keys, and the commitment to the own share fails.
  obtain ⟨offer', transcript', opened'⟩ := Handshake.initiate_succeeds (opens 0) (.replicate 32 0)
  obtain ⟨response', left, responded, _⟩ := Handshake.exchange_agrees correct (opens 2) (opens 0)
    opened' (RandomSource.draw 32 source).1
  let message := (Payload.akeInit offer').toEnvelope 2 (.party 0)
  have heard2 : s2.Hears message (s2.roster.left s2.own) (.akeInit offer') :=
    ⟨⟨rfl, clouded.left_ne first, rfl, prepared3.unfinished⟩,
      Payload.ofEnvelope_toEnvelope (p := .akeInit offer') trivial _ _⟩
  have write2 : s2.Accepts .transparent (.received message) source _ _ _ :=
    .offer heard2 rfl responded
  have step2 := (write2.handle_eq prepared3.alive).trans
    (advance_refused (s := s2.answered left) (empty _) rfl rfl refuses _ _)
  have run : s0.after .transparent [(.start, source), (.received answer, source)] = s2 := by
    change ((s0.handle .transparent .start source).session.handle .transparent (.received answer)
      source).session = s2
    rw [step0]
    exact congrArg (·.session) step1
  refine ⟨[(.start, source), (.received answer, source)], .received message, source, ?_⟩
  dsimp only
  rw [run, step2]
  refine ⟨_, rfl, rfl, fun same => ?_⟩
  have kept : some left = none := congrArg (·.progress.keyLeft) same
  cases kept

end clouded

end Session
end RingAgreement
