import Mathlib.Tactic.Choose
import RingAgreement.Proofs.Medium.Basic
import RingAgreement.Proofs.Ring.Closure
import RingAgreement.Proofs.Ring.Neighbors
import RingAgreement.Proofs.Session.Completion
import RingAgreement.Proofs.Session.Enabled
import RingAgreement.Proofs.Wire.RoundTrip
/-!
An exchange without disturbance. Every party of an honest ring starts, answers the offer of its left
neighbour and takes the answer of its right neighbour. Then it has both neighbour keys, and it has
sent its share.
-/

namespace RingAgreement.HonestRing

variable {K : Kem} {ring : HonestRing K} {ρ : Type} [RandomSource ρ] {source : ρ}

/-- What the parties of a ring make of one source of randomness, each from what its neighbours have
made. -/
structure Exchange (ring : HonestRing K) (source : ρ) where
  offer : Fin ring.roster.size → Handshake.Offer
  transcript : Fin ring.roster.size → Handshake.Transcript
  response : Fin ring.roster.size → Handshake.Response
  leftKey : Fin ring.roster.size → SharedSecret
  contribution : Fin ring.roster.size → Contribution
  opened : ∀ i, Handshake.initiate K (ring.roster.party (ring.roster.right i)).publicKey
    (RandomSource.draw 32 source).1 = .ok (offer i, transcript i)
  answered : ∀ i, Handshake.respond K (offer (ring.roster.left i)) (ring.pair i).secretKey
    (ring.roster.party (ring.roster.left i)).publicKey (RandomSource.draw 32 source).1 =
      .ok (response i, leftKey i)
  confirmed : ∀ i, Handshake.finalize K (response (ring.roster.right i)) (transcript i)
    (ring.pair i).secretKey = .ok (leftKey (ring.roster.right i))
  share : ∀ i, (contribution i).share =
    .ofNeighborKeys (leftKey (ring.roster.right i)) (leftKey i)
  coin : ∀ i, (contribution i).coin = ⟨(RandomSource.draw 44 source).1⟩
  opens : ∀ i, (contribution i).OpensAt K (ring.roster.party i).publicKey i

theorem exists_exchange (correct : K.Correct) (ring : HonestRing K) (source : ρ) :
    Nonempty (ring.Exchange source) := by
  choose offer transcript opened using fun i => Handshake.initiate_succeeds
    (ring.opens correct (ring.roster.right i)) (RandomSource.draw 32 source).1
  -- An answer is named by the party that has made the offer, until all of them are there.
  choose answer key responded confirmed using fun i => Handshake.exchange_agrees correct
    (ring.opens correct i) (ring.opens correct (ring.roster.right i)) (opened i)
    (RandomSource.draw 32 source).1
  let leftKey : Fin ring.roster.size → SharedSecret := fun i => key (ring.roster.left i)
  let share : Fin ring.roster.size → Share := fun i =>
    .ofNeighborKeys (leftKey (ring.roster.right i)) (leftKey i)
  choose commitment made using fun i : Fin ring.roster.size => Commitment.make_succeeds
    (ring.opens correct i) ((share i).commitmentMessage i) ⟨(RandomSource.draw 44 source).1⟩
  refine ⟨⟨offer, transcript, fun i => answer (ring.roster.left i), leftKey,
    fun i => ⟨share i, commitment i, _⟩, fun i => ?_, fun i => ?_, fun i => ?_, fun _ => rfl,
    fun _ => rfl, fun i => ?_⟩⟩
  · rw [ring.party_publicKey]
    exact opened i
  · have responded := responded (ring.roster.left i)
    rw [Roster.right_left] at responded
    rw [ring.party_publicKey]
    exact responded
  · simp only [leftKey, Roster.left_right]
    exact confirmed i
  · rw [Contribution.OpensAt, ring.party_publicKey]
    exact made i

namespace Exchange

variable (x : ring.Exchange source) (i : Fin ring.roster.size)

/-- What a party is handed. -/
def inputs : List (SessionEvent × ρ) :=
  let left := ring.roster.left i
  let right := ring.roster.right i
  [(.start, source),
    (.received ((ring.fresh left).envelope (.akeInit (x.offer left))), source),
    (.received ((ring.fresh right).envelope (.akeRespond (x.response right))), source)]

def started : Session := ((ring.fresh i).opened (x.transcript i)).refreshed

def answering : Session := ((x.started i).answered (x.leftKey i)).refreshed

/-- The party with its own contribution. -/
def contributed : Session :=
  (((x.answering i).confirmed (x.leftKey (ring.roster.right i))).withContribution i
    (x.contribution i)).refreshed

/-- A party that has not seen the end of its run looks into a message of another party of the
ring. -/
theorem hears {s : Session} (member : (ring.fresh i).SameParty s) (running : s.Running)
    {k : Fin s.roster.size} {k' : Fin ring.roster.size} (same : (k' : Nat) = k) (foreign : k' ≠ i)
    {p : Payload} (sendable : p.Sendable)
    (addressed : ((ring.fresh k').recipient p).includes (ring.fresh i).ownIndex = true) :
    s.Hears ((ring.fresh k').envelope p) k p := by
  obtain ⟨state, progress, rfl⟩ := member
  obtain rfl : k' = k := Fin.ext same
  exact ⟨⟨ring.roster.toNat_ofNat k', foreign, addressed, running.unfinished⟩,
    Payload.ofEnvelope_toEnvelope sendable _ _⟩

theorem slot_fresh (k : Nat) : (ring.fresh i).slot k = none := Session.fresh_slot ring.roster i _ k

theorem rightIndex_left : (ring.fresh (ring.roster.left i)).rightIndex = (ring.fresh i).ownIndex :=
  congrArg (fun k : Fin ring.roster.size => UInt32.ofNat k) (ring.roster.right_left i)

theorem leftIndex_right : (ring.fresh (ring.roster.right i)).leftIndex = (ring.fresh i).ownIndex :=
  congrArg (fun k : Fin ring.roster.size => UInt32.ofNat k) (ring.roster.left_right i)

/-! ## The steps -/

theorem start_write : (ring.fresh i).Accepts K .start source
    ((ring.fresh i).opened (x.transcript i)) [.send ((ring.fresh i).envelope (.akeInit (x.offer i)))]
    (RandomSource.draw 32 source).2 := .start rfl (x.opened i)

theorem handle_start : (ring.fresh i).handle K .start source =
    ⟨.ok [.send ((ring.fresh i).envelope (.akeInit (x.offer i)))], x.started i,
      (RandomSource.draw 32 source).2⟩ := by
  have written := (ring.coherent_fresh i).prepared_of_accepts (by nofun) (x.start_write i)
  rw [(x.start_write i).handle_eq (by nofun)]
  exact written.advance_waiting (slot_fresh i i) (.inl rfl) _ _

theorem prepared_started : (x.started i).Prepared :=
  ((ring.coherent_fresh i).prepared_of_accepts (by nofun) (x.start_write i)).refreshed

theorem offer_write : (x.started i).Accepts K
    (.received ((ring.fresh (ring.roster.left i)).envelope (.akeInit (x.offer (ring.roster.left i)))))
    source ((x.started i).answered (x.leftKey i))
    [.send ((ring.fresh i).envelope (.akeRespond (x.response i)))]
    (RandomSource.draw 32 source).2 := by
  refine .offer (hears i ⟨_, _, rfl⟩ (x.prepared_started i).toRunning rfl
    (ring.roster.left_ne i) trivial ?_) rfl (x.answered i)
  exact decide_eq_true (rightIndex_left i)

theorem handle_offer : (x.started i).handle K
    (.received ((ring.fresh (ring.roster.left i)).envelope (.akeInit (x.offer (ring.roster.left i)))))
    source =
      ⟨.ok [.send ((ring.fresh i).envelope (.akeRespond (x.response i)))], x.answering i,
        (RandomSource.draw 32 source).2⟩ := by
  have written := (x.offer_write i).prepared (x.prepared_started i)
  rw [(x.offer_write i).handle_eq (x.prepared_started i).alive]
  exact written.advance_waiting (slot_fresh i i) (.inl rfl) _ _

theorem prepared_answering : (x.answering i).Prepared :=
  ((x.offer_write i).prepared (x.prepared_started i)).refreshed

theorem response_write : (x.answering i).Accepts K
    (.received ((ring.fresh (ring.roster.right i)).envelope
      (.akeRespond (x.response (ring.roster.right i))))) source
    ((x.answering i).confirmed (x.leftKey (ring.roster.right i))) [] source := by
  refine .response (hears i ⟨_, _, rfl⟩ (x.prepared_answering i).toRunning rfl
    (ring.roster.right_ne i) trivial ?_) rfl rfl (x.confirmed i)
  exact decide_eq_true (leftIndex_right i)

theorem handle_response : (x.answering i).handle K
    (.received ((ring.fresh (ring.roster.right i)).envelope
      (.akeRespond (x.response (ring.roster.right i))))) source =
      ⟨.ok [.send ((ring.fresh i).envelope (.shareBroadcast (x.contribution i)))],
        x.contributed i, (RandomSource.draw 44 source).2⟩ := by
  let s := (x.answering i).confirmed (x.leftKey (ring.roster.right i))
  have running : s.Running := ((x.response_write i).prepared (x.prepared_answering i)).toRunning
  have sent := Session.advance_contributes (s := s) (slot_fresh i i) rfl rfl (x.share i) (x.coin i)
    (x.opens i) []
  rw [(x.response_write i).handle_eq (x.prepared_answering i).alive, sent]
  have missing : (s.withContribution s.own (x.contribution i)).slot (ring.roster.right i) = none :=
    (Session.slot_withContribution _ _ _ _).trans ((if_neg fun own =>
      ring.roster.right_ne i (Fin.ext own).symm).trans (slot_fresh i _))
  exact (running.withContribution s.own (x.contribution i)).conclude_waiting
    (i := ring.roster.right i) missing _ _

theorem prepared_contributed : (x.contributed i).Prepared :=
  (((x.response_write i).prepared (x.prepared_answering i)).withOwnShare rfl rfl
    (x.share i)).refreshed

/-! ## The run -/

theorem after_inputs : (ring.fresh i).after K (x.inputs i) = x.contributed i := by
  simp only [inputs, Session.after, x.handle_start, x.handle_offer, x.handle_response]

theorem sent_inputs : ((ring.fresh i).outcomes K (x.inputs i)).flatMap (·.sends) =
    [(ring.fresh i).envelope (.akeInit (x.offer i)),
      (ring.fresh i).envelope (.akeRespond (x.response i)),
      (ring.fresh i).envelope (.shareBroadcast (x.contribution i))] := by
  simp only [inputs, Session.outcomes, x.handle_start, x.handle_offer, x.handle_response]
  rfl

theorem slot_contributed (k : Nat) :
    (x.contributed i).slot k = if i.val = k then some (x.contribution i) else none :=
  (Session.slot_withContribution _ _ _ _).trans (if_congr Iff.rfl rfl (slot_fresh i k))

/-! ## Contributions of the others -/

theorem closed : Share.isClosed (List.ofFn fun k => (x.contribution k).share) = true := by
  rw [funext x.share]
  exact Share.isClosed_of_links fun _ => rfl

/-- In a ring of three, the contributions of the other two can overtake the answer of the right
neighbour. With that answer the party sends its own contribution and has the group key. -/
theorem exists_overtaken {first second : Fin ring.roster.size} (first_ne : first ≠ i)
    (second_ne : second ≠ i) (distinct : second ≠ first)
    (all : ∀ k, k = i ∨ k = first ∨ k = second) :
    let share (k : Fin ring.roster.size) : Envelope :=
      (ring.fresh k).envelope (.shareBroadcast (x.contribution k))
    let left := ring.roster.left i
    let right := ring.roster.right i
    let s := (ring.fresh i).after K
      [(.start, source), (.received ((ring.fresh left).envelope (.akeInit (x.offer left))), source),
        (.received (share first), source), (.received (share second), source)]
    s.groupKey = none ∧
      ∃ key, (s.handle K (.received ((ring.fresh right).envelope (.akeRespond (x.response right))))
        source).result = .ok [.send (share i), .established key] := by
  intro share left right s
  have running : (x.answering i).Running := (x.prepared_answering i).toRunning
  -- The party stores the two contributions and waits, as it lacks the key of its right link.
  let earlier := ((x.answering i).withContribution first (x.contribution first)).refreshed
  let later := (earlier.withContribution second (x.contribution second)).refreshed
  have running_earlier : earlier.Running := (running.withContribution _ _).refreshed
  have running_later : later.Running := (running_earlier.withContribution _ _).refreshed
  have slot_earlier : ∀ k : Nat, earlier.slot k =
      if first.val = k then some (x.contribution first) else none := fun k =>
    (Session.slot_withContribution _ _ _ _).trans (if_congr Iff.rfl rfl (slot_fresh i k))
  have slot_later : ∀ k : Nat, later.slot k =
      if second.val = k then some (x.contribution second) else earlier.slot k := fun k =>
    Session.slot_withContribution _ _ _ _
  have due : earlier.slot i = none := by rw [slot_earlier, if_neg (Fin.val_ne_of_ne first_ne)]
  have due_later : later.slot i = none := by
    rw [slot_later, if_neg (Fin.val_ne_of_ne second_ne), due]
  have vacant : earlier.slot second = none := by
    rw [slot_earlier, if_neg (Fin.val_ne_of_ne distinct.symm)]
  have step_first : (x.answering i).handle K (.received (share first)) source =
      ⟨.ok [], earlier, source⟩ := by
    have heard : (x.answering i).Hears (share first) first (.shareBroadcast (x.contribution first)) :=
      hears i ⟨_, _, rfl⟩ running rfl first_ne trivial rfl
    exact heard.handle_share_early running (slot_fresh i first) (slot_fresh i i) (.inl rfl) source
  have step_second : earlier.handle K (.received (share second)) source =
      ⟨.ok [], later, source⟩ := by
    have heard : earlier.Hears (share second) second (.shareBroadcast (x.contribution second)) :=
      hears i ⟨_, _, rfl⟩ running_earlier rfl second_ne trivial rfl
    exact heard.handle_share_early running_earlier vacant due (.inl rfl) source
  have reached : s = later := by
    simp only [s, left, Session.after, x.handle_start, x.handle_offer, step_first, step_second]
  rw [reached]
  refine ⟨running_later.keyless, ?_⟩
  -- The answer brings the last key, and with the own contribution all of them are there.
  let confirmed := later.confirmed (x.leftKey right)
  have heard : later.Hears _ right (.akeRespond (x.response right)) :=
    hears i ⟨_, _, rfl⟩ running_later rfl (ring.roster.right_ne i) trivial
      (decide_eq_true (leftIndex_right i))
  have write : later.Accepts K _ source confirmed [] source :=
    .response heard rfl rfl (x.confirmed i)
  have running_confirmed : confirmed.Running :=
    ⟨running_later.keyless, running_later.unfinished, running_later.alive⟩
  have sent := Session.advance_contributes (s := confirmed) due_later rfl rfl (x.share i) (x.coin i)
    (x.opens i) []
  let whole := confirmed.withContribution confirmed.own (x.contribution i)
  have leftKey : whole.progress.keyLeft = some (x.leftKey i) := rfl
  have verified : whole.Verified K x.contribution := by
    refine ⟨fun k => ?_, of_decide_eq_true x.closed, x.opens⟩
    refine (Session.slot_withContribution confirmed confirmed.own _ _).trans ?_
    rcases all k with here | here | here
    · rw [here]
      exact if_pos rfl
    · rw [here]
      refine (if_neg (Fin.val_ne_of_ne first_ne.symm)).trans ((slot_later first).trans ?_)
      rw [if_neg (Fin.val_ne_of_ne distinct), slot_earlier, if_pos rfl]
    · rw [here]
      refine (if_neg (Fin.val_ne_of_ne second_ne.symm)).trans ((slot_later second).trans ?_)
      rw [if_pos rfl]
  have ended := (running_confirmed.withContribution confirmed.own (x.contribution i)).conclude_verified
    verified leftKey [.send (share i)] (RandomSource.draw 44 source).2
  refine ⟨whole.keyFrom (x.leftKey i) x.contribution, ?_⟩
  rw [write.handle_eq running_later.alive, sent]
  exact congrArg (·.result) ended

/-- In a ring of three, a party that has contributed and is handed contributions in the name of the
other two ends its run on the second one, with whatever the checks find. -/
theorem exists_gathered {first second : Fin ring.roster.size} (first_ne : first ≠ i)
    (second_ne : second ≠ i) (distinct : second ≠ first)
    (all : ∀ k, k = i ∨ k = first ∨ k = second) {d : Fin ring.roster.size → Contribution}
    (own : d i = x.contribution i) :
    let share (k : Fin ring.roster.size) : SessionEvent :=
      .received ((ring.fresh k).envelope (.shareBroadcast (d k)))
    let s := (ring.fresh i).after K (x.inputs i ++ [(share first, source)])
    ∃ t : Session, t.Running ∧ (ring.fresh i).SameParty t ∧
      (∀ k : Fin ring.roster.size, t.slot k = some (d k)) ∧ s.slot second = none ∧
      s.handle K (share second) source = t.conclude K [] source := by
  intro share s
  have running : (x.contributed i).Running := (x.prepared_contributed i).toRunning
  have slots := x.slot_contributed i
  -- The first contribution is stored, and the party waits for the second one.
  let waiting := ((x.contributed i).withContribution first (d first)).refreshed
  have waiting_running : waiting.Running := (running.withContribution first (d first)).refreshed
  have waiting_slot : ∀ k : Nat,
      waiting.slot k = if first.val = k then some (d first) else (x.contributed i).slot k :=
    fun k => Session.slot_withContribution _ _ _ k
  have missing : waiting.slot second = none := by
    rw [waiting_slot, if_neg (Fin.val_ne_of_ne distinct.symm), slots,
      if_neg (Fin.val_ne_of_ne second_ne.symm)]
  have heard : (x.contributed i).Hears _ first (.shareBroadcast (d first)) :=
    hears i ⟨_, _, rfl⟩ running rfl first_ne trivial rfl
  have step : (x.contributed i).handle K (share first) source = ⟨.ok [], waiting, source⟩ := by
    have fresh_first : (x.contributed i).slot first = none := by
      rw [slots, if_neg (Fin.val_ne_of_ne first_ne.symm)]
    have held : ((x.contributed i).slot i).isSome := by
      rw [slots, if_pos rfl]
      rfl
    rw [heard.handle_share running.alive fresh_first held]
    exact (running.withContribution first (d first)).conclude_waiting (i := second) missing _ _
  have reached : s = waiting := by
    calc s = ((ring.fresh i).after K (x.inputs i)).after K [(share first, source)] :=
        Session.after_append K _ _ _
      _ = (x.contributed i).after K [(share first, source)] := by rw [x.after_inputs]
      _ = waiting := congrArg (·.session) step
  -- The second one is the last.
  refine ⟨waiting.withContribution second (d second), waiting_running.withContribution _ _,
    ⟨_, _, rfl⟩, fun k => ?_, by rw [reached, missing], ?_⟩
  · refine (Session.slot_withContribution waiting second (d second) k).trans ?_
    rw [waiting_slot, slots]
    rcases all k with rfl | rfl | rfl
    · rw [if_neg (Fin.val_ne_of_ne second_ne), if_neg (Fin.val_ne_of_ne first_ne), if_pos rfl, own]
    · rw [if_neg (Fin.val_ne_of_ne distinct), if_pos rfl]
    · rw [if_pos rfl]
  · rw [reached]
    have heard' : waiting.Hears _ second (.shareBroadcast (d second)) :=
      hears i ⟨_, _, rfl⟩ waiting_running rfl second_ne trivial rfl
    have held : (waiting.slot i).isSome := by
      rw [waiting_slot, if_neg (Fin.val_ne_of_ne first_ne), slots, if_pos rfl]
      rfl
    exact heard'.handle_share waiting_running.alive missing held source

end Exchange

end RingAgreement.HonestRing
