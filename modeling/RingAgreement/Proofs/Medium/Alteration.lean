import RingAgreement.Proofs.Medium.Exchange
import RingAgreement.Proofs.Session.Failure
import RingAgreement.Proofs.Session.History
/-!
A single altered share. When the handshakes of a ring run undisturbed, the right key of a party is
the left key of its right neighbour, so the shares that the parties send cancel out, and a party that
is shown one of them altered finds that they do not. Nothing is asked of the order in which messages
arrive, of how often they do, or of the shares that the other parties are handed.
-/

namespace RingAgreement

namespace Session

variable {K : Kem} {s : Session} {ρ : Type}

/-- The contributions of an established session cancel out. -/
theorem Coherent.closed_of_established (coherent : s.Coherent K) {start : Session}
    (member : start.SameParty s) (established : s.state = .established) :
    ∃ c : Fin start.roster.size → Contribution,
      (∀ k : Fin start.roster.size, s.slot k = some (c k)) ∧
      Share.isClosed (List.ofFn fun k => (c k).share) = true := by
  obtain ⟨c, _, _, verified, _⟩ := coherent.of_established established
  obtain ⟨state, progress, rfl⟩ := member
  exact ⟨c, verified.filled, by simpa [Share.isClosed] using verified.closed⟩

/-- The step that brings the last contribution ends the run if the shares do not cancel out. -/
theorem Coherent.rejected_of_filling [RandomSource ρ] (coherent : s.Coherent K) {start : Session}
    (member : start.SameParty s) {event : SessionEvent} {source : ρ}
    {c : Fin start.roster.size → Contribution} {i : Fin start.roster.size}
    (missing : s.slot i = none)
    (filled : ∀ k : Fin start.roster.size, (s.handle K event source).session.slot k = some (c k))
    (unclosed : Share.isClosed (List.ofFn fun k => (c k).share) = false) :
    (s.handle K event source).result = .error (.verification .closure) ∧
      (s.handle K event source).session.Rejected K .closure := by
  -- Whatever the step has written, it ends with the checks.
  have verdict : ∀ {t : Session} (_ : t.Running) (_ : start.SameParty t)
      (actions : List SessionAction) (rest : ρ),
      (∀ k : Fin start.roster.size, (t.conclude K actions rest).session.slot k = some (c k)) →
      (t.conclude K actions rest).result = .error (.verification .closure) ∧
        (t.conclude K actions rest).session.Rejected K .closure := by
    intro t running member actions rest filled
    rw [running.slot_conclude] at filled
    have fails := member.verifiedShares_of_open (K := K) filled unclosed
    rw [running.conclude_of_failed fails]
    exact ⟨rfl, running.rejected_abandoned fails⟩
  have step := coherent.stepped event source
  generalize s.handle K event source = outcome at step filled
  cases step with
  | kept =>
    have present := filled i
    rw [missing] at present
    cases present
  | @written s' actions source' _ write prepared =>
    have member := member.trans write.sameParty
    have ended := s'.advance_cases K actions source'
    generalize s'.advance K actions source' = outcome at ended filled
    cases ended with
    | silent _ ended =>
      subst ended
      exact verdict prepared.toRunning member _ _ filled
    | broadcast _ _ d _ _ _ _ _ _ ended =>
      subst ended
      exact verdict (prepared.toRunning.withContribution s'.own d) (member.trans ⟨_, _, rfl⟩) _ _
        filled
    | refused _ _ _ due =>
      have own_eq := member.own_eq
      have present := filled start.own
      rw [← own_eq, due] at present
      cases present

end Session

namespace HonestRing

variable {K : Kem} (ring : HonestRing K) {ρ : Type} [RandomSource ρ]

/-- What a party sends over its run. -/
def sent (inputs : Fin ring.roster.size → List (SessionEvent × ρ)) (i : Fin ring.roster.size) :
    List Envelope := ((ring.fresh i).outcomes K (inputs i)).flatMap (·.sends)

/-- A message that a party of the ring has sent. -/
def Genuine (inputs : Fin ring.roster.size → List (SessionEvent × ρ)) (e : Envelope) : Prop :=
  ∃ i, e ∈ ring.sent inputs i

/-- Every offer and every answer that a party is handed is genuine. -/
def Undisturbed (inputs : Fin ring.roster.size → List (SessionEvent × ρ)) : Prop :=
  ∀ i e source, (.received e, source) ∈ inputs i → e.kind = .akeInit ∨ e.kind = .akeRespond →
    ring.Genuine inputs e

variable {ring} {inputs : Fin ring.roster.size → List (SessionEvent × ρ)}

theorem Genuine.sent_by {e : Envelope} (genuine : ring.Genuine inputs e)
    {i : Fin ring.roster.size} (sender : e.sender.toNat = i) : e ∈ ring.sent inputs i := by
  obtain ⟨k, sent⟩ := genuine
  suffices same : k = i by rwa [← same]
  obtain ⟨earlier, event, source, _, posted⟩ := Session.exists_step_of_sent sent
  obtain ⟨p, rfl, _⟩ := ((ring.coherent_fresh k).after earlier).emits_of_sent posted
  have named : ((ring.fresh k).after K earlier).ownIndex = .ofNat k :=
    congrArg UInt32.ofNat (Session.sameParty_after K (ring.fresh k) earlier).own_eq
  apply Fin.ext
  rw [← sender, ← ring.roster.toNat_ofNat k, ← named]
  rfl

/-- In an undisturbed ring the right key of a party is the left key of its right neighbour. -/
theorem answered_of_keyRight (correct : K.Correct) (undisturbed : ring.Undisturbed inputs)
    {i : Fin ring.roster.size} {key : SharedSecret}
    (wrote : (ring.fresh i).Wrote K (inputs i) (.keyRight key)) :
    ∃ offer response, (ring.fresh (ring.roster.right i)).Answered K
      (inputs (ring.roster.right i)) offer response key := by
  have coherent := ring.coherent_fresh
  obtain ⟨e, source, response, offer, transcript, listed, sender, read, opened, finalized⟩ :=
    Session.Wrote.confirmed wrote
  have sent : e ∈ ring.sent inputs (ring.roster.right i) :=
    (undisturbed i e source listed (.inr (Payload.kind_of_ofEnvelope read).symm)).sent_by sender
  obtain ⟨offer', key', answered⟩ := (coherent _).answered_of_sent sent read
  obtain ⟨e', source', listed', sender', read', seed', responded⟩ := Session.Answered.heard answered
  rw [Roster.left_right] at sender' responded
  have sent' : e' ∈ ring.sent inputs i :=
    (undisturbed _ e' source' listed' (.inl (Payload.kind_of_ofEnvelope read').symm)).sent_by sender'
  obtain ⟨transcript', opened'⟩ := (coherent i).opened_of_sent sent' read'
  obtain ⟨rfl, rfl⟩ := opened.unique (coherent i) opened'
  obtain ⟨seed, initiated⟩ := Session.Opened.made opened
  rw [ring.party_publicKey] at initiated responded
  obtain ⟨response'', key'', responded', finalized'⟩ := Handshake.exchange_agrees correct
    (ring.opens correct i) (ring.opens correct (ring.roster.right i)) initiated seed'
  obtain ⟨rfl, rfl⟩ := Prod.mk.inj (Except.ok.inj (responded.symm.trans responded'))
  obtain rfl := Except.ok.inj (finalized.symm.trans finalized')
  exact ⟨_, _, answered⟩

/-- In an undisturbed ring the contributions that the parties make cancel out. -/
theorem closed_of_undisturbed (correct : K.Correct) (undisturbed : ring.Undisturbed inputs)
    {c : Fin ring.roster.size → Contribution}
    (held : ∀ i, ((ring.fresh i).after K (inputs i)).slot i = some (c i)) :
    Share.isClosed (List.ofFn fun i => (c i).share) = true := by
  choose right left share wroteRight wroteLeft using fun i => Session.keys_of_own (held i)
  rw [funext share]
  refine Share.isClosed_of_links fun i => ?_
  obtain ⟨_, _, answered⟩ := answered_of_keyRight correct undisturbed (wroteRight i)
  obtain ⟨_, _, answered'⟩ := (wroteLeft (ring.roster.right i)).answered
  exact (answered.unique (ring.coherent_fresh _) answered').2.2

/-- One party is shown another share of some other party than the one that it has sent. The shares
of all others reach it as they were sent. -/
structure OneAltered (ring : HonestRing K) (inputs : Fin ring.roster.size → List (SessionEvent × ρ))
    (p j : Fin ring.roster.size) : Prop where
  foreign : j ≠ p
  genuine : ∀ e source, (.received e, source) ∈ inputs p → e.kind = .shareBroadcast →
    e.sender.toNat ≠ j.val → ring.Genuine inputs e
  altered : ∃ c d : Contribution,
    (ring.fresh j).envelope (.shareBroadcast c) ∈ ring.sent inputs j ∧
    ((ring.fresh p).after K (inputs p)).slot j = some d ∧ d.share ≠ c.share

/-- The contributions that the party with the altered share comes to hold do not cancel out. -/
theorem OneAltered.unclosed (correct : K.Correct) (undisturbed : ring.Undisturbed inputs)
    {p j : Fin ring.roster.size} (one : ring.OneAltered inputs p j)
    {earlier : List (SessionEvent × ρ)} (within : earlier <+: inputs p)
    {d : Fin ring.roster.size → Contribution}
    (filled : ∀ k : Fin ring.roster.size, ((ring.fresh p).after K earlier).slot k = some (d k)) :
    Share.isClosed (List.ofFn fun k => (d k).share) = false := by
  have coherent := ring.coherent_fresh
  have kept : ∀ k : Fin ring.roster.size,
      ((ring.fresh p).after K (inputs p)).slot k = some (d k) := by
    obtain ⟨rest, split⟩ := within
    intro k
    rw [← split, Session.after_append]
    exact ((coherent p).after earlier).slot_after (filled k) rest
  obtain ⟨c, d', sent, accepted, differs⟩ := one.altered
  obtain rfl : d j = d' := Option.some.inj ((kept j).symm.trans accepted)
  -- But for the altered one, the party holds what the others have made.
  let made : Fin ring.roster.size → Contribution := Function.update d j c
  have others : ∀ k, k ≠ j → made k = d k := fun k other => Function.update_of_ne other c d
  have held : ∀ k, ((ring.fresh k).after K (inputs k)).slot k = some (made k) := by
    intro k
    by_cases here : k = j
    · subst here
      rw [show made k = c from Function.update_self k c d]
      exact (coherent k).slot_of_read sent
        (Payload.ofEnvelope_toEnvelope (p := .shareBroadcast c) trivial _ _)
    rw [others k here]
    by_cases own : k = p
    · rw [own]
      exact kept p
    · obtain ⟨e, source, listed, sender, read⟩ := Session.heard_of_slot own (kept k)
      have kind : e.kind = .shareBroadcast := (Payload.kind_of_ofEnvelope read).symm
      have foreign : e.sender.toNat ≠ j.val := sender ▸ Fin.val_ne_of_ne here
      have posted := (one.genuine e source listed kind foreign).sent_by sender
      exact (coherent k).slot_of_read posted read
  refine Share.isClosed_of_oneChanged (closed_of_undisturbed correct undisturbed held)
    (Share.oneChanged_ofFn (i := j) ?_ fun k other => ?_)
  · rw [show made j = c from Function.update_self j c d]
    exact differs
  · rw [others k other]

/-- When no handshake in a ring is disturbed, a party that is shown an altered share of one other
party does not become established. The step after which it holds all contributions, be it the one
that brings the last of them or the one in which it makes its own, fails at the closure, and the
session is aborted and has no key. -/
theorem altered_share_detected (correct : K.Correct) (ring : HonestRing K)
    (inputs : Fin ring.roster.size → List (SessionEvent × ρ))
    (undisturbed : ring.Undisturbed inputs) (p j : Fin ring.roster.size)
    (one : ring.OneAltered inputs p j) :
    (∀ earlier, earlier <+: inputs p →
      ((ring.fresh p).after K earlier).state ≠ .established) ∧
    ∀ earlier event source, earlier ++ [(event, source)] <+: inputs p →
      let s := (ring.fresh p).after K earlier
      let outcome := s.handle K event source
      (∃ i : Fin ring.roster.size, s.slot i = none) →
      (∀ i : Fin ring.roster.size, (outcome.session.slot i).isSome) →
      outcome.result = .error (.verification .closure) ∧ outcome.session.state = .aborted ∧
      outcome.session.groupKey = none ∧ outcome.session.progress.keyLeft = none ∧
      outcome.session.progress.keyRight = none ∧ outcome.session.progress.transcript = none := by
  have unstarted := ring.coherent_fresh p
  refine ⟨fun earlier within established => ?_, fun earlier event source within => ?_⟩
  · have member := Session.sameParty_after K (ring.fresh p) earlier
    obtain ⟨d, filled, closed⟩ :=
      (unstarted.after earlier).closed_of_established member established
    have unclosed := one.unclosed correct undisturbed within filled
    cases closed.symm.trans unclosed
  · intro s outcome missing present
    obtain ⟨i, missing⟩ := missing
    choose d filled using fun k => Option.isSome_iff_exists.1 (present k)
    have reached : (ring.fresh p).after K (earlier ++ [(event, source)]) = outcome.session :=
      Session.after_append K _ _ _
    have unclosed := one.unclosed correct undisturbed within (d := d) fun k => by
      rw [reached, filled k]
    have member := Session.sameParty_after K (ring.fresh p) earlier
    obtain ⟨failed, rejected⟩ :=
      (unstarted.after earlier).rejected_of_filling member missing filled unclosed
    exact ⟨failed, rejected.aborted, rejected.keyless, rejected.erased⟩

/-! ## After an exchange -/

namespace Exchange

variable {source : ρ} (x : ring.Exchange source)
  (more : Fin ring.roster.size → List (SessionEvent × ρ))

/-- What the parties have sent in an exchange they have sent, whatever comes then. -/
theorem sent_of_more (i : Fin ring.roster.size) {e : Envelope}
    (listed : e ∈ [(ring.fresh i).envelope (.akeInit (x.offer i)),
      (ring.fresh i).envelope (.akeRespond (x.response i)),
      (ring.fresh i).envelope (.shareBroadcast (x.contribution i))]) :
    e ∈ ring.sent (fun i => x.inputs i ++ more i) i := by
  rw [sent, Session.outcomes_append, List.flatMap_append, x.sent_inputs]
  exact List.mem_append_left _ listed

/-- In an exchange the parties are handed offers and answers that others have sent. -/
theorem received_cases {i : Fin ring.roster.size} {e : Envelope} {source' : ρ}
    (listed : (.received e, source') ∈ x.inputs i) :
    (∃ k, e = (ring.fresh k).envelope (.akeInit (x.offer k))) ∨
      ∃ k, e = (ring.fresh k).envelope (.akeRespond (x.response k)) := by
  simp only [inputs, List.mem_cons, Prod.mk.injEq, reduceCtorEq, false_and, false_or,
    SessionEvent.received.injEq, List.not_mem_nil, or_false] at listed
  rcases listed with ⟨rfl, _⟩ | ⟨rfl, _⟩
  · exact .inl ⟨_, rfl⟩
  · exact .inr ⟨_, rfl⟩

/-- With shares only after an exchange, no handshake is disturbed. -/
theorem undisturbed
    (shares : ∀ i e source', (.received e, source') ∈ more i → e.kind = .shareBroadcast) :
    ring.Undisturbed fun i => x.inputs i ++ more i := by
  intro i e source' listed kind
  rcases List.mem_append.1 listed with early | late
  · rcases x.received_cases early with ⟨k, rfl⟩ | ⟨k, rfl⟩
    · exact ⟨k, x.sent_of_more more k (by simp)⟩
    · exact ⟨k, x.sent_of_more more k (by simp)⟩
  · rw [shares i e source' late] at kind
    rcases kind with kind | kind
    · cases kind
    · cases kind

/-- In a ring of three, a party can be shown another share of its neighbour after an exchange, and
it comes to hold all contributions. -/
theorem exists_oneAltered {first second third : Fin ring.roster.size} (second_ne : second ≠ first)
    (third_ne : third ≠ first) (distinct : third ≠ second)
    (all : ∀ k, k = first ∨ k = second ∨ k = third) {altered : Contribution}
    (other : altered.share ≠ (x.contribution second).share) :
    ∃ inputs : Fin ring.roster.size → List (SessionEvent × ρ),
      ring.Undisturbed inputs ∧ ring.OneAltered inputs first second ∧
      ∃ earlier event, earlier ++ [(event, source)] = inputs first ∧
        (∃ i : Fin ring.roster.size, ((ring.fresh first).after K earlier).slot i = none) ∧
        ∀ i : Fin ring.roster.size, ((((ring.fresh first).after K earlier).handle K event
          source).session.slot i).isSome := by
  let seen : Fin ring.roster.size → Contribution := Function.update x.contribution second altered
  have unseen : ∀ k, k ≠ second → seen k = x.contribution k := fun k other =>
    Function.update_of_ne other _ _
  have seen_altered : seen second = altered := Function.update_self _ _ _
  let share (k : Fin ring.roster.size) : SessionEvent :=
    .received ((ring.fresh k).envelope (.shareBroadcast (seen k)))
  let more (i : Fin ring.roster.size) : List (SessionEvent × ρ) :=
    if i = first then [(share second, source), (share third, source)] else []
  have handed : ∀ i e source', (.received e, source') ∈ more i →
      e = (ring.fresh second).envelope (.shareBroadcast (seen second)) ∨
      e = (ring.fresh third).envelope (.shareBroadcast (seen third)) := by
    intro i e source' listed
    by_cases here : i = first
    · rw [show more i = _ from if_pos here] at listed
      rcases List.mem_pair.1 listed with same | same
      · cases same
        exact .inl rfl
      · cases same
        exact .inr rfl
    · rw [show more i = [] from if_neg here] at listed
      cases listed
  have broadcast : ∀ k, (ring.fresh k).envelope (.shareBroadcast (x.contribution k)) ∈
      ring.sent (fun i => x.inputs i ++ more i) k := fun k => x.sent_of_more more k (by simp)
  let earlier := x.inputs first ++ [(share second, source)]
  have split : earlier ++ [(share third, source)] = x.inputs first ++ more first := by
    rw [show more first = _ from if_pos rfl, List.append_assoc]
    rfl
  -- The checks at the end do not change what is stored.
  obtain ⟨t, running, _, filled, missing, ends⟩ :=
    x.exists_gathered first second_ne third_ne distinct all (unseen first second_ne.symm)
  have stored : ∀ k : Fin ring.roster.size, (((ring.fresh first).after K earlier).handle K
      (share third) source).session.slot k = some (seen k) := by
    intro k
    rw [ends, running.slot_conclude]
    exact filled k
  refine ⟨fun i => x.inputs i ++ more i, x.undisturbed more fun i e source' listed => ?_,
    ⟨second_ne, fun e source' listed kind foreign => ?_, ?_⟩, earlier, share third, split,
    ⟨third, missing⟩, fun k => Option.isSome_of_eq_some (stored k)⟩
  · rcases handed i e source' listed with rfl | rfl
    · rfl
    · rfl
  · rcases List.mem_append.1 listed with early | late
    · rcases x.received_cases early with ⟨k, rfl⟩ | ⟨k, rfl⟩
      · cases kind
      · cases kind
    · rcases handed first e source' late with rfl | rfl
      · exact absurd (ring.roster.toNat_ofNat second) foreign
      · rw [unseen third distinct]
        exact ⟨third, broadcast third⟩
  · refine ⟨x.contribution second, altered, broadcast second, ?_, other⟩
    rw [← split, Session.after_append, ← seen_altered]
    exact stored second

end Exchange

/-- The first of three parties is shown another share of the second one, after an undisturbed
exchange. -/
theorem trio_detects_altered_share :
    ∃ (inputs : Fin trio.roster.size → List (SessionEvent × DrawCounter))
      (first second : Fin trio.roster.size),
    trio.Undisturbed inputs ∧ trio.OneAltered inputs first second ∧
    (∀ earlier, earlier <+: inputs first →
      ((trio.fresh first).after .transparent earlier).state ≠ .established) ∧
    ∃ earlier event source, earlier ++ [(event, source)] = inputs first ∧
      let s := (trio.fresh first).after .transparent earlier
      let outcome := s.handle .transparent event source
      (∃ i : Fin trio.roster.size, s.slot i = none) ∧
      (∀ i : Fin trio.roster.size, (outcome.session.slot i).isSome) ∧
      outcome.result = .error (.verification .closure) ∧ outcome.session.state = .aborted ∧
      outcome.session.groupKey = none ∧ outcome.session.progress.keyLeft = none ∧
      outcome.session.progress.keyRight = none ∧ outcome.session.progress.transcript = none := by
  let first : Fin trio.roster.size := ⟨0, by decide⟩
  let second : Fin trio.roster.size := ⟨1, by decide⟩
  let third : Fin trio.roster.size := ⟨2, by decide⟩
  obtain ⟨x⟩ := exists_exchange Kem.transparent_correct trio (⟨0⟩ : DrawCounter)
  let genuine := x.contribution second
  let altered : Contribution :=
    { genuine with share := ⟨genuine.share.bytes ^^^ .replicate 32 1⟩ }
  have other : altered.share ≠ genuine.share := by
    intro same
    have flipped : (.replicate 32 1 : Bytes 32) = .zero 32 :=
      Bytes.xor_left_cancel ((congrArg Share.bytes same).trans (Bytes.xor_zero _).symm)
    exact absurd flipped (by decide)
  obtain ⟨inputs, undisturbed, one, earlier, event, split, missing, present⟩ :=
    x.exists_oneAltered (show second ≠ first by decide) (show third ≠ first by decide)
      (show third ≠ second by decide) (by decide) other
  obtain ⟨unestablished, fails⟩ :=
    altered_share_detected Kem.transparent_correct trio inputs undisturbed first second one
  have within : earlier ++ [(event, ⟨0⟩)] <+: inputs first := split ▸ List.prefix_rfl
  exact ⟨inputs, first, second, undisturbed, one, unestablished, earlier, event, ⟨0⟩, split, missing,
    present, fails earlier event ⟨0⟩ within missing present⟩

end HonestRing

end RingAgreement
