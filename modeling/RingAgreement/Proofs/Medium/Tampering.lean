import RingAgreement.Proofs.Medium.Quiescence
/-!
A medium that lies. It hands any party whatever it makes up, and what it passes on it may alter. Two
parties that are established all the same hold the same key exactly as far as they have been shown
one exchange: the same share of every party, and links that fit. The checks of a party ensure no
more than that, since shares can be replaced by others that cancel out as well.
-/

namespace RingAgreement

namespace Session

/-- The share of a party, as a session has it. -/
def share? (s : Session) (k : Nat) : Option Share := (s.slot k).map (·.share)

/-- The keys of all links, as a session finds them from its left key and the shares. -/
def linkKeys? (s : Session) : Option (List SharedSecret) := do
  let left ← s.progress.keyLeft
  let contributions ← s.contributions?
  return Share.leftKeys s.own left (contributions.map (·.share))

end Session

namespace Medium

variable (K : Kem) {n : Nat} {ρ : Type} [RandomSource ρ] (w : Medium n ρ)

/-- The parties after events of the medium's choice. -/
def exposed (events : List (Fin n × SessionEvent)) : Medium n ρ :=
  events.foldl (fun w event => w.hand K event.1 event.2) w

end Medium

namespace HonestRing

variable {K : Kem} {ring : HonestRing K} {ρ : Type}

/-- What stands behind the group key of an established party. -/
theorem established_cases {s : Session} {i : Fin ring.roster.size}
    (member : (ring.fresh i).SameParty s) (coherent : s.Coherent K)
    (established : s.state = .established) :
    ∃ (left : SharedSecret) (shares : List Share), s.progress.keyLeft = some left ∧
      shares.length = ring.roster.size ∧ (∀ k : Fin ring.roster.size, s.share? k = shares[k.val]?) ∧
      Share.total shares = Bytes.zero 32 ∧ s.linkKeys? = some (Share.leftKeys i left shares) ∧
      s.groupKey = some (.derive (Share.leftKeys i left shares) ring.roster.ids) := by
  obtain ⟨c, left, _, verified, leftKey, _, _, key⟩ := coherent.of_established established
  have listed := Session.contributions?_of_filled verified.filled
  have shown : ∀ k : Fin s.roster.size,
      s.share? k = (List.ofFn fun k => (c k).share)[k.val]? := by
    intro k
    rw [Session.share?, verified.filled k, List.getElem?_ofFn, dif_pos k.isLt]
    rfl
  obtain ⟨state, progress, rfl⟩ := member
  refine ⟨left, List.ofFn fun k => (c k).share, leftKey, List.length_ofFn, shown,
    verified.closed, ?_, key⟩
  rw [Session.linkKeys?, leftKey, listed]
  simp only [Option.bind_eq_bind, Option.bind_some, List.map_ofFn]
  rfl

variable [RandomSource ρ]

/-- Whatever a party is handed, it stays the same party and its keys stay in order. -/
theorem exposed_coherent (events : List (Fin ring.roster.size × SessionEvent))
    {w : Medium ring.roster.size ρ}
    (kept : ∀ i, (ring.fresh i).SameParty (w.session i) ∧ (w.session i).Coherent K)
    (i : Fin ring.roster.size) : (ring.fresh i).SameParty ((w.exposed K events).session i) ∧
      ((w.exposed K events).session i).Coherent K := by
  induction events generalizing w with
  | nil => exact kept i
  | cons event rest ih =>
    obtain ⟨receiver, event⟩ := event
    refine ih (w := w.hand K receiver event) fun j => ?_
    by_cases here : j = receiver
    · subst here
      rw [Medium.hand_session_self]
      exact ⟨(kept j).1.trans ((w.session j).sameParty_handle K event _),
        (kept j).2.handle event _⟩
    · rw [Medium.hand_session_of_ne K w here]
      exact kept j

/-- Messages of the parties are among what a medium can make up. -/
theorem exists_exposed (moves : List (Move ring.roster.size)) {w w' : Medium ring.roster.size ρ}
    (sessions : w.session = w'.session) (sources : w.source = w'.source) :
    ∃ events, (w.run K moves).session = (w'.exposed K events).session := by
  -- The two media differ in what they have posted, so only sessions and sources are compared.
  induction moves generalizing w w' with
  | nil => exact ⟨[], sessions⟩
  | cons move rest ih =>
    have given : ∀ receiver event, (w.play K move).session = (w.hand K receiver event).session →
        (w.play K move).source = (w.hand K receiver event).source →
        ∃ events, ((w.play K move).run K rest).session = (w'.exposed K events).session := by
      intro receiver event session source
      have next : (w.play K move).session = (w'.hand K receiver event).session :=
        session.trans (by simp only [Medium.hand, sessions, sources])
      obtain ⟨events, reached⟩ := ih next
        (source.trans (by simp only [Medium.hand, sessions, sources]))
      exact ⟨(receiver, event) :: events, reached⟩
    cases move with
    | start party =>
      by_cases already : party ∈ w.started
      · exact ih (by rw [Medium.play, if_pos already, sessions])
          (by rw [Medium.play, if_pos already, sources])
      · exact given party .start (by rw [Medium.play, if_neg already])
          (by rw [Medium.play, if_neg already])
    | deliver number receiver =>
      cases sent : w.posted[number]? with
      | none =>
        exact ih (by simp only [Medium.play, sent, sessions])
          (by simp only [Medium.play, sent, sources])
      | some p =>
        by_cases own : p.origin = receiver
        · exact ih (by simp only [Medium.play, sent, own, if_true, sessions])
            (by simp only [Medium.play, sent, own, if_true, sources])
        · exact given receiver (.received p.envelope)
            (by simp only [Medium.play, sent, own, if_false])
            (by simp only [Medium.play, sent, own, if_false])

/-- Whatever a medium makes up and hands to the parties, two parties that are established have found
the same keys of all links exactly when they have the same share of every party and the one meets
the left key of the other on its way around the ring. Then they hold the same group key. -/
theorem exposed_runs_agree_on_one_exchange (ring : HonestRing K)
    (source : Fin ring.roster.size → ρ) (events : List (Fin ring.roster.size × SessionEvent))
    (i j : Fin ring.roster.size) :
    let w := (ring.medium source).exposed K events
    (w.session i).state = .established → (w.session j).state = .established →
    ∃ mine theirs, (w.session i).linkKeys? = some mine ∧ (w.session j).linkKeys? = some theirs ∧
      (w.session i).groupKey = some (.derive mine ring.roster.ids) ∧
      (w.session j).groupKey = some (.derive theirs ring.roster.ids) ∧
      (mine = theirs ↔
        (∀ k : Fin ring.roster.size, (w.session i).share? k = (w.session j).share? k) ∧
          mine[j.val]? = (w.session j).progress.keyLeft) := by
  intro w mine theirs
  have kept := exposed_coherent (K := K) events (w := ring.medium source) fun k =>
    ⟨⟨_, _, rfl⟩, Session.fresh_coherent _ _ _⟩
  obtain ⟨left, shares, leftKey, size, shown, closed, links, key⟩ :=
    established_cases (kept i).1 (kept i).2 mine
  obtain ⟨left', shares', leftKey', size', shown', closed', links', key'⟩ :=
    established_cases (kept j).1 (kept j).2 theirs
  refine ⟨_, _, links, links', key, key', ?_⟩
  rw [Share.leftKeys_eq_iff (by rw [size]; exact i.isLt) (by rw [size']; exact j.isLt) closed
    closed', leftKey']
  refine and_congr_left fun _ => ?_
  constructor
  · rintro rfl k
    rw [shown, shown']
  · intro same
    refine List.ext_getElem? fun k => ?_
    by_cases inside : k < ring.roster.size
    · rw [← shown ⟨k, inside⟩, ← shown' ⟨k, inside⟩, same]
    · rw [List.getElem?_eq_none (by omega), List.getElem?_eq_none (by omega)]

theorem trio_shares_one_exchange :
    ∃ events : List (Fin trio.roster.size × SessionEvent),
    let w := (trio.medium fun i => (⟨.ofNat i⟩ : DrawCounter)).exposed .transparent events
    let i : Fin trio.roster.size := ⟨0, by decide⟩
    let j : Fin trio.roster.size := ⟨1, by decide⟩
    (w.session i).state = .established ∧ (w.session j).state = .established ∧
    ∃ mine theirs, (w.session i).linkKeys? = some mine ∧ (w.session j).linkKeys? = some theirs ∧
      (w.session i).groupKey = some (.derive mine trio.roster.ids) ∧
      (w.session j).groupKey = some (.derive theirs trio.roster.ids) ∧
      (mine = theirs ↔
        (∀ k : Fin trio.roster.size, (w.session i).share? k = (w.session j).share? k) ∧
          mine[j.val]? = (w.session j).progress.keyLeft) := by
  have correct := Kem.transparent_correct
  let source : Fin trio.roster.size → DrawCounter := fun i => ⟨.ofNat i⟩
  have quiescent := schedule_quiescent correct trio source
  have established := (trio.consistent_run correct source _).established_of_quiescent quiescent
  obtain ⟨events, reached⟩ := exists_exposed (K := .transparent) (Medium.schedule _)
    (w := trio.medium source) rfl rfl
  rw [reached] at established
  exact ⟨events, established _, established _,
    exposed_runs_agree_on_one_exchange trio source events _ _ (established _) (established _)⟩

/-! ## What the checks let pass -/

omit [RandomSource ρ] in
/-- Whoever knows the shares of a ring can make others that every party finds verified: each share
is masked, and nothing but the sum of the masks must be zero. The keys for the commitments are
public, and every commitment comes with the coin that opens it. -/
theorem masked_shares_verified (correct : K.Correct) (share mask : Fin ring.roster.size → Bytes 32)
    (closed : Bytes.sum (List.ofFn share) = Bytes.zero 32)
    (cancelling : Bytes.sum (List.ofFn mask) = Bytes.zero 32) (coin : Coin) :
    ∃ c : Fin ring.roster.size → Contribution, (∀ k, (c k).share = ⟨share k ^^^ mask k⟩) ∧
      ∀ i s, (ring.fresh i).SameParty s → (∀ k : Fin ring.roster.size, s.slot k = some (c k)) →
        ∃ c, s.Verified K c := by
  have committed : ∀ k : Fin ring.roster.size, ∃ commitment,
      Commitment.make K (ring.roster.party k).publicKey
        (Share.commitmentMessage ⟨share k ^^^ mask k⟩ k) coin = .ok commitment := by
    intro k
    rw [ring.party_publicKey]
    exact Commitment.make_succeeds (ring.opens correct k) _ _
  choose commitment made using committed
  refine ⟨fun k => ⟨⟨share k ^^^ mask k⟩, commitment k, coin⟩, fun _ => rfl, ?_⟩
  rintro i _ ⟨state, progress, rfl⟩ filled
  refine ⟨_, filled, ?_, made⟩
  rw [Share.total_eq_sum, List.map_ofFn]
  exact (Bytes.sum_ofFn_xor share mask).trans (by rw [closed, cancelling, Bytes.xor_zero])

end HonestRing

end RingAgreement
