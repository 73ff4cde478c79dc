import RingAgreement.Proofs.Medium.Steady
import RingAgreement.Proofs.Session.Provenance
/-!
One key for all schedules. When every party is started before it is handed a message, the key of
each link is fixed by what the two parties draw first, so the group key depends on the sources of
randomness only, and not on what the medium does with the messages.
-/

namespace RingAgreement

namespace Medium

variable (K : Kem) {n : Nat} {ρ : Type} [RandomSource ρ] (w : Medium n ρ)

/-- At every moment of a run, whoever has been handed a message has been started. -/
def StartsFirst (moves : List (Move n)) : Prop :=
  ∀ early, early <+: moves → ∀ number receiver,
    (number, receiver) ∈ (w.run K early).delivered → receiver ∈ (w.run K early).started

variable {K w} {move : Move n} {rest : List (Move n)}

theorem StartsFirst.tail (first : w.StartsFirst K (move :: rest)) :
    (w.play K move).StartsFirst K rest := by
  intro early begins
  exact first (move :: early) ((List.prefix_cons_inj move).2 begins)

/-- A message that is handed out finds its receiver started. -/
theorem StartsFirst.started {number : Nat} {receiver : Fin n} {p : Posted n}
    (first : w.StartsFirst K (.deliver number receiver :: rest))
    (sent : w.posted[number]? = some p) (foreign : p.origin ≠ receiver) :
    receiver ∈ w.started := by
  have started := first [.deliver number receiver] (by simp) number receiver
  simp only [run, List.foldl_cons, List.foldl_nil, play, sent, if_neg foreign] at started
  exact started List.mem_cons_self

theorem delivered_run_of_starts {moves : List (Move n)}
    (starts : ∀ move ∈ moves, ∃ i, move = .start i) :
    (w.run K moves).delivered = w.delivered := by
  induction moves generalizing w with
  | nil => rfl
  | cons move rest ih =>
    obtain ⟨i, rfl⟩ := starts move List.mem_cons_self
    refine (ih fun move member => starts move (List.mem_cons_of_mem _ member)).trans ?_
    rw [play]
    split
    · rfl
    · rfl

/-- A run that starts all parties before anything else starts them first. -/
theorem startsFirst_starts_append (untouched : w.delivered = []) (moves : List (Move n)) :
    w.StartsFirst K (starts n ++ moves) := by
  intro early begins number receiver delivered
  rcases List.prefix_or_prefix_of_prefix begins (List.prefix_append (starts n) moves) with
    starting | ⟨more, rfl⟩
  · have only : ∀ move ∈ early, ∃ i, move = Move.start i := by
      intro move member
      obtain ⟨i, _, rfl⟩ := List.mem_map.1 (starting.subset member)
      exact ⟨i, rfl⟩
    rw [delivered_run_of_starts only, untouched] at delivered
    cases delivered
  · exact started_of_mem K w (List.mem_append_left more (mem_starts receiver))

end Medium

namespace HonestRing

variable {K : Kem} {ring : HonestRing K} {ρ : Type} [RandomSource ρ]

variable (ring) in
/-- The key of the link on the left of a party: the left neighbour makes its offer from its first
draw, and the party answers from its second one. -/
def LinkKey (source : Fin ring.roster.size → ρ) (i : Fin ring.roster.size) (key : SharedSecret) :
    Prop :=
  ∃ offer transcript response,
    Handshake.initiate K (ring.pair i).publicKey
      (RandomSource.draw 32 (source (ring.roster.left i))).1 = .ok (offer, transcript) ∧
    Handshake.respond K offer (ring.pair i).secretKey (ring.pair (ring.roster.left i)).publicKey
      (RandomSource.draw 32 (RandomSource.draw 32 (source i)).2).1 = .ok (response, key)

theorem LinkKey.unique {source : Fin ring.roster.size → ρ} {i : Fin ring.roster.size}
    {key key' : SharedSecret} (made : ring.LinkKey source i key)
    (made' : ring.LinkKey source i key') : key = key' := by
  obtain ⟨offer, transcript, response, opened, answered⟩ := made
  obtain ⟨offer', transcript', response', opened', answered'⟩ := made'
  rw [opened, Except.ok.injEq, Prod.mk.injEq] at opened'
  obtain ⟨rfl, rfl⟩ := opened'
  rw [answered, Except.ok.injEq, Prod.mk.injEq] at answered'
  exact answered'.2

variable {source : Fin ring.roster.size → ρ} {w : Medium ring.roster.size ρ}

/-- What the sources of randomness have determined by some time: what is left of them, the offers on
the medium, and the keys of the links. -/
structure Scripted (ring : HonestRing K) (source : Fin ring.roster.size → ρ)
    (w : Medium ring.roster.size ρ) : Prop where
  spent : ∀ i, Session.Spent (source i) (w.session i) (w.source i)
  offered : ∀ i offer, ring.post i (.akeInit offer) ∈ w.posted → ∃ transcript,
    Handshake.initiate K (ring.pair (ring.roster.right i)).publicKey
      (RandomSource.draw 32 (source i)).1 = .ok (offer, transcript)
  linked : ∀ i key, (w.session i).progress.keyLeft = some key → ring.LinkKey source i key

theorem scripted_medium (source : Fin ring.roster.size → ρ) :
    ring.Scripted source (ring.medium source) where
  spent := fun i => Session.spent_fresh _ _ _ _
  offered := by simp [medium]
  linked := fun i key held => by cases held

/-- The offer of a party is the one that its first draw determines. -/
theorem Scripted.offer_sent (scripted : ring.Scripted source w) (consistent : ring.Consistent w)
    {i : Fin ring.roster.size} {event : SessionEvent} {offer : Handshake.Offer}
    (sent : (ring.fresh i).envelope (.akeInit offer) ∈
      ((w.session i).handle K event (w.source i)).sends) :
    ∃ transcript, Handshake.initiate K (ring.pair (ring.roster.right i)).publicKey
      (RandomSource.draw 32 (source i)).1 = .ok (offer, transcript) := by
  have member := consistent.sound.member i
  obtain ⟨offer', transcript, same, made, _, unopened⟩ :=
    (consistent.coherent i).offer_sent sent rfl
  obtain ⟨unspent, _⟩ := (scripted.spent i).unopened unopened
  have read : ∀ offer, Payload.ofEnvelope ((ring.fresh i).envelope (.akeInit offer)) =
      .ok (.akeInit offer) := by
    intro offer
    exact Payload.ofEnvelope_toEnvelope (p := .akeInit offer) trivial _ _
  rw [envelope_of_member member] at same
  have offers := (read offer).symm.trans ((congrArg _ same).trans (read offer'))
  obtain rfl := Payload.akeInit.inj (Except.ok.inj offers)
  rw [rightKey_of_member member, unspent] at made
  exact ⟨transcript, made⟩

/-- The left key of a started party is the one that its left neighbour's first draw and its own
second one determine. -/
theorem Scripted.link_made (scripted : ring.Scripted source w) (consistent : ring.Consistent w)
    {i : Fin ring.roster.size} {event : SessionEvent}
    (first : event = .start ∨ (w.session i).progress.initiated = true)
    (genuine : ∀ e, event = .received e → ∃ p ∈ w.posted, p.envelope = e) {key : SharedSecret}
    (held : ((w.session i).handle K event (w.source i)).session.progress.keyLeft = some key) :
    ring.LinkKey source i key := by
  have member := consistent.sound.member i
  rcases (consistent.coherent i).keyLeft_cases held with
    before | ⟨e, offer, response, rfl, heard, keyless, made⟩
  · exact scripted.linked i key before
  obtain ⟨p, posted, rfl⟩ := genuine e rfl
  obtain ⟨payload, carried, backed⟩ := consistent.sound.backed p posted
  have enveloped : p.envelope = (ring.post p.origin payload).envelope :=
    congrArg (·.envelope) carried
  rw [enveloped] at heard
  obtain ⟨sender, rfl⟩ := hears_post backed.sendable heard
  have origin : p.origin = ring.roster.left i :=
    Fin.ext (sender.symm.trans (left_of_member member))
  rw [carried, origin] at posted
  obtain ⟨transcript, opened⟩ := scripted.offered _ offer posted
  have begun := first.resolve_left (by simp)
  rw [ring.roster.right_left] at opened
  rw [(scripted.spent i).opened begun keyless, secretKey_of_member member,
    leftKey_of_member member] at made
  exact ⟨offer, transcript, response, opened, made⟩

theorem Scripted.hand (scripted : ring.Scripted source w) (consistent : ring.Consistent w)
    {i : Fin ring.roster.size} {event : SessionEvent}
    (first : event = .start ∨ (w.session i).progress.initiated = true)
    (genuine : ∀ e, event = .received e → ∃ p ∈ w.posted, p.envelope = e)
    (flows : Flows w.session w.posted i ((w.session i).handle K event (w.source i))) :
    ring.Scripted source (w.hand K i event) where
  spent := by
    intro j
    by_cases here : j = i
    · subst here
      have alive := flows.sound.alive j
      rw [Function.update_self] at alive
      have spent := (consistent.coherent j).spent_handle (scripted.spent j) first
        flows.unfailing alive
      simpa [Medium.hand] using spent
    · have spent := scripted.spent j
      simpa [Medium.hand, Function.update_of_ne here] using spent
  offered := by
    intro j offer posted
    rcases List.mem_append.1 posted with before | new
    · exact scripted.offered j offer before
    · obtain ⟨e, sent, same⟩ := List.mem_map.1 new
      obtain ⟨rfl, rfl⟩ := Posted.mk.inj same
      exact scripted.offer_sent consistent sent
  linked := by
    intro j key held
    by_cases here : j = i
    · subst here
      rw [Medium.hand_session_self] at held
      exact scripted.link_made consistent first genuine held
    · rw [Medium.hand_session_of_ne K w here] at held
      exact scripted.linked j key held

theorem Scripted.play (correct : K.Correct) (scripted : ring.Scripted source w)
    (consistent : ring.Consistent w) {move : Move ring.roster.size}
    {rest : List (Move ring.roster.size)} (first : w.StartsFirst K (move :: rest)) :
    ring.Scripted source (w.play K move) := by
  cases move with
  | start i =>
    rw [Medium.play]
    split
    next => exact scripted
    next unstarted =>
      have fresh : (w.session i).progress.initiated = false := by
        rw [← Bool.not_eq_true, ← consistent.begun]
        exact unstarted
      obtain ⟨flows, _⟩ := consistent.sound.start correct (consistent.coherent i) fresh
        (w.source i)
      have handed := scripted.hand consistent (.inl rfl) (by simp) flows
      exact ⟨handed.spent, handed.offered, handed.linked⟩
  | deliver number receiver =>
    rw [Medium.play]
    split
    next => exact scripted
    next p sent =>
      split
      next => exact scripted
      next foreign =>
        have posted := List.mem_of_getElem? sent
        have begun := (consistent.begun receiver).1 (first.started sent foreign)
        obtain ⟨flows, _⟩ :=
          consistent.steady.deliver correct posted foreign (w.source receiver)
        have handed := scripted.hand consistent (.inr begun)
          (fun e same => ⟨p, posted, SessionEvent.received.inj same⟩) flows
        exact ⟨handed.spent, handed.offered, handed.linked⟩

theorem Scripted.run (correct : K.Correct) (scripted : ring.Scripted source w)
    (consistent : ring.Consistent w) {moves : List (Move ring.roster.size)}
    (first : w.StartsFirst K moves) : ring.Scripted source (w.run K moves) := by
  induction moves generalizing w with
  | nil => exact scripted
  | cons move rest ih =>
    exact ih (scripted.play correct consistent first) (consistent.run correct [move]) first.tail

/-- Once a party is established, the sources of randomness have determined all links. -/
theorem Scripted.linkKey (scripted : ring.Scripted source w) (consistent : ring.Consistent w)
    {i : Fin ring.roster.size} (established : (w.session i).state = .established)
    (j : Fin ring.roster.size) : ring.LinkKey source j (ring.links w.session j) := by
  have sized := roster_of_member (consistent.sound.member i)
  have inside : j < (w.session i).roster.size := by
    rw [sized]
    exact j.isLt
  have filled := ((consistent.coherent i).complete established).2.2 ⟨j, inside⟩
  obtain ⟨c, stored⟩ := Option.isSome_iff_exists.1 filled
  have own := consistent.sound.copied i j c stored
  obtain ⟨_, left, _, leftKey, _⟩ := consistent.sound.owned j c own
  rw [links_of_keyLeft leftKey]
  exact scripted.linked j left leftKey

/-- The group key of a ring is a matter of the parties' sources of randomness. In any two runs over
the same sources, in both of which every party is started before it is handed a message, all
established sessions of the one and of the other hold the same group key. -/
theorem schedules_share_one_key (correct : K.Correct) (ring : HonestRing K)
    (source : Fin ring.roster.size → ρ) (moves moves' : List (Move ring.roster.size))
    (first : (ring.medium source).StartsFirst K moves)
    (first' : (ring.medium source).StartsFirst K moves') :
    let w := (ring.medium source).run K moves
    let w' := (ring.medium source).run K moves'
    ∀ i j, (w.session i).state = .established → (w'.session j).state = .established →
      ∃ key, (w.session i).groupKey = some key ∧ (w'.session j).groupKey = some key := by
  intro w w' i j established established'
  have consistent : ring.Consistent w := ring.consistent_run correct source moves
  have consistent' : ring.Consistent w' := ring.consistent_run correct source moves'
  have initial := ring.medium_consistent source
  have scripted : ring.Scripted source w := (scripted_medium source).run correct initial first
  have scripted' : ring.Scripted source w' := (scripted_medium source).run correct initial first'
  have links : ring.links w.session = ring.links w'.session := by
    funext k
    exact (scripted.linkKey consistent established k).unique
      (scripted'.linkKey consistent' established' k)
  refine ⟨ring.linkedKey w.session, consistent.groupKey_of_established established, ?_⟩
  rw [linkedKey, links]
  exact consistent'.groupKey_of_established established'

/-- The messages of three parties, in a plain order and with a first round from the last message to
the first one. -/
theorem trio_schedules_share_one_key :
    let w := trio.medium fun i => (⟨.ofNat i⟩ : DrawCounter)
    let n := trio.roster.size
    let moves := Medium.schedule n
    let moves' := Medium.starts n ++ ((Medium.sweep n).reverse ++ Medium.sweep n ++
      Medium.sweep n ++ Medium.sweep n)
    Kem.transparent.Correct ∧ w.StartsFirst .transparent moves ∧
    w.StartsFirst .transparent moves' ∧
    ∀ i j, ((w.run .transparent moves).session i).state = .established ∧
      ((w.run .transparent moves').session j).state = .established ∧
      ∃ key, ((w.run .transparent moves).session i).groupKey = some key ∧
        ((w.run .transparent moves').session j).groupKey = some key := by
  intro w n moves moves'
  have correct := Kem.transparent_correct
  have first : w.StartsFirst .transparent moves := by
    simp only [moves, Medium.schedule, List.append_assoc]
    exact Medium.startsFirst_starts_append rfl _
  have first' : w.StartsFirst .transparent moves' := Medium.startsFirst_starts_append rfl _
  have quiescent : (w.run .transparent moves).Quiescent := schedule_quiescent correct trio _
  have quiescent' : (w.run .transparent moves').Quiescent :=
    quiescent_of_starts_of_sweeps correct trio _ _
  clear_value moves moves'
  have established := (trio.consistent_run correct _ moves).established_of_quiescent quiescent
  have established' := (trio.consistent_run correct _ moves').established_of_quiescent quiescent'
  refine ⟨correct, first, first', fun i j => ⟨established i, established' j, ?_⟩⟩
  exact schedules_share_one_key correct trio _ moves moves' first first' i j (established i)
    (established' j)

end HonestRing

end RingAgreement
