import RingAgreement.Proofs.Session.Provenance
/-!
What the run of a session has led to, whether the session still holds it or not. An aborted session
gives up its neighbour keys, but its run has made each of them in one step, and the messages that it
has sent belong to these steps: the offer to the transcript, and the answer to the left key.
-/

namespace RingAgreement.Session

variable {K : Kem} {s : Session} {ρ : Type} [RandomSource ρ]

/-! ## Steps that are taken once -/

omit [RandomSource ρ] in
theorem mem_of_step {inputs earlier : List (SessionEvent × ρ)} {input : SessionEvent × ρ}
    (within : earlier ++ [input] <+: inputs) : input ∈ inputs :=
  within.subset (List.mem_append_right _ (List.mem_singleton_self _))

/-- Two steps of one run that bring about what stays from then on are the same step. -/
theorem step_unique {P : Session → Prop}
    (stays : ∀ earlier later : List (SessionEvent × ρ),
      P (s.after K earlier) → P ((s.after K earlier).after K later))
    {inputs first second : List (SessionEvent × ρ)} {a b : SessionEvent × ρ}
    (here : first ++ [a] <+: inputs) (there : second ++ [b] <+: inputs)
    (before : ¬ P (s.after K first)) (brought : P (s.after K (first ++ [a])))
    (before' : ¬ P (s.after K second)) (brought' : P (s.after K (second ++ [b]))) :
    first = second ∧ a = b := by
  have later : ∀ {earlier more : List (SessionEvent × ρ)}, P (s.after K earlier) →
      earlier <+: more → P (s.after K more) := by
    rintro earlier _ brought ⟨rest, rfl⟩
    rw [after_append]
    exact stays earlier rest brought
  rcases List.prefix_or_prefix_of_prefix here there with within | within
  · rcases List.prefix_concat_iff.1 within with same | early
    · exact (List.append_inj' same rfl).imp_right List.singleton_inj.1
    · exact absurd (later brought early) before'
  · rcases List.prefix_concat_iff.1 within with same | early
    · exact (List.append_inj' same.symm rfl).imp_right List.singleton_inj.1
    · exact absurd (later brought' early) before

/-- What a session does not lose stays, or the session is aborted. -/
theorem Coherent.stays_after (coherent : s.Coherent K) {Q : Session → Prop}
    (grows : ∀ {t t' : Session}, t.Grown t' → Q t → Q t') (held : s.state = .aborted ∨ Q s)
    (inputs : List (SessionEvent × ρ)) :
    (s.after K inputs).state = .aborted ∨ Q (s.after K inputs) := by
  rcases held with aborted | held
  · have ended := after_of_unchanged (K := K)
      (fun event (source : ρ) => by rw [handle_aborted s K aborted]) inputs
    exact .inl (by rw [ended, aborted])
  · exact (coherent.grown_after inputs).imp_right fun grown => grows grown held

/-! ## Entries -/

/-- An event of a run has led to an entry. -/
def Wrote (K : Kem) (s : Session) (inputs : List (SessionEvent × ρ)) (x : Entry) : Prop :=
  ∃ earlier event source, earlier ++ [(event, source)] <+: inputs ∧
    (s.after K earlier).state ≠ .aborted ∧ (s.after K earlier).Lacks x ∧
      (s.after K earlier).Writes K event source x

theorem Wrote.mono {inputs more : List (SessionEvent × ρ)} {x : Entry}
    (wrote : s.Wrote K inputs x) (within : inputs <+: more) : s.Wrote K more x := by
  obtain ⟨earlier, event, source, early, rest⟩ := wrote
  exact ⟨earlier, event, source, early.trans within, rest⟩

omit [RandomSource ρ] in
theorem Holds.not_lacks {x : Entry} (held : s.Holds x) : ¬ s.Lacks x := by
  intro lacks
  cases x with
  | transcript => cases Eq.trans (Eq.symm lacks) held
  | keyLeft => cases Eq.trans (Eq.symm lacks) held
  | keyRight => cases Eq.trans (Eq.symm lacks) held
  | slot => cases Eq.trans (Eq.symm lacks) held

/-- What a session holds after its run was written in the run. -/
theorem wrote_of_holds {roster : Roster} {own : Fin roster.size} {secretKey : SecretKey}
    {inputs : List (SessionEvent × ρ)} {x : Entry}
    (held : ((fresh roster own secretKey).after K inputs).Holds x) :
    (fresh roster own secretKey).Wrote K inputs x := by
  obtain ⟨earlier, event, source, within, lacks, writes⟩ :=
    ((fresh_coherent roster own secretKey).exists_write held).resolve_left (not_holds_fresh _ _ _ x)
  refine ⟨earlier, event, source, within, fun aborted => held.not_lacks ?_, lacks, writes⟩
  obtain ⟨rest, rfl⟩ := within
  have ended := after_of_unchanged (K := K)
    (fun event (source : ρ) => by rw [handle_aborted _ K aborted]) ((event, source) :: rest)
  rw [List.append_assoc, List.singleton_append, after_append, ended]
  exact lacks

variable {start : Session} {inputs : List (SessionEvent × ρ)}

/-- What is read from a message of a run was sent in one step of it. -/
theorem Coherent.emits_of_read (coherent : start.Coherent K) {e : Envelope} {p : Payload}
    (sent : e ∈ (start.outcomes K inputs).flatMap (·.sends)) (read : Payload.ofEnvelope e = .ok p) :
    ∃ earlier event source, earlier ++ [(event, source)] <+: inputs ∧
      (start.after K earlier).state ≠ .aborted ∧ (start.after K earlier).Emits K event source p := by
  obtain ⟨earlier, event, source, within, sent⟩ := exists_step_of_sent sent
  obtain ⟨p', rfl, emits⟩ := (coherent.after earlier).emits_of_sent sent
  rw [envelope, Payload.ofEnvelope_toEnvelope emits.sendable] at read
  obtain rfl := Except.ok.inj read
  refine ⟨earlier, event, source, within, fun aborted => ?_, emits⟩
  rw [handle_aborted _ K aborted] at sent
  cases sent

/-! ## Offers and transcripts -/

/-- A session opens its exchange, with an offer and a transcript. -/
structure Opens (K : Kem) (s : Session) (source : ρ) (offer : Handshake.Offer)
    (transcript : Handshake.Transcript) : Prop where
  alive : s.state ≠ .aborted
  fresh : s.progress.initiated = false
  made : Handshake.initiate K (s.roster.party (s.roster.right s.own)).publicKey
    (RandomSource.draw 32 source).1 = .ok (offer, transcript)

/-- In a run a session has opened its exchange. -/
def Opened (K : Kem) (start : Session) (inputs : List (SessionEvent × ρ)) (offer : Handshake.Offer)
    (transcript : Handshake.Transcript) : Prop :=
  ∃ earlier source, earlier ++ [(.start, source)] <+: inputs ∧
    (start.after K earlier).Opens K source offer transcript

/-- A session that opens its exchange is started, however the step ends. -/
theorem Opens.initiated {source : ρ} {offer : Handshake.Offer} {transcript : Handshake.Transcript}
    (opens : s.Opens K source offer transcript) :
    (s.handle K .start source).session.progress.initiated = true := by
  have write : s.Accepts K .start source _ _ _ := .start opens.fresh opens.made
  rw [write.handle_eq opens.alive, (follows_advance _ K _ _).initiated]
  rfl

/-- A session opens one exchange. -/
theorem Opened.unique (coherent : start.Coherent K) {offer offer' : Handshake.Offer}
    {transcript transcript' : Handshake.Transcript}
    (opened : start.Opened K inputs offer transcript)
    (opened' : start.Opened K inputs offer' transcript') :
    offer = offer' ∧ transcript = transcript' := by
  obtain ⟨first, source, here, opens⟩ := opened
  obtain ⟨second, source', there, opens'⟩ := opened'
  let begun (t : Session) : Prop := t.state = .aborted ∨ t.progress.initiated = true
  have before : ∀ {t : Session} {source : ρ} {offer transcript},
      t.Opens K source offer transcript → ¬ begun t :=
    fun opens => not_or.2 ⟨opens.alive, by simp [opens.fresh]⟩
  have after : ∀ {earlier} {source : ρ} {offer transcript},
      (start.after K earlier).Opens K source offer transcript →
        begun (start.after K (earlier ++ [(.start, source)])) := by
    intro earlier source offer transcript opens
    rw [after_append]
    exact .inr opens.initiated
  obtain ⟨rfl, same⟩ := step_unique (P := begun)
    (fun earlier _ held => (coherent.after earlier).stays_after Grown.initiated held _)
    here there (before opens) (after opens) (before opens') (after opens')
  obtain rfl : source = source' := congrArg Prod.snd same
  exact Prod.mk.inj (Except.ok.inj (opens.made.symm.trans opens'.made))

/-- The transcript of a session comes from its opening. -/
theorem Wrote.opened {transcript : Handshake.Transcript}
    (wrote : start.Wrote K inputs (.transcript transcript)) :
    ∃ offer, start.Opened K inputs offer transcript := by
  obtain ⟨earlier, event, source, within, alive, _, writes⟩ := wrote
  cases writes with
  | transcript fresh made => exact ⟨_, earlier, source, within, alive, fresh, made⟩

/-- An offer that a session has sent comes from its opening. -/
theorem Coherent.opened_of_sent (coherent : start.Coherent K) {e : Envelope}
    {offer : Handshake.Offer} (sent : e ∈ (start.outcomes K inputs).flatMap (·.sends))
    (read : Payload.ofEnvelope e = .ok (.akeInit offer)) :
    ∃ transcript, start.Opened K inputs offer transcript := by
  obtain ⟨earlier, event, source, within, alive, emits⟩ := coherent.emits_of_read sent read
  cases emits with
  | offer fresh made => exact ⟨_, earlier, source, within, alive, fresh, made⟩

/-! ## Answers and left keys -/

/-- A session answers an offer of its left neighbour, and gets its left key. -/
structure Answers (K : Kem) (s : Session) (e : Envelope) (source : ρ) (offer : Handshake.Offer)
    (response : Handshake.Response) (key : SharedSecret) : Prop where
  alive : s.state ≠ .aborted
  fresh : s.progress.keyLeft = none
  heard : s.Hears e (s.roster.left s.own) (.akeInit offer)
  made : Handshake.respond K offer s.secretKey (s.roster.party (s.roster.left s.own)).publicKey
    (RandomSource.draw 32 source).1 = .ok (response, key)

/-- In a run a session has answered an offer. -/
def Answered (K : Kem) (start : Session) (inputs : List (SessionEvent × ρ))
    (offer : Handshake.Offer) (response : Handshake.Response) (key : SharedSecret) : Prop :=
  ∃ earlier e source, earlier ++ [(.received e, source)] <+: inputs ∧
    (start.after K earlier).Answers K e source offer response key

/-- A session that answers has its left key then, or it is aborted in the same step. -/
theorem Answers.keyed (coherent : s.Coherent K) {e : Envelope} {source : ρ}
    {offer : Handshake.Offer} {response : Handshake.Response} {key : SharedSecret}
    (answers : s.Answers K e source offer response key) :
    let s' := (s.handle K (.received e) source).session
    s'.state = .aborted ∨ s'.progress.keyLeft.isSome := by
  have write : s.Accepts K (.received e) source (s.answered key) _ _ :=
    .offer answers.heard answers.fresh answers.made
  have running := (coherent.prepared_of_accepts answers.alive write).toRunning
  intro s'
  rw [show s' = _ from congrArg (·.session) (write.handle_eq answers.alive)]
  rcases running.ends_advance (K := K) _ (RandomSource.draw 32 source).2 with ⟨_, kept⟩ | ⟨aborted, _⟩
  · have left : _ = some key := congrArg (·.2.1) kept
    exact .inr (Option.isSome_iff_exists.2 ⟨key, left⟩)
  · exact .inl aborted

/-- A session answers once, and so it has one left key in its run. -/
theorem Answered.unique (coherent : start.Coherent K) {offer offer' : Handshake.Offer}
    {response response' : Handshake.Response} {key key' : SharedSecret}
    (answered : start.Answered K inputs offer response key)
    (answered' : start.Answered K inputs offer' response' key') :
    offer = offer' ∧ response = response' ∧ key = key' := by
  obtain ⟨first, e, source, here, answers⟩ := answered
  obtain ⟨second, e', source', there, answers'⟩ := answered'
  let keyed (t : Session) : Prop := t.state = .aborted ∨ t.progress.keyLeft.isSome
  have before : ∀ {t : Session} {e} {source : ρ} {offer response key},
      t.Answers K e source offer response key → ¬ keyed t :=
    fun answers => not_or.2 ⟨answers.alive, by simp [answers.fresh]⟩
  have after : ∀ {earlier e} {source : ρ} {offer response key},
      (start.after K earlier).Answers K e source offer response key →
        keyed (start.after K (earlier ++ [(.received e, source)])) := by
    intro earlier e source offer response key answers
    rw [after_append]
    exact answers.keyed (coherent.after earlier)
  obtain ⟨rfl, same⟩ := step_unique (P := keyed)
    (fun earlier _ held => (coherent.after earlier).stays_after
      (fun grown => isSome_of_grown grown.keyLeft) held _)
    here there (before answers) (after answers) (before answers') (after answers')
  obtain ⟨event, rfl⟩ := Prod.mk.inj same
  obtain rfl := SessionEvent.received.inj event
  have read := answers.heard.decoded.symm.trans answers'.heard.decoded
  obtain rfl := Payload.akeInit.inj (Except.ok.inj read)
  exact ⟨rfl, Prod.mk.inj (Except.ok.inj (answers.made.symm.trans answers'.made))⟩

/-- The left key of a session comes from its answer. -/
theorem Wrote.answered {key : SharedSecret} (wrote : start.Wrote K inputs (.keyLeft key)) :
    ∃ offer response, start.Answered K inputs offer response key := by
  obtain ⟨earlier, event, source, within, alive, fresh, writes⟩ := wrote
  cases writes with
  | keyLeft heard made =>
    exact ⟨_, _, earlier, _, source, within, alive, fresh, heard, made⟩

/-- An answer that a session has sent goes with its left key. -/
theorem Coherent.answered_of_sent (coherent : start.Coherent K) {e : Envelope}
    {response : Handshake.Response} (sent : e ∈ (start.outcomes K inputs).flatMap (·.sends))
    (read : Payload.ofEnvelope e = .ok (.akeRespond response)) :
    ∃ offer key, start.Answered K inputs offer response key := by
  obtain ⟨earlier, event, source, within, alive, emits⟩ := coherent.emits_of_read sent read
  cases emits with
  | response heard fresh made =>
    exact ⟨_, _, earlier, _, source, within, alive, fresh, heard, made⟩

/-! ## Right keys and contributions -/

variable {roster : Roster} {own : Fin roster.size} {secretKey : SecretKey}

/-- The right key of a session comes from an answer of its right neighbour, with the transcript of
its opening. -/
theorem Wrote.confirmed {key : SharedSecret}
    (wrote : (fresh roster own secretKey).Wrote K inputs (.keyRight key)) :
    ∃ e source response offer transcript, (.received e, source) ∈ inputs ∧
      e.sender.toNat = (roster.right own).val ∧
      Payload.ofEnvelope e = .ok (.akeRespond response) ∧
      (fresh roster own secretKey).Opened K inputs offer transcript ∧
      Handshake.finalize K response transcript secretKey = .ok key := by
  obtain ⟨earlier, event, source, within, _, _, writes⟩ := wrote
  have member := sameParty_after K (fresh roster own secretKey) earlier
  cases writes with
  | @keyRight e _ response transcript _ heard pending made =>
    have noted := wrote_of_holds (x := .transcript transcript) pending
    obtain ⟨offer, opened⟩ := (noted.mono ((List.prefix_append _ _).trans within)).opened
    have listed : (.received e, source) ∈ inputs := mem_of_step within
    rw [member.secretKey_eq] at made
    have sender := heard.sent
    generalize (fresh roster own secretKey).after K earlier = s at heard sender member
    obtain ⟨state, progress, rfl⟩ := member
    exact ⟨e, source, response, offer, transcript, listed, sender, heard.decoded, opened, made⟩

/-- What a session has answered was an offer that came from its left neighbour. -/
theorem Answered.heard {offer : Handshake.Offer} {response : Handshake.Response}
    {key : SharedSecret}
    (answered : (fresh roster own secretKey).Answered K inputs offer response key) :
    ∃ e source, (.received e, source) ∈ inputs ∧ e.sender.toNat = (roster.left own).val ∧
      Payload.ofEnvelope e = .ok (.akeInit offer) ∧
      ∃ seed, Handshake.respond K offer secretKey (roster.party (roster.left own)).publicKey seed =
        .ok (response, key) := by
  obtain ⟨earlier, e, source, within, _, _, heard, made⟩ := answered
  have listed : (.received e, source) ∈ inputs := mem_of_step within
  have member := sameParty_after K (fresh roster own secretKey) earlier
  generalize (fresh roster own secretKey).after K earlier = s at heard made member
  obtain ⟨state, progress, rfl⟩ := member
  exact ⟨e, source, listed, heard.sent, heard.decoded, _, made⟩

theorem Opened.made {offer : Handshake.Offer} {transcript : Handshake.Transcript}
    (opened : (fresh roster own secretKey).Opened K inputs offer transcript) :
    ∃ seed, Handshake.initiate K (roster.party (roster.right own)).publicKey seed =
      .ok (offer, transcript) := by
  obtain ⟨earlier, source, _, _, _, made⟩ := opened
  have member := sameParty_after K (fresh roster own secretKey) earlier
  generalize (fresh roster own secretKey).after K earlier = s at made member
  obtain ⟨state, progress, rfl⟩ := member
  exact ⟨_, made⟩

/-- The contribution of another party is read from a message that came from it. -/
theorem heard_of_slot {k : Fin roster.size} (foreign : k ≠ own) {c : Contribution}
    (held : ((fresh roster own secretKey).after K inputs).slot k = some c) :
    ∃ e source, (.received e, source) ∈ inputs ∧ e.sender.toNat = k.val ∧
      Payload.ofEnvelope e = .ok (.shareBroadcast c) := by
  obtain ⟨earlier, event, source, within, _, _, writes⟩ := wrote_of_holds (x := .slot k c) held
  have listed : (event, source) ∈ inputs := mem_of_step within
  have member := sameParty_after K (fresh roster own secretKey) earlier
  generalize (fresh roster own secretKey).after K earlier = s at writes member
  obtain ⟨state, progress, rfl⟩ := member
  obtain ⟨e, rfl, heard⟩ := writes.heard_of_slot foreign
  exact ⟨e, source, listed, heard.sent, heard.decoded⟩

/-- The contribution of a session is made from a right and a left key that its run has led to. -/
theorem keys_of_own {c : Contribution}
    (held : ((fresh roster own secretKey).after K inputs).slot own = some c) :
    ∃ right left, c.share = .ofNeighborKeys right left ∧
      (fresh roster own secretKey).Wrote K inputs (.keyRight right) ∧
      (fresh roster own secretKey).Wrote K inputs (.keyLeft left) := by
  obtain ⟨earlier, event, source, within, alive, _, writes⟩ :=
    wrote_of_holds (x := .slot own c) held
  have coherent : ((fresh roster own secretKey).after K earlier).Coherent K :=
    (fresh_coherent roster own secretKey).after earlier
  have own_eq : (((fresh roster own secretKey).after K earlier).own : Nat) = own :=
    (sameParty_after K (fresh roster own secretKey) earlier).own_eq
  rw [← own_eq] at writes
  obtain ⟨s', actions, source', right, left, write, rightKey, leftKey, share, _⟩ :=
    writes.made_of_slot
  -- A key that the write of the step has not brought was there before.
  have wrote : ∀ x, s'.Holds x → (fresh roster own secretKey).Wrote K inputs x := by
    intro x held
    rcases coherent.holds_of_accepts write held with before | ⟨lacks, writes⟩
    · exact (wrote_of_holds before).mono ((List.prefix_append _ _).trans within)
    · exact ⟨earlier, event, source, within, alive, lacks, writes⟩
  exact ⟨right, left, share, wrote (.keyRight right) rightKey, wrote (.keyLeft left) leftKey⟩

end RingAgreement.Session
