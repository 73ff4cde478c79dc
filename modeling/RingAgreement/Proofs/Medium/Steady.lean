import RingAgreement.Proofs.Medium.Agreement
import RingAgreement.Proofs.Medium.Quiescence
/-!
A ring of honest parties as it looks to a carrier of its messages: what holds between any two steps
of its parties, that no step fails, that established parties agree, and that all parties are
established once every message has been taken.
-/

namespace RingAgreement.HonestRing

variable {K : Kem} {ring : HonestRing K}

/-- What holds in a ring between any two steps of its parties. -/
structure Steady (ring : HonestRing K) (session : Fin ring.roster.size → Session)
    (posted : List (Posted ring.roster.size)) : Prop where
  sound : ring.Sound session posted
  coherent : ∀ i, (session i).Coherent K
  prompt : ∀ i, (session i).Prompt

theorem steady_fresh (ring : HonestRing K) : ring.Steady ring.fresh [] where
  sound := ring.sound_fresh
  coherent := fun _ => Session.fresh_coherent _ _ _
  prompt := fun _ keyed => by cases keyed

variable {session : Fin ring.roster.size → Session} {posted : List (Posted ring.roster.size)}
  {i j : Fin ring.roster.size}

/-- A party that holds a group key holds the one that the links of the ring amount to. -/
theorem Steady.groupKey_eq (steady : ring.Steady session posted) {key : GroupKey}
    (held : (session i).groupKey = some key) : key = ring.linkedKey session := by
  obtain ⟨c, left, verified, leftKey, rfl⟩ := (steady.coherent i).derived key held
  exact steady.sound.keyFrom verified leftKey

theorem Steady.agree (steady : ring.Steady session posted) {mine theirs : GroupKey}
    (held : (session i).groupKey = some mine) (held' : (session j).groupKey = some theirs) :
    mine = theirs :=
  (steady.groupKey_eq held).trans (steady.groupKey_eq held').symm

theorem Steady.not_cluster_kind (steady : ring.Steady session posted)
    {p : Posted ring.roster.size} (sent : p ∈ posted) :
    p.envelope.kind ≠ .wrappedKey ∧ p.envelope.kind ≠ .appMessage := by
  obtain ⟨payload, carried, backed⟩ := steady.sound.backed p sent
  have kind : p.envelope.kind = payload.kind := congrArg (·.envelope.kind) carried
  rw [kind]
  cases backed
  all_goals simp [Payload.kind]

theorem Consistent.steady {ρ : Type} [RandomSource ρ] {w : Medium ring.roster.size ρ}
    (consistent : ring.Consistent w) : ring.Steady w.session w.posted :=
  ⟨consistent.sound, consistent.coherent, consistent.prompt⟩

section Step

variable {ρ : Type} [RandomSource ρ]

theorem Steady.step (steady : ring.Steady session posted) {event : SessionEvent} {source : ρ}
    (flows : Flows session posted i ((session i).handle K event source)) :
    let outcome := (session i).handle K event source
    ring.Steady (Function.update session i outcome.session) (posted ++ mail i outcome.actions) where
  sound := flows.sound
  coherent := (Function.forall_update_iff session fun _ s => s.Coherent K).2
    ⟨(steady.coherent i).handle event source, fun j _ => steady.coherent j⟩
  prompt := (Function.forall_update_iff session fun _ s => s.Prompt).2
    ⟨flows.prompt, fun j _ => steady.prompt j⟩

/-- A message of the ring is taken by everyone but its sender. -/
theorem Steady.deliver (correct : K.Correct) (steady : ring.Steady session posted)
    {p : Posted ring.roster.size} (sent : p ∈ posted) (foreign : p.origin ≠ i) (source : ρ) :
    let outcome := (session i).handle K (.received p.envelope) source
    Flows session posted i outcome ∧ Taken p.origin i p.envelope.kind outcome.session := by
  obtain ⟨payload, carried, backed⟩ := steady.sound.backed p sent
  have enveloped : p.envelope = (ring.post p.origin payload).envelope :=
    congrArg (·.envelope) carried
  have kind : p.envelope.kind = payload.kind := congrArg (·.kind) enveloped
  rw [kind, enveloped]
  exact steady.sound.deliver correct (steady.coherent i) (steady.prompt i) foreign backed source

end Step

/-- The messages of a ring by number, each with everyone who is to take it. -/
def addressees (posted : List (Posted ring.roster.size)) : List (Nat × Fin ring.roster.size) :=
  (List.finRange posted.length).flatMap fun number =>
    ((List.finRange _).filter (· ≠ posted[number].origin)).map fun receiver =>
      (number.val, receiver)

theorem mem_addressees {number : Nat} {receiver : Fin ring.roster.size} :
    (number, receiver) ∈ addressees posted ↔
      ∃ p, posted[number]? = some p ∧ receiver ≠ p.origin := by
  simp only [addressees, List.mem_flatMap, List.mem_finRange, true_and, List.mem_map,
    List.mem_filter, decide_eq_true_eq, Prod.mk.injEq]
  constructor
  · rintro ⟨number, receiver, foreign, rfl, rfl⟩
    exact ⟨_, List.getElem?_eq_getElem number.isLt, foreign⟩
  · rintro ⟨p, sent, foreign⟩
    obtain ⟨inside, rfl⟩ := List.getElem?_eq_some_iff.1 sent
    exact ⟨⟨number, inside⟩, receiver, foreign, rfl, rfl⟩

/-- Once everyone has started and has taken all messages, everyone is established. -/
theorem Steady.established (steady : ring.Steady session posted)
    (begun : ∀ i, (session i).progress.initiated = true)
    (taken : ∀ p ∈ posted, ∀ receiver, receiver ≠ p.origin →
      Taken p.origin receiver p.envelope.kind (session receiver))
    (i : Fin ring.roster.size) : (session i).state = .established := by
  let w : Medium ring.roster.size Unit :=
    ⟨session, fun _ => (), posted, List.finRange _, addressees posted, []⟩
  have consistent : ring.Consistent w := {
    sound := steady.sound
    coherent := steady.coherent
    prompt := steady.prompt
    unfailing := rfl
    begun := fun i => by simp [w, begun]
    taken := by
      intro number receiver delivered
      obtain ⟨p, sent, foreign⟩ := mem_addressees.1 delivered
      exact ⟨p, sent, taken p (List.mem_of_getElem? sent) receiver foreign⟩ }
  refine consistent.established_of_quiescent ⟨fun i => List.mem_finRange i, ?_⟩ i
  intro number p sent receiver foreign
  exact mem_addressees.2 ⟨p, sent, foreign⟩

end RingAgreement.HonestRing
