import RingAgreement.Proofs.Medium.Delivery
/-!
Runs of honest parties. Whatever the medium does, no step fails, the invariant of the ring holds
throughout, and what was handed to a party has been taken by it.
-/

namespace RingAgreement.HonestRing

variable {K : Kem} {ring : HonestRing K} {ρ : Type} [RandomSource ρ]
  {w : Medium ring.roster.size ρ}

/-- What holds between any two moves. -/
structure Consistent (ring : HonestRing K) (w : Medium ring.roster.size ρ) : Prop where
  sound : ring.Sound w.session w.posted
  coherent : ∀ i, (w.session i).Coherent K
  prompt : ∀ i, (w.session i).Prompt
  unfailing : w.failures = []
  begun : ∀ i, i ∈ w.started ↔ (w.session i).progress.initiated = true
  taken : ∀ number receiver, (number, receiver) ∈ w.delivered →
    ∃ p, w.posted[number]? = some p ∧
      Taken p.origin receiver p.envelope.kind (w.session receiver)

theorem sound_fresh (ring : HonestRing K) : ring.Sound ring.fresh [] := by
  have empty : ∀ i j, (ring.fresh i).slot j = none := fun i j => Session.fresh_slot _ _ _ j
  exact {
    member := fun i => ⟨_, _, rfl⟩
    alive := fun i => by simp [fresh, Session.fresh]
    pending := fun i started => by cases started
    answered := fun i keyed => by cases keyed
    linked := fun i key keyed => by cases keyed
    owned := fun i c stored => by simp [empty] at stored
    copied := fun i j c stored => by simp [empty] at stored
    backed := by simp
    counted := by
      intro i kind
      cases kind with
      | shareBroadcast => exact (congrArg (·.isSome.toNat) (empty i i)).symm
      | _ => rfl }

omit [RandomSource ρ] in
theorem medium_consistent (ring : HonestRing K) (source : Fin ring.roster.size → ρ) :
    ring.Consistent (ring.medium source) where
  sound := ring.sound_fresh
  coherent := fun i => Session.fresh_coherent _ _ _
  prompt := fun i keyed => by cases keyed
  unfailing := rfl
  begun := fun i => by simp [medium, fresh, Session.fresh, Progress.initial]
  taken := by simp [medium]

/-- A step that keeps the invariant of the ring, with the record of it. -/
theorem Consistent.hand (consistent : ring.Consistent w) {i : Fin ring.roster.size}
    {event : SessionEvent}
    (flows : Flows w.session w.posted i ((w.session i).handle K event (w.source i)))
    {started : List (Fin ring.roster.size)} {delivered : List (Nat × Fin ring.roster.size)}
    (begun : ∀ j, j ∈ started ↔ ((w.hand K i event).session j).progress.initiated = true)
    (taken : ∀ number receiver, (number, receiver) ∈ delivered →
      (number, receiver) ∈ w.delivered ∨ receiver = i ∧ ∃ p, w.posted[number]? = some p ∧
        Taken p.origin i p.envelope.kind
          ((w.session i).handle K event (w.source i)).session) :
    ring.Consistent { w.hand K i event with started := started, delivered := delivered } where
  sound := flows.sound
  coherent := (Function.forall_update_iff w.session fun _ s => s.Coherent K).2
    ⟨(consistent.coherent i).handle event _, fun j _ => consistent.coherent j⟩
  prompt := (Function.forall_update_iff w.session fun _ s => s.Prompt).2
    ⟨flows.prompt, fun j _ => consistent.prompt j⟩
  unfailing := by
    simp only [Medium.hand, consistent.unfailing, flows.unfailing]
    rfl
  begun := begun
  taken := by
    intro number receiver member
    have kept : ∀ p, w.posted[number]? = some p →
        (w.hand K i event).posted[number]? = some p := by
      intro p sent
      obtain ⟨inside, _⟩ := List.getElem?_eq_some_iff.1 sent
      exact (List.getElem?_append_left inside).trans sent
    rcases taken number receiver member with before | ⟨rfl, p, sent, done⟩
    · obtain ⟨p, sent, done⟩ := consistent.taken number receiver before
      refine ⟨p, kept p sent, ?_⟩
      by_cases here : receiver = i
      · subst here
        change Taken _ _ _ ((w.hand K receiver event).session receiver)
        rw [Medium.hand_session_self]
        exact done.grown flows.grown
      · change Taken _ _ _ ((w.hand K i event).session receiver)
        rw [Medium.hand_session_of_ne K w here]
        exact done
    · refine ⟨p, kept p sent, ?_⟩
      change Taken _ _ _ ((w.hand K receiver event).session receiver)
      rw [Medium.hand_session_self]
      exact done

theorem Consistent.play_start (correct : K.Correct) (consistent : ring.Consistent w)
    (i : Fin ring.roster.size) : ring.Consistent (w.play K (.start i)) := by
  rw [Medium.play]
  split
  next => exact consistent
  next unstarted =>
    have fresh : (w.session i).progress.initiated = false := by
      rw [← Bool.not_eq_true, ← consistent.begun]
      exact unstarted
    obtain ⟨flows, initiated⟩ := consistent.sound.start correct (consistent.coherent i) fresh
      (w.source i)
    refine consistent.hand flows (fun j => ?_) fun number receiver member => .inl member
    rw [List.mem_cons]
    by_cases here : j = i
    · subst here
      rw [Medium.hand_session_self, initiated]
      simp
    · rw [Medium.hand_session_of_ne K w here, ← consistent.begun j]
      simp [here]

theorem Consistent.play_deliver (correct : K.Correct) (consistent : ring.Consistent w)
    (number : Nat) (receiver : Fin ring.roster.size) :
    ring.Consistent (w.play K (.deliver number receiver)) := by
  rw [Medium.play]
  split
  next => exact consistent
  next p sent =>
    split
    next => exact consistent
    next foreign =>
      obtain ⟨payload, carried, backed⟩ :=
        consistent.sound.backed p (List.mem_of_getElem? sent)
      have enveloped : p.envelope = (ring.post p.origin payload).envelope :=
        congrArg (·.envelope) carried
      obtain ⟨flows, taken⟩ := consistent.sound.deliver correct (consistent.coherent receiver)
        (consistent.prompt receiver) foreign backed (w.source receiver)
      rw [← enveloped] at flows taken
      have kind : p.envelope.kind = payload.kind := by
        rw [enveloped]
        rfl
      refine consistent.hand flows (fun j => ?_) fun number' receiver' member => ?_
      · by_cases here : j = receiver
        · subst here
          rw [Medium.hand_session_self,
            ((w.session j).follows_received K p.envelope (w.source j)).initiated]
          exact consistent.begun j
        · rw [Medium.hand_session_of_ne K w here]
          exact consistent.begun j
      · rcases List.mem_cons.1 member with new | before
        · obtain ⟨rfl, rfl⟩ := Prod.mk.inj new
          exact .inr ⟨rfl, p, sent, by rwa [kind]⟩
        · exact .inl before

theorem Consistent.run (correct : K.Correct) (consistent : ring.Consistent w)
    (moves : List (Move ring.roster.size)) : ring.Consistent (w.run K moves) := by
  induction moves generalizing w with
  | nil => exact consistent
  | cons move rest ih =>
    refine ih ?_
    cases move with
    | start i => exact consistent.play_start correct i
    | deliver number receiver => exact consistent.play_deliver correct number receiver

/-- The invariant of a ring of honest parties holds after any moves. -/
theorem consistent_run (correct : K.Correct) (ring : HonestRing K)
    (source : Fin ring.roster.size → ρ) (moves : List (Move ring.roster.size)) :
    ring.Consistent ((ring.medium source).run K moves) :=
  (ring.medium_consistent source).run correct moves

end RingAgreement.HonestRing
