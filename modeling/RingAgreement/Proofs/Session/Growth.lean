import RingAgreement.Proofs.Session.Completion
/-!
What a session keeps. Neighbour keys and contributions are written once: as long as a session is
not aborted, no event takes one of them away or puts another one in its place.
-/

namespace RingAgreement.Session

/-- A later state of a session, as far as others can rely on it: nothing is lost but a transcript,
and a transcript only comes with the start. -/
structure Grown (s s' : Session) : Prop where
  initiated : s.progress.initiated = true → s'.progress.initiated = true
  keyLeft : ∀ key, s.progress.keyLeft = some key → s'.progress.keyLeft = some key
  keyRight : ∀ key, s.progress.keyRight = some key → s'.progress.keyRight = some key
  slot : ∀ i c, s.slot i = some c → s'.slot i = some c
  transcript : ∀ t, s'.progress.transcript = some t →
    s.progress.transcript = some t ∨ s.progress.initiated = false

theorem Grown.refl (s : Session) : s.Grown s :=
  ⟨id, fun _ => id, fun _ => id, fun _ _ => id, fun _ => .inl⟩

theorem Grown.trans {s s' s'' : Session} (first : s.Grown s') (second : s'.Grown s'') :
    s.Grown s'' where
  initiated := second.initiated ∘ first.initiated
  keyLeft := fun key => second.keyLeft key ∘ first.keyLeft key
  keyRight := fun key => second.keyRight key ∘ first.keyRight key
  slot := fun i c => second.slot i c ∘ first.slot i c
  transcript := by
    intro t kept
    rcases second.transcript t kept with kept | unstarted
    · exact first.transcript t kept
    · refine .inr (Bool.eq_false_iff.2 fun started => ?_)
      rw [first.initiated started] at unstarted
      cases unstarted

theorem isSome_of_grown {α : Type} {x y : Option α} (grown : ∀ a, x = some a → y = some a)
    (present : x.isSome) : y.isSome := by
  obtain ⟨a, rfl⟩ := Option.isSome_iff_exists.1 present
  rw [grown a rfl]
  rfl

theorem grown_withContribution {s : Session} {i : Fin s.roster.size} (empty : s.slot i = none)
    (c : Contribution) : s.Grown (s.withContribution i c) := by
  refine ⟨id, fun _ => id, fun _ => id, fun k d held => ?_, fun _ => .inl⟩
  rw [slot_withContribution]
  split
  next hit =>
    rw [← hit, empty] at held
    cases held
  next => exact held

variable {K : Kem} {s : Session} {ρ : Type}

/-! ## Steps -/

theorem Running.grown_conclude (running : s.Running) (actions : List SessionAction) (source : ρ) :
    let s' := (s.conclude K actions source).session
    s'.state = .aborted ∨ s.Grown s' := by
  have ended := s.conclude_cases K running actions source
  generalize s.conclude K actions source = outcome at ended
  cases ended with
  | waiting => exact .inr ⟨id, fun _ => id, fun _ => id, fun _ _ => id, fun _ => .inl⟩
  | completed => exact .inr ⟨id, fun _ => id, fun _ => id, fun _ _ => id, fun _ => .inl⟩
  | aborted => exact .inl rfl
  | refused => exact .inr (.refl s)

variable [RandomSource ρ]

theorem Running.grown_advance (running : s.Running) (actions : List SessionAction) (source : ρ) :
    let s' := (s.advance K actions source).session
    s'.state = .aborted ∨ s.Grown s' := by
  have ended := s.advance_cases K actions source
  generalize s.advance K actions source = outcome at ended
  cases ended with
  | silent undue ended =>
    subst ended
    exact running.grown_conclude actions source
  | broadcast right left c due rightKey leftKey share coin opens ended =>
    subst ended
    have still := running.withContribution s.own c
    exact (still.grown_conclude _ _).imp_right (grown_withContribution due c).trans
  | refused => exact .inr (.refl s)

theorem Accepts.grown {event : SessionEvent} {source source' : ρ} {s' : Session}
    {actions : List SessionAction} (write : s.Accepts K event source s' actions source') :
    s.Grown s' := by
  cases write with
  | start fresh made =>
    exact ⟨fun _ => rfl, fun _ => id, fun _ => id, fun _ _ => id, fun _ _ => .inr fresh⟩
  | offer heard fresh made =>
    refine ⟨id, fun key held => ?_, fun _ => id, fun _ _ => id, fun _ => .inl⟩
    rw [fresh] at held
    cases held
  | response heard fresh pending made =>
    refine ⟨id, fun _ => id, fun key held => ?_, fun _ _ => id, fun t kept => ?_⟩
    · rw [fresh] at held
      cases held
    · cases kept
  | share heard fresh => exact grown_withContribution fresh _

/-- An event leaves everything that a session has in place, or it aborts the session. -/
theorem Coherent.grown_handle (coherent : s.Coherent K) (event : SessionEvent) (source : ρ) :
    let s' := (s.handle K event source).session
    s'.state = .aborted ∨ s.Grown s' := by
  have step := coherent.stepped event source
  generalize s.handle K event source = outcome at step
  cases step with
  | kept => exact .inr (.refl s)
  | written _ write prepared =>
    exact (prepared.toRunning.grown_advance _ _).imp_right write.grown.trans

/-- So does a run. -/
theorem Coherent.grown_after (coherent : s.Coherent K) (inputs : List (SessionEvent × ρ)) :
    (s.after K inputs).state = .aborted ∨ s.Grown (s.after K inputs) := by
  induction inputs generalizing s with
  | nil => exact .inr (.refl s)
  | cons input rest ih =>
    rcases coherent.grown_handle input.1 input.2 with aborted | grown
    · have ended := after_of_unchanged (K := K)
        (fun event (source : ρ) => by rw [handle_aborted _ K aborted]) rest
      exact .inl ((congrArg (·.state) ended).trans aborted)
    · exact (ih (coherent.handle input.1 input.2)).imp_right grown.trans

end RingAgreement.Session
