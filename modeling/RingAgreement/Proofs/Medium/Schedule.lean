import RingAgreement.Proofs.Medium.Basic
/-!
Schedules. Nothing that has happened on a medium is forgotten, and a schedule that starts every
party and then hands out all messages several times leaves nothing undone.
-/

namespace RingAgreement.Medium

variable {n : Nat} {ρ : Type}

/-- Nothing that was sent, started or handed out is forgotten. -/
structure Later (w w' : Medium n ρ) : Prop where
  posted : w.posted <+: w'.posted
  started : ∀ i ∈ w.started, i ∈ w'.started
  delivered : ∀ record ∈ w.delivered, record ∈ w'.delivered

theorem Later.refl (w : Medium n ρ) : w.Later w :=
  ⟨List.prefix_rfl, fun _ => id, fun _ => id⟩

theorem Later.trans {w w' w'' : Medium n ρ} (first : w.Later w') (second : w'.Later w'') :
    w.Later w'' where
  posted := first.posted.trans second.posted
  started := fun i member => second.started i (first.started i member)
  delivered := fun record member => second.delivered record (first.delivered record member)

theorem Later.sent {w w' : Medium n ρ} (later : w.Later w') {number : Nat} {p : Posted n}
    (sent : w.posted[number]? = some p) : w'.posted[number]? = some p := by
  obtain ⟨more, joined⟩ := later.posted
  obtain ⟨inside, _⟩ := List.getElem?_eq_some_iff.1 sent
  rw [← joined, List.getElem?_append_left inside, sent]

variable (K : Kem) [RandomSource ρ] (w : Medium n ρ)

theorem later_play (move : Move n) : w.Later (w.play K move) := by
  cases move with
  | start i =>
    rw [play]
    split
    · exact .refl w
    · exact ⟨List.prefix_append _ _, fun _ => List.mem_cons_of_mem i, fun _ => id⟩
  | deliver number receiver =>
    rw [play]
    split
    · exact .refl w
    · split
      · exact .refl w
      · exact ⟨List.prefix_append _ _, fun _ => id, fun _ => List.mem_cons_of_mem _⟩

theorem later_run (moves : List (Move n)) : w.Later (w.run K moves) := by
  induction moves generalizing w with
  | nil => exact .refl w
  | cons move rest ih => exact (w.later_play K move).trans (ih _)

theorem run_append (moves more : List (Move n)) :
    w.run K (moves ++ more) = (w.run K moves).run K more :=
  List.foldl_append

/-- A move leaves a party alone, or the party is started or handed a message that was sent. -/
theorem play_session_cases (move : Move n) (i : Fin n) :
    (w.play K move).session i = w.session i ∨
      ∃ event, (w.play K move).session i = ((w.session i).handle K event (w.source i)).session ∧
        ∀ e, event = .received e → ∃ p ∈ w.posted, p.envelope = e := by
  have handed : ∀ j event, (w.hand K j event).session i = w.session i ∨ j = i ∧
      (w.hand K j event).session i = ((w.session i).handle K event (w.source i)).session := by
    intro j event
    by_cases here : i = j
    · subst here
      exact .inr ⟨rfl, w.hand_session_self K i event⟩
    · exact .inl (w.hand_session_of_ne K here event)
  cases move with
  | start j =>
    rw [play]
    split
    · exact .inl rfl
    · refine (handed j .start).imp_right fun ⟨_, same⟩ => ⟨.start, same, fun e other => ?_⟩
      cases other
  | deliver number receiver =>
    rw [play]
    split
    · exact .inl rfl
    next p sent =>
      split
      · exact .inl rfl
      · refine (handed receiver (.received p.envelope)).imp_right fun ⟨_, same⟩ =>
          ⟨_, same, fun e other => ?_⟩
        exact ⟨p, List.mem_of_getElem? sent, SessionEvent.received.inj other⟩

/-- What becomes of a party on a medium is a run of its session. -/
theorem exists_session_run (moves : List (Move n)) (i : Fin n) :
    ∃ inputs : List (SessionEvent × ρ),
      (w.run K moves).session i = (w.session i).after K inputs := by
  induction moves generalizing w with
  | nil => exact ⟨[], rfl⟩
  | cons move rest ih =>
    obtain ⟨inputs, reached⟩ := ih (w.play K move)
    rcases w.play_session_cases K move i with idle | ⟨event, stepped, _⟩
    · exact ⟨inputs, reached.trans (by rw [idle])⟩
    · exact ⟨(event, w.source i) :: inputs, reached.trans (by rw [stepped]; rfl)⟩

/-- Every party that a schedule starts has been started in the end. -/
theorem started_of_mem {moves : List (Move n)} {i : Fin n} (scheduled : .start i ∈ moves) :
    i ∈ (w.run K moves).started := by
  induction moves generalizing w with
  | nil => cases scheduled
  | cons move rest ih =>
    rcases List.mem_cons.1 scheduled with rfl | later
    · refine ((w.play K (.start i)).later_run K rest).started i ?_
      rw [play]
      split
      next already => exact already
      next => exact List.mem_cons_self
    · exact ih _ later

/-- Every message that is there before a schedule which hands it out has been handed out. -/
theorem delivered_of_mem {moves : List (Move n)} {number : Nat} {receiver : Fin n}
    (scheduled : .deliver number receiver ∈ moves) {p : Posted n}
    (sent : w.posted[number]? = some p) (foreign : p.origin ≠ receiver) :
    (number, receiver) ∈ (w.run K moves).delivered := by
  induction moves generalizing w with
  | nil => cases scheduled
  | cons move rest ih =>
    rcases List.mem_cons.1 scheduled with rfl | later
    · refine ((w.play K (.deliver number receiver)).later_run K rest).delivered _ ?_
      simp [play, sent, foreign]
    · exact ih _ later ((w.later_play K move).sent sent)

/-- Starts every party. -/
def starts (n : Nat) : List (Move n) := (List.finRange n).map .start

/-- Hands the first `3 * n` messages to everyone. -/
def sweep (n : Nat) : List (Move n) :=
  (List.range (3 * n)).flatMap fun number => (List.finRange n).map (.deliver number)

/-- Starts every party and hands out all messages three times. -/
def schedule (n : Nat) : List (Move n) := starts n ++ sweep n ++ sweep n ++ sweep n

theorem mem_starts (i : Fin n) : .start i ∈ starts n :=
  List.mem_map_of_mem (List.mem_finRange i)

theorem mem_sweep {number : Nat} (early : number < 3 * n) (receiver : Fin n) :
    .deliver number receiver ∈ sweep n :=
  List.mem_flatMap.2 ⟨number, List.mem_range.2 early,
    List.mem_map_of_mem (List.mem_finRange receiver)⟩

end RingAgreement.Medium
