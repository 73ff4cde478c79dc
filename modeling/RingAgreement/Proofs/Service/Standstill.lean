import RingAgreement.Proofs.Service.Turn
/-!
When a station comes to a standstill. It has done everything, or its owner leaves messages in a full
inbox, or it is jammed: the node waits for room in the outbox of a ring, and the link of that ring
waits for room at the node. Nothing that happens at the station later ends a jam.
-/

namespace RingAgreement

theorem Link.inflow_of_read?_eq_none {l : Link} (idle : l.read? = none) (free : l.held = none) :
    l.inflow.pieces = [] := by
  unfold read? at idle
  rw [free, if_neg (by simp)] at idle
  split at idle
  · cases idle
  · split at idle
    next empty => exact List.isEmpty_iff.1 empty
    next => cases idle
  · cases idle

namespace Station

variable {ρ : Type} {s : Station ρ} {level : Level}

/-- Everything is done: all calls are answered, what was to be written is written, and what has
arrived is read and taken. -/
structure AtEase (s : Station ρ) : Prop where
  started : s.fresh = false
  duties : s.duties = []
  commands : s.commands = []
  callers : s.callers = []
  waiting : s.waiting = []
  links : ∀ level link, s.link? level = some link →
    link.held = none ∧ link.outbox = [] ∧ link.inflow.pieces = []

/-- The node waits for room in the inbox of its owner. -/
def Neglected (s : Station ρ) : Prop :=
  ∃ duty rest, s.duties = duty :: rest ∧ duty.delivery? ≠ none ∧ s.room ≤ s.inbox.length

/-- The node waits for room in an outbox, and the link that could empty it for room at the node. -/
structure Jammed (level : Level) (s : Station ρ) : Prop where
  parked : ∃ duty rest, s.duties = duty :: rest ∧ duty.mail? level ≠ none
  stuck : ∃ link, s.link? level = some link ∧ link.held.isSome = true ∧
    s.room ≤ link.outbox.length
  full : s.room ≤ s.waiting.length

def HeldUp (s : Station ρ) : Prop := s.Neglected ∨ ∃ level, s.Jammed level

section

variable [RandomSource ρ] (K : Kem)

/-- None of the station's own turns has anything to do. -/
def Still (s : Station ρ) : Prop := ∀ t ∈ Turn.own, s.turn? K t = none

variable {K}

theorem Still.read? (still : s.Still K) {link : Link} (here : s.link? level = some link) :
    link.read? = none := by
  have idle : s.read? level = none := still (.read level) (by cases level <;> decide)
  unfold Station.read? at idle
  rw [here, Option.bind_some, Option.map_eq_none_iff] at idle
  exact idle

theorem Still.full (still : s.Still K) {link : Link} (here : s.link? level = some link)
    (held : link.held.isSome = true) : s.room ≤ s.waiting.length := by
  have idle : (s.pass? level).map (·, none) = none :=
    still (.pass level) (by cases level <;> decide)
  obtain ⟨e, held⟩ := Option.isSome_iff_exists.1 held
  unfold pass? at idle
  rw [Option.map_eq_none_iff, here, Option.bind_some, held, Option.bind_some] at idle
  dsimp only at idle
  split at idle
  · cases idle
  next full => exact Nat.not_lt.1 full

theorem Still.outbox (still : s.Still K) {link : Link} (here : s.link? level = some link)
    (free : link.held = none) : link.outbox = [] := by
  have idle : s.write? level = none := still (.write level) (by cases level <;> decide)
  unfold write? at idle
  rw [here, Option.bind_some, Option.map_eq_none_iff, Link.write?, free] at idle
  split at idle
  · cases idle
  next other =>
    cases standing : link.outbox with
    | nil => rfl
    | cons e rest => exact absurd standing (other e rest rfl)

theorem Still.duty (still : s.Still K) {duty : Duty} {rest : List Duty}
    (standing : s.duties = duty :: rest) : s.admits duty = false := by
  have idle : s.duty?.map (·, none) = none := still .duty (by decide)
  unfold duty? at idle
  rw [Option.map_eq_none_iff, standing] at idle
  dsimp only at idle
  split at idle
  · cases idle
  next barred => exact Bool.eq_false_iff.2 barred

theorem Still.event (still : s.Still K) (idle : s.duties = []) :
    s.fresh = false ∧ s.waiting = [] := by
  have none_next : (s.event? K).map (·, none) = none := still .event (by decide)
  unfold event? at none_next
  rw [Option.map_eq_none_iff, idle, List.isEmpty_nil, if_pos rfl, Option.map_eq_none_iff,
    nextEvent?] at none_next
  split at none_next
  · cases none_next
  · cases none_next
  next fresh waiting => exact ⟨fresh, waiting⟩

theorem Still.commands (still : s.Still K) (fresh : s.fresh = false) (idle : s.duties = []) :
    s.commands = [] := by
  have none_taken : s.accept?.map (·, none) = none := still .accept (by decide)
  unfold accept? at none_taken
  rw [Option.map_eq_none_iff] at none_taken
  split at none_taken
  · cases none_taken
  next other =>
    cases standing : s.commands with
    | nil => rfl
    | cons plaintext rest => exact absurd standing (other plaintext rest fresh idle)

theorem Still.callers (still : s.Still K) (none_taken : s.commands = []) : s.callers = [] := by
  have none_entered : s.enter?.map (·, none) = none := still .enter (by decide)
  unfold enter? at none_entered
  rw [Option.map_eq_none_iff] at none_entered
  split at none_entered
  next standing => exact standing
  next =>
    rw [none_taken, List.length_nil, if_pos s.room_pos] at none_entered
    cases none_entered

/-- A station at a standstill has done everything, or it is held up. -/
theorem Still.cases (still : s.Still K) : s.AtEase ∨ s.HeldUp := by
  cases standing : s.duties with
  | nil =>
    obtain ⟨fresh, waiting⟩ := still.event standing
    have commands := still.commands fresh standing
    refine .inl ⟨fresh, standing, commands, still.callers commands, waiting,
      fun level link here => ?_⟩
    have free : link.held = none := by
      rw [← Option.not_isSome_iff_eq_none]
      intro held
      have full := still.full here held
      rw [waiting] at full
      exact Nat.not_le.2 s.room_pos full
    exact ⟨free, still.outbox here free,
      Link.inflow_of_read?_eq_none (still.read? here) free⟩
  | cons duty rest =>
    refine .inr ?_
    by_cases given : duty.delivery? ≠ none ∧ s.room ≤ s.inbox.length
    · exact .inl ⟨duty, rest, standing, given.1, given.2⟩
    · have barred : ∃ level, duty.mail? level ≠ none ∧ s.canPost level = false := by
        by_contra free
        refine Bool.eq_false_iff.1 (still.duty standing) ((s.admits_iff duty).2 ⟨?_, ?_⟩)
        · exact fun level mails =>
            eq_true_of_ne_false fun barred => free ⟨level, mails, barred⟩
        · exact fun delivers => Nat.not_le.1 fun full => given ⟨delivers, full⟩
      obtain ⟨level, mails, barred⟩ := barred
      cases here : s.link? level with
      | none =>
        rw [canPost, here] at barred
        cases barred
      | some link =>
        rw [canPost, here, Option.all_some, decide_eq_false_iff_not, Nat.not_lt] at barred
        have held : link.held.isSome = true := by
          by_contra free
          rw [still.outbox here (Option.not_isSome_iff_eq_none.1 free)] at barred
          exact Nat.not_le.2 s.room_pos barred
        exact .inr ⟨level, ⟨duty, rest, standing, mails⟩, ⟨link, here, held, barred⟩,
          still.full here held⟩

/-! ## Jams -/

/-- A jam that lasts from `s` on: nothing is answered any more, and nothing leaves the outbox. -/
structure Jammed.Lasts (level : Level) (s after : Station ρ) : Prop where
  jammed : after.Jammed level
  duties : after.duties = s.duties
  answers : after.answers = s.answers
  outbox : (after.link? level).map (·.outbox) = (s.link? level).map (·.outbox)

omit [RandomSource ρ] in
/-- What does not touch the duties and the events, and leaves the link as it is or lets something
arrive there, does not end a jam. -/
theorem Jammed.lasts (jam : s.Jammed level) {after : Station ρ}
    (duties : after.duties = s.duties) (answers : after.answers = s.answers)
    (waiting : after.waiting = s.waiting) (limits : after.limits = s.limits)
    (link : ∀ link, s.link? level = some link → ∃ next, after.link? level = some next ∧
      next.held = link.held ∧ next.outbox = link.outbox) : Lasts level s after := by
  obtain ⟨parked, ⟨before, here, held, outbox⟩, full⟩ := jam
  obtain ⟨next, there, same_held, same_outbox⟩ := link before here
  have room : after.room = s.room := congrArg Limits.queueRoom limits
  refine ⟨⟨?_, ⟨next, there, ?_, ?_⟩, ?_⟩, duties, answers, ?_⟩
  · rw [duties]
    exact parked
  · rw [same_held]
    exact held
  · rw [room, same_outbox]
    exact outbox
  · rw [room, waiting]
    exact full
  · rw [here, there, Option.map_some, Option.map_some, same_outbox]

omit [RandomSource ρ] in
theorem Jammed.lasts_arrive (jam : s.Jammed level) (other : Level) (change : Inflow → Inflow) :
    Lasts level s (s.arrive other change) := by
  refine jam.lasts rfl rfl rfl rfl fun link here => ?_
  by_cases own : other = level
  · subst own
    exact ⟨_, (link?_withLink ..).trans (congrArg (Option.map _) here), rfl, rfl⟩
  · exact ⟨link, (link?_withLink_of_ne _ own).trans here, rfl, rfl⟩

omit [RandomSource ρ] in
/-- A link that acts with nothing in hand is not the one of the jam. -/
theorem Jammed.lasts_withLink (jam : s.Jammed level) {other : Level} {link : Link}
    (here : s.link? other = some link) (free : link.held = none) (next : Option Link) :
    Lasts level s (s.withLink other next) := by
  have apart : other ≠ level := by
    rintro rfl
    obtain ⟨stuck, there, held, -⟩ := jam.stuck
    obtain rfl := Option.some.inj (here.symm.trans there)
    rw [free] at held
    cases held
  exact jam.lasts rfl rfl rfl rfl fun link here =>
    ⟨link, (link?_withLink_of_ne _ apart).trans here, rfl, rfl⟩

omit [RandomSource ρ] in
theorem Jammed.busy (jam : s.Jammed level) : s.duties ≠ [] := by
  obtain ⟨duty, rest, standing, -⟩ := jam.parked
  rw [standing]
  exact List.cons_ne_nil duty rest

omit [RandomSource ρ] in
theorem Jammed.barred (jam : s.Jammed level) {duty : Duty} {rest : List Duty}
    (standing : s.duties = duty :: rest) : s.admits duty ≠ true := by
  obtain ⟨parked, _, same, mails⟩ := jam.parked
  obtain ⟨rfl, -⟩ := List.cons.inj (standing.symm.trans same)
  obtain ⟨link, here, -, full⟩ := jam.stuck
  intro admitted
  have free := ((s.admits_iff duty).1 admitted).1 level mails
  rw [canPost, here, Option.all_some, decide_eq_true_eq] at free
  exact Nat.not_lt.2 full free

/-- No turn ends a jam, whether it is the station's own or comes from outside. -/
theorem Jammed.turn (jam : s.Jammed level) (t : Turn) : Lasts level s (s.turn K t) := by
  unfold Station.turn
  cases happened : s.turn? K t with
  | none => exact jam.lasts rfl rfl rfl rfl fun link here => ⟨link, here, rfl, rfl⟩
  | some result =>
    obtain ⟨after, emission⟩ := result
    rw [Option.map_some, Option.getD_some]
    cases makes_of_turn? happened with
    | call => exact jam.lasts rfl rfl rfl rfl fun link here => ⟨link, here, rfl, rfl⟩
    | take => exact jam.lasts rfl rfl rfl rfl fun link here => ⟨link, here, rfl, rfl⟩
    | arrive other bytes => exact jam.lasts_arrive other _
    | finish other => exact jam.lasts_arrive other _
    | enter => exact jam.lasts rfl rfl rfl rfl fun link here => ⟨link, here, rfl, rfl⟩
    | read here free => exact jam.lasts_withLink here free _
    | lose here free => exact jam.lasts_withLink here free _
    | pass _ _ room => exact absurd room (Nat.not_lt.2 jam.full)
    | write here free => exact jam.lasts_withLink here free _
    | overflow here free => exact jam.lasts_withLink here free _
    | event _ idle => exact absurd idle jam.busy
    | accept idle => exact absurd idle jam.busy
    | refuse idle => exact absurd idle jam.busy
    | duty standing admitted => exact absurd admitted (jam.barred standing)

/-- A jam lasts for good. -/
theorem Jammed.run (jam : s.Jammed level) (turns : List Turn) :
    Lasts level s (turns.foldl (Station.turn K) s) := by
  induction turns generalizing s with
  | nil => exact ⟨jam, rfl, rfl, rfl⟩
  | cons t rest ih =>
    have first := jam.turn (K := K) t
    have later := ih first.jammed
    exact ⟨later.jammed, later.duties.trans first.duties, later.answers.trans first.answers,
      later.outbox.trans first.outbox⟩

/-- How a jam comes about: a node takes a call while both queues of its cluster are full. -/
theorem jammed_of_accept {key : ClusterKey} {plaintext : List UInt8} {rest : List (List UInt8)}
    {link : Link} (started : s.fresh = false) (idle : s.duties = [])
    (standing : s.commands = plaintext :: rest) (known : s.node.clusterKey = some key)
    (linked : s.clusterLink = some link) (held : link.held.isSome = true)
    (outbox : s.room ≤ link.outbox.length) (full : s.room ≤ s.waiting.length) :
    (s.turn K .accept).Jammed .cluster := by
  obtain ⟨nonce, source, e, -, -, accepted⟩ :=
    exists_turn?_accept (K := K) started idle standing known
  rw [Station.turn, accepted]
  exact ⟨⟨.submit e, [], rfl, Option.some_ne_none e⟩, ⟨link, linked, held, outbox⟩, full⟩

end

end Station

end RingAgreement
