import RingAgreement.Proofs.Service.Ledger
/-!
What goes through a station keeps its order: the calls on their way to the node, and the envelopes
on their way from a link to the node. Nothing gets lost between the queues, and none of them holds
more than it has room for.
-/

namespace RingAgreement

namespace Station

variable {ρ : Type} {s : Station ρ}

/-! ## Calls -/

namespace Ledger

variable {l : Ledger ρ}

/-- The calls so far, those that have been taken first. -/
def calls (l : Ledger ρ) : List (List UInt8) :=
  l.taken.map (·.1) ++ (l.station.commands ++ l.station.callers)

section

variable [RandomSource ρ] (K : Kem)

end

/-! ## Events -/

/-- The events of a station that has been taken over at `s`. The node takes what it is handed in its
order, and what a link has read it has handed over or holds in its hand. -/
structure Delivered (s : Station ρ) (l : Ledger ρ) : Prop where
  handled : l.handled ++ l.station.pending = s.pending ++ l.passed
  heard : ∀ level, s.inHand level ++ l.heard.filter (·.isFrom level) =
    l.passed.filter (·.isFrom level) ++ l.station.inHand level

theorem Delivered.start (s : Station ρ) : Delivered s (.start s) :=
  ⟨(List.append_nil _).symm, fun _ => List.append_nil _⟩

theorem inHand_withLink (s : Station ρ) (level : Level) (link : Option Link) :
    (s.withLink level link).inHand level = (link.bind (·.held)).toList.map (.received level) := by
  rw [inHand, link?_withLink]

theorem inHand_withLink_of_ne {level other : Level} (apart : level ≠ other) (s : Station ρ)
    (link : Option Link) : (s.withLink level link).inHand other = s.inHand other := by
  rw [inHand, link?_withLink_of_ne _ apart, inHand]

/-- Changing a link without touching what it has in hand. -/
theorem inHand_withLink_of_held {level : Level} {s : Station ρ} {before : Link}
    (here : s.link? level = some before) (link : Option Link)
    (held : link.bind (·.held) = before.held) (other : Level) :
    (s.withLink level link).inHand other = s.inHand other := by
  by_cases own : level = other
  · subst own
    rw [inHand_withLink, held, inHand, here]
    rfl
  · exact inHand_withLink_of_ne own s link

theorem filter_inHand (s : Station ρ) (level other : Level) :
    (s.inHand level).filter (·.isFrom other) = if level = other then s.inHand level else [] := by
  unfold inHand
  by_cases own : level = other
  · subst own
    rw [if_pos rfl, List.filter_eq_self]
    intro event member
    obtain ⟨e, -, rfl⟩ := List.mem_map.1 member
    exact decide_eq_true rfl
  · rw [if_neg own, List.filter_eq_nil_iff]
    intro event member
    obtain ⟨e, -, rfl⟩ := List.mem_map.1 member
    exact fun from_other => own (of_decide_eq_true from_other)

theorem Delivered.frame {l' : Ledger ρ} (delivered : l.Delivered s)
    (pending : l'.station.pending = l.station.pending)
    (inHand : ∀ level, l'.station.inHand level = l.station.inHand level)
    (heard : l'.heard = l.heard) (passed : l'.passed = l.passed) (handled : l'.handled = l.handled) :
    l'.Delivered s := by
  refine ⟨?_, fun level => ?_⟩
  · rw [handled, pending, passed]
    exact delivered.handled
  · rw [heard, passed, inHand]
    exact delivered.heard level

theorem Delivered.arrive (delivered : l.Delivered s) (level : Level) (change : Inflow → Inflow) :
    Delivered s { l with station := l.station.arrive level change } := by
  refine delivered.frame rfl (fun other => ?_) rfl rfl rfl
  cases here : l.station.link? level with
  | none => rw [Station.arrive, here, Option.map_none, withLink_self here]
  | some before =>
    rw [Station.arrive, here]
    exact inHand_withLink_of_held here _ rfl other

/-- A link looks at its stream with nothing in hand. -/
theorem Delivered.read (delivered : l.Delivered s) {level : Level}
    (free : l.station.inHand level = []) (link : Option Link) (unreadable : Bool) :
    Delivered s { l with
      station := l.station.withLink level link
      heard := l.heard ++ (l.station.withLink level link).inHand level
      unreadable } := by
  refine ⟨delivered.handled, fun other => ?_⟩
  dsimp only
  rw [List.filter_append, ← List.append_assoc, delivered.heard, List.append_assoc, filter_inHand]
  by_cases own : level = other
  · subst own
    rw [if_pos rfl, free, List.nil_append]
  · rw [if_neg own, inHand_withLink_of_ne own, List.append_nil]

/-- A link hands over what it has in hand. -/
theorem Delivered.pass (delivered : l.Delivered s) {level : Level} {link : Link} {e : Envelope}
    (here : l.station.link? level = some link) (held : link.held = some e) :
    Delivered s { l with
      station := { l.station.withLink level (some { link with held := none }) with
        waiting := l.station.waiting ++ [.received level e] }
      passed := l.passed ++ l.station.inHand level } := by
  have inHand : l.station.inHand level = [.received level e] := by
    rw [Station.inHand, here, Option.bind_some, held]
    rfl
  refine ⟨?_, fun other => ?_⟩
  · rw [inHand, ← List.append_assoc s.pending, ← delivered.handled, List.append_assoc]
    exact congrArg (l.handled ++ ·) (List.append_assoc ..).symm
  · dsimp only
    rw [delivered.heard, List.filter_append, filter_inHand, List.append_assoc]
    refine congrArg (l.passed.filter (·.isFrom other) ++ ·) ?_
    by_cases own : level = other
    · subst own
      rw [if_pos rfl]
      refine (List.append_nil _).symm.trans (congrArg (l.station.inHand level ++ ·) ?_)
      exact (inHand_withLink l.station level (some { link with held := none })).symm
    · rw [if_neg own]
      exact (inHand_withLink_of_ne own l.station _).symm

section

variable [RandomSource ρ] (K : Kem)

theorem Delivered.step (delivered : l.Delivered s) (t : Turn) : (l.step K t).Delivered s := by
  unfold Ledger.step
  split
  · exact delivered
  next after emission happened =>
    cases makes_of_turn? happened with
    | arrive level bytes => exact delivered.arrive level _
    | finish level => exact delivered.arrive level _
    | @read level link next here free looked =>
      refine delivered.read ?_ _ _
      rw [Station.inHand, here, Option.bind_some, free]
      rfl
    | @lose level link here free looked =>
      refine delivered.read ?_ _ _
      rw [Station.inHand, here, Option.bind_some, free]
      rfl
    | pass here held room => exact delivered.pass here held
    | @write level link e rest line here free standing fit =>
      have frame := inHand_withLink_of_held here (some { link with outbox := rest }) rfl
      cases level <;> exact delivered.frame rfl frame rfl rfl rfl
    | @overflow level link e rest here free standing long =>
      have frame := inHand_withLink_of_held here none free.symm
      cases level <;> exact delivered.frame rfl frame rfl rfl rfl
    | event status idle found =>
      obtain ⟨pending, -⟩ := nextEvent?_eq_some found
      refine ⟨?_, delivered.heard⟩
      rw [note, found]
      refine .trans ?_ delivered.handled
      rw [pending]
      exact List.append_assoc ..
    | @duty duty rest =>
      obtain ⟨status, made⟩ := carryOut_eq { l.station with duties := rest } duty
      refine delivered.frame ?_ (fun level => ?_) rfl rfl rfl
      · change pending (carryOut _ duty) = _
        rw [made]
        rfl
      · change inHand (carryOut _ duty) level = _
        rw [Station.inHand, link?_carryOut]
        change List.map _ ((l.station.link? level).map _ |>.bind _).toList = _
        rw [Option.bind_map]
        rfl
    | _ => exact delivered.frame rfl (fun _ => rfl) rfl rfl rfl

theorem Delivered.run (delivered : l.Delivered s) (turns : List Turn) :
    (l.run K turns).Delivered s :=
  run_induction K (fun _ t delivered => delivered.step K t) delivered turns

end

end Ledger

/-! ## Room -/

/-- No queue holds more than it has room for. -/
structure WithinRoom (s : Station ρ) : Prop where
  commands : s.commands.length ≤ s.room
  waiting : s.waiting.length ≤ s.room
  inbox : s.inbox.length ≤ s.room
  outbox : ∀ level link, s.link? level = some link → link.outbox.length ≤ s.room

namespace WithinRoom

theorem new (node : Node) (source : ρ) (limits : Limits) :
    (Station.new node source limits).WithinRoom where
  commands := Nat.zero_le _
  waiting := Nat.zero_le _
  inbox := Nat.zero_le _
  outbox level _ there := by cases level <;> cases there

theorem withLink (within : s.WithinRoom) {level : Level} {link : Option Link}
    (short : ∀ next, link = some next → next.outbox.length ≤ s.room) :
    (s.withLink level link).WithinRoom := by
  refine ⟨within.commands, within.waiting, within.inbox, fun other next there => ?_⟩
  by_cases own : level = other
  · subst own
    rw [link?_withLink] at there
    exact short next there
  · rw [link?_withLink_of_ne _ own] at there
    exact within.outbox other next there

theorem arrive (within : s.WithinRoom) (level : Level) (change : Inflow → Inflow) :
    (s.arrive level change).WithinRoom := by
  refine within.withLink fun next made => ?_
  obtain ⟨before, here, rfl⟩ := Option.map_eq_some_iff.1 made
  exact within.outbox level before here

theorem duty (within : s.WithinRoom) {duty : Duty} {rest : List Duty}
    (admitted : s.admits duty = true) : ({ s with duties := rest }.carryOut duty).WithinRoom := by
  obtain ⟨posts, delivers⟩ := (s.admits_iff duty).1 admitted
  obtain ⟨status, made⟩ := carryOut_eq { s with duties := rest } duty
  have room : ({ s with duties := rest }.carryOut duty).room = s.room := by
    rw [made]
    rfl
  refine ⟨?_, ?_, ?_, fun level link there => ?_⟩
  · rw [room, made]
    exact within.commands
  · rw [room, made]
    exact within.waiting
  · rw [room, made]
    change (s.inbox ++ _).length ≤ _
    cases given : duty.delivery? with
    | none => simpa using within.inbox
    | some message =>
      rw [Option.toList_some, List.length_append]
      exact delivers (by simp [given])
  · rw [link?_carryOut] at there
    obtain ⟨before, here, rfl⟩ := Option.map_eq_some_iff.1 there
    have here : s.link? level = some before := by cases level <;> exact here
    rw [room]
    cases given : duty.mail? level with
    | none => simpa using within.outbox level before here
    | some e =>
      have free := posts level (by simp [given])
      rw [canPost, here, Option.all_some, decide_eq_true_eq] at free
      rw [Option.toList_some, List.length_append]
      exact free

variable [RandomSource ρ] (K : Kem)

theorem turn (within : s.WithinRoom) (t : Turn) : (s.turn K t).WithinRoom := by
  unfold Station.turn
  cases happened : s.turn? K t with
  | none => exact within
  | some result =>
    obtain ⟨after, emission⟩ := result
    rw [Option.map_some, Option.getD_some]
    cases makes_of_turn? happened with
    | call => exact ⟨within.commands, within.waiting, within.inbox, within.outbox⟩
    | take standing =>
      refine ⟨within.commands, within.waiting, ?_, within.outbox⟩
      have inbox := within.inbox
      rw [standing] at inbox
      exact Nat.le_of_succ_le inbox
    | arrive level bytes => exact within.arrive level _
    | finish level => exact within.arrive level _
    | enter standing room =>
      refine ⟨?_, within.waiting, within.inbox, within.outbox⟩
      rw [List.length_append]
      exact room
    | read here free looked =>
      refine within.withLink fun next same => ?_
      obtain rfl := Option.some.inj same
      rw [((Link.read?_eq_some looked).2 _ rfl).2.2]
      exact within.outbox _ _ here
    | lose => exact within.withLink fun next same => (by cases same)
    | @pass level link e here held room =>
      have short : (s.withLink level (some { link with held := none })).WithinRoom := by
        refine within.withLink fun next same => ?_
        obtain rfl := Option.some.inj same
        exact within.outbox level link here
      refine ⟨short.commands, ?_, short.inbox, short.outbox⟩
      rw [List.length_append]
      exact room
    | write here free standing fit =>
      refine within.withLink fun next same => ?_
      obtain rfl := Option.some.inj same
      have outbox := within.outbox _ _ here
      rw [standing] at outbox
      exact Nat.le_of_succ_le outbox
    | overflow => exact within.withLink fun next same => (by cases same)
    | event status idle found =>
      obtain ⟨-, _, rest, same, short⟩ := nextEvent?_eq_some found
      obtain rfl : _ = rest := congrArg Station.waiting same
      exact ⟨within.commands, Nat.le_trans short within.waiting, within.inbox, within.outbox⟩
    | accept idle standing =>
      refine ⟨?_, within.waiting, within.inbox, within.outbox⟩
      have commands := within.commands
      rw [standing] at commands
      exact Nat.le_of_succ_le commands
    | refuse idle standing =>
      refine ⟨?_, within.waiting, within.inbox, within.outbox⟩
      have commands := within.commands
      rw [standing] at commands
      exact Nat.le_of_succ_le commands
    | duty standing admitted => exact within.duty admitted

theorem run (within : s.WithinRoom) (turns : List Turn) :
    (turns.foldl (Station.turn K) s).WithinRoom := by
  induction turns generalizing s with
  | nil => exact within
  | cons t rest ih => exact ih (within.turn K t)

/-- No queue of a station ever comes to hold more than it has room for. -/
theorem of_new (node : Node) (source : ρ) (limits : Limits) (turns : List Turn) :
    (turns.foldl (Station.turn K) (.new node source limits)).WithinRoom :=
  (new node source limits).run K turns

end WithinRoom

end Station

end RingAgreement
