import RingAgreement.Proofs.Relay.Delivery
import RingAgreement.Transport.Hub
/-!
The relay as it is served in large steps. Whatever a hub does in one step, its connections do in a
run of small ones, and what the hub gives for a connection is what is written to it in that run.
-/

namespace RingAgreement

namespace Relay.Switchboard

/-- The same relay and connections, with one connection changed. -/
def replace (s : Switchboard) (id : Nat) (c : Subscriber) : Switchboard :=
  { s with subscribers := s.subscribers.set id c }

theorem replace_replace (s : Switchboard) (id : Nat) (c c' : Subscriber) :
    (s.replace id c).replace id c' = s.replace id c' := by
  simp [replace]

theorem getElem?_replace {s : Switchboard} {id : Nat} {c : Subscriber} (c' : Subscriber)
    (here : s.subscribers[id]? = some c) : (s.replace id c').subscribers[id]? = some c' := by
  rw [replace, List.getElem?_set_self (List.getElem?_eq_some_iff.1 here).1]

theorem getElem?_replace_ne (s : Switchboard) {id other : Nat} (c : Subscriber)
    (apart : other ≠ id) : (s.replace id c).subscribers[other]? = s.subscribers[other]? :=
  List.getElem?_set_ne (Ne.symm apart)

theorem replace_same {s : Switchboard} {id : Nat} {c : Subscriber}
    (here : s.subscribers[id]? = some c) : s.replace id c = s := by
  obtain ⟨within, rfl⟩ := List.getElem?_eq_some_iff.1 here
  simp [replace]

theorem step_turn {s : Switchboard} {id : Nat} {c : Subscriber}
    (here : s.subscribers[id]? = some c) (live : c.live = true) :
    s.step (.turn id) = s.replace id (c.turn s.relay id) := by
  unfold step replace
  dsimp only
  rw [isLive_eq here, if_pos live, List.modify_eq_set_getElem?, here]
  rfl

theorem step_leave {s : Switchboard} {id : Nat} {c : Subscriber}
    (here : s.subscribers[id]? = some c) (live : c.live = true) :
    s.step (.leave id) = { s.replace id c.closed with relay := s.relay.leave } := by
  unfold step replace
  dsimp only
  rw [isLive_eq here, if_pos live, List.modify_eq_set_getElem?, here]
  rfl

/-- A connection writes its backlog. -/
theorem run_backlog {s : Switchboard} {id : Nat} {c : Subscriber}
    (here : s.subscribers[id]? = some c) (live : c.live = true) :
    s.run (List.replicate c.backlog.length (.turn id)) =
      s.replace id { c with backlog := [], written := c.written ++ c.backlog } := by
  cases c with
  | mk backlog position written lagged alive =>
    induction backlog generalizing s written with
    | nil =>
      rw [List.append_nil, replace_same here]
      rfl
    | cons line rest ih =>
      have turned := step_turn here live
      have there :=
        getElem?_replace (⟨rest, position, written ++ [line], lagged, alive⟩ : Subscriber) here
      rw [List.length_cons, List.replicate_succ, run_cons, turned]
      refine (ih (written ++ [line]) there live).trans ?_
      rw [replace_replace, List.append_assoc]
      rfl

theorem lt_receive {r : Relay} {position : Nat} (id : Nat) (behind : position < r.channel.tip) :
    position < (r.receive id position).2 := by
  cases missed : r.channel.hasMissed position with
  | true =>
    have capacity : r.channel.capacity < r.channel.tip - position := of_decide_eq_true missed
    rw [receive_of_hasMissed id missed]
    dsimp only
    omega
  | false =>
    obtain ⟨entry, next⟩ := Channel.exists_drop_eq_cons behind
    rw [receive_next id missed next]
    exact Nat.lt_succ_self position

/-- A connection without a backlog receives from the channel until there is nothing left. -/
theorem exists_run_linesFor {s : Switchboard} {id : Nat} {c : Subscriber}
    (here : s.subscribers[id]? = some c) (live : c.live = true) (backlog : c.backlog = [])
    (placed : c.position ≤ s.relay.channel.tip) :
    ∃ turns lagged, s.run (List.replicate turns (.turn id)) =
      s.replace id
        ⟨[], s.relay.channel.tip, c.written ++ s.relay.linesFor id c.position, lagged, true⟩ := by
  obtain ⟨left, enough⟩ : ∃ left, s.relay.channel.tip - c.position = left := ⟨_, rfl⟩
  induction left using Nat.strongRecOn generalizing s c with
  | ind left ih =>
    rcases Nat.eq_or_lt_of_le placed with tip | behind
    · have nothing : s.relay.linesFor id c.position = [] := by rw [tip, linesFor_tip]
      refine ⟨0, c.lagged, ?_⟩
      rw [nothing, List.append_nil, ← tip, ← live, ← backlog]
      exact (replace_same here).symm
    · have turned : c.turn s.relay id =
          ⟨[], (s.relay.receive id c.position).2, c.written ++ (s.relay.receive id c.position).1,
            c.lagged || s.relay.channel.hasMissed c.position, true⟩ := by
        unfold Subscriber.turn
        rw [backlog, ← live]
      have there := getElem?_replace (c.turn s.relay id) here
      rw [turned] at there
      have closer := lt_receive id behind
      obtain ⟨turns, lagged, run⟩ := ih _ (by subst enough; exact Nat.sub_lt_sub_left behind closer)
        there rfl rfl (receive_le_tip id placed) rfl
      refine ⟨turns + 1, lagged, ?_⟩
      rw [List.replicate_succ, run_cons, step_turn here live, turned, run, replace_replace,
        List.append_assoc]
      exact congrArg (fun lines => s.replace id ⟨[], s.relay.channel.tip, lines, lagged, true⟩)
        (congrArg (c.written ++ ·) (linesFor_receive s.relay id c.position).symm)

/-- The lines of a connection are published one after the other. -/
theorem run_publish {s : Switchboard} {id : Nat} (live : s.isLive id = true)
    (lines : List String) : s.run (lines.map (.publish id)) =
      { s with relay := lines.foldl (Relay.publish id) s.relay } := by
  induction lines generalizing s with
  | nil => rfl
  | cons line rest ih =>
    have published : s.step (.publish id line) = { s with relay := s.relay.publish id line } :=
      if_pos live
    rw [List.map_cons, run_cons, published]
    exact ih live

end Relay.Switchboard

namespace Hub

open Relay (Switchboard Subscriber Move)

/-- The connections of a hub with their positions. -/
def seats (h : Hub) : List (Nat × Nat) := h.connections.map fun c => (c.id, c.position)

/-- A hub and a switchboard with the same relay and the same live connections, at the same
positions, when no connection has a backlog. -/
structure Mirrors (h : Hub) (s : Switchboard) : Prop where
  relay : h.relay = s.relay
  sound : s.Sound
  distinct : (h.seats.map (·.1)).Nodup
  connected : ∀ id, s.isLive id = true → ∃ position, (id, position) ∈ h.seats
  placed : ∀ id position, (id, position) ∈ h.seats →
    ∃ d, s.subscribers[id]? = some d ∧ d.live = true ∧ d.backlog = [] ∧ d.position = position

theorem mirrors_new (limits : Limits) : (new limits).Mirrors (.start limits) where
  relay := rfl
  sound := Switchboard.sound_start limits
  distinct := List.nodup_nil
  connected id live := by simp [Switchboard.isLive, Switchboard.start] at live
  placed _ _ member := by cases member

section

variable {h : Hub} {s : Switchboard} (mirrors : h.Mirrors s)
include mirrors

/-- What arrives on a connection does not matter until it is read. -/
theorem Mirrors.congr {h' : Hub} (relay : h'.relay = h.relay) (same : h'.seats = h.seats) :
    h'.Mirrors s where
  relay := relay.trans mirrors.relay
  sound := mirrors.sound
  distinct := same ▸ mirrors.distinct
  connected := same ▸ mirrors.connected
  placed := same ▸ mirrors.placed

theorem Mirrors.lt_joined {id position : Nat} (seat : (id, position) ∈ h.seats) :
    id < h.relay.joined := by
  obtain ⟨d, here, -⟩ := mirrors.placed id position seat
  rw [mirrors.relay, mirrors.sound.numbered]
  exact (List.getElem?_eq_some_iff.1 here).1

theorem Mirrors.isLive {id position : Nat} (seat : (id, position) ∈ h.seats) :
    s.isLive id = true := by
  obtain ⟨d, here, live, -⟩ := mirrors.placed id position seat
  exact Switchboard.isLive_iff.2 ⟨d, here, live⟩

theorem Mirrors.position_eq {id position other : Nat} (seat : (id, position) ∈ h.seats)
    (again : (id, other) ∈ h.seats) : other = position := by
  obtain ⟨d, here, -, -, rfl⟩ := mirrors.placed id position seat
  obtain ⟨d', here', -, -, rfl⟩ := mirrors.placed id other again
  rw [Option.some.inj (here.symm.trans here')]

/-- The lines that a connection publishes. -/
theorem Mirrors.publish {id position : Nat} (seat : (id, position) ∈ h.seats)
    (lines : List String) :
    Mirrors { h with relay := lines.foldl (Relay.publish id) h.relay }
      (s.run (lines.map (.publish id))) := by
  have run := Switchboard.run_publish (mirrors.isLive seat) lines
  have sound := mirrors.sound.run (lines.map (.publish id))
  rw [run] at sound ⊢
  have relay : lines.foldl (Relay.publish id) h.relay = lines.foldl (Relay.publish id) s.relay := by
    rw [mirrors.relay]
  exact ⟨relay, sound, mirrors.distinct, mirrors.connected, mirrors.placed⟩

/-- The end of a connection. -/
theorem Mirrors.drop {id position : Nat} (seat : (id, position) ∈ h.seats) :
    Mirrors (h.drop id) (s.step (.leave id)) := by
  obtain ⟨d, here, live, -⟩ := mirrors.placed id position seat
  have sound := mirrors.sound.step (.leave id)
  have seats : (h.drop id).seats = h.seats.filter (·.1 ≠ id) := by
    simp only [Hub.drop, Hub.seats, List.filter_map]
    rfl
  rw [Switchboard.step_leave here live] at sound ⊢
  refine ⟨congrArg Relay.leave mirrors.relay, sound, ?_, fun other live => ?_,
    fun other place seat => ?_⟩
  · rw [seats]
    exact mirrors.distinct.sublist (List.Sublist.map _ List.filter_sublist)
  · change (s.replace id d.closed).isLive other = true at live
    have apart : other ≠ id := by
      rintro rfl
      rw [Switchboard.isLive_eq (Switchboard.getElem?_replace d.closed here)] at live
      cases live
    rw [Switchboard.isLive, Switchboard.getElem?_replace_ne _ _ apart, ← Switchboard.isLive] at live
    obtain ⟨place, seat⟩ := mirrors.connected other live
    exact ⟨place, by rw [seats, List.mem_filter]; exact ⟨seat, decide_eq_true apart⟩⟩
  · rw [seats, List.mem_filter] at seat
    obtain ⟨seat, apart⟩ := seat
    rw [decide_eq_true_iff] at apart
    obtain ⟨d', there, rest⟩ := mirrors.placed other place seat
    exact ⟨d', (s.getElem?_replace_ne d.closed apart).trans there, rest⟩

end

/-- What has been written to a connection. -/
def written (s : Switchboard) (id : Nat) : List String :=
  (s.subscribers[id]?.map (·.written)).getD []

theorem written_eq {s : Switchboard} {id : Nat} {d : Subscriber}
    (here : s.subscribers[id]? = some d) : written s id = d.written := by
  rw [written, here]
  rfl

theorem written_congr {s s' : Switchboard} {id : Nat}
    (same : s'.subscribers[id]? = s.subscribers[id]?) : written s' id = written s id := by
  rw [written, same, written]

/-- Some connections have been brought up to date, and nothing else has happened. -/
structure Updated (h : Hub) (s s' : Switchboard) (ids : List Nat) : Prop where
  relay : s'.relay = s.relay
  sound : s'.Sound
  moved : ∀ id position, id ∈ ids → (id, position) ∈ h.seats →
    ∃ d, s'.subscribers[id]? = some d ∧ d.live = true ∧ d.backlog = [] ∧
      d.position = s.relay.channel.tip ∧
      d.written = written s id ++ s.relay.linesFor id position
  kept : ∀ id, id ∉ ids → s'.subscribers[id]? = s.subscribers[id]?

/-- Connections are brought up to date one after the other. -/
theorem Mirrors.exists_updated {h : Hub} {s : Switchboard} (mirrors : h.Mirrors s) {ids : List Nat}
    (distinct : ids.Nodup) (seated : ∀ id ∈ ids, ∃ position, (id, position) ∈ h.seats) :
    ∃ moves, Updated h s (s.run moves) ids := by
  induction ids with
  | nil =>
    exact ⟨[], rfl, mirrors.sound, fun _ _ member => absurd member List.not_mem_nil, fun _ _ => rfl⟩
  | cons id rest ih =>
    obtain ⟨new, distinct⟩ := List.nodup_cons.1 distinct
    obtain ⟨moves, updated⟩ :=
      ih distinct fun other member => seated other (List.mem_cons_of_mem _ member)
    obtain ⟨position, seat⟩ := seated id List.mem_cons_self
    obtain ⟨d, here, live, backlog, rfl⟩ := mirrors.placed id position seat
    have there := (updated.kept id new).trans here
    obtain ⟨turns, lagged, run⟩ := Switchboard.exists_run_linesFor there live backlog
      (updated.sound.placed id d there)
    have sound := updated.sound.run (List.replicate turns (.turn id))
    refine ⟨moves ++ List.replicate turns (.turn id), ?_⟩
    rw [Switchboard.run_append]
    rw [run] at sound ⊢
    refine ⟨updated.relay, sound, fun other place member seat' => ?_, fun other absent => ?_⟩
    · rcases List.mem_cons.1 member with rfl | member
      · refine ⟨_, Switchboard.getElem?_replace _ there, rfl, rfl, ?_, ?_⟩
        · rw [updated.relay]
        · rw [written_eq here, mirrors.position_eq seat seat', updated.relay]
      · have apart : other ≠ id := fun same => new (same ▸ member)
        obtain ⟨d', found, rest⟩ := updated.moved other place member seat'
        exact ⟨d', (Switchboard.getElem?_replace_ne _ _ apart).trans found, rest⟩
    · obtain ⟨apart, absent⟩ := not_or.1 (List.mem_cons.not.1 absent)
      exact (Switchboard.getElem?_replace_ne _ _ apart).trans (updated.kept other absent)

/-- A hub whose positions are those of the connections that were brought up to date. -/
theorem Mirrors.updated {h h' : Hub} {s s' : Switchboard} {ids : List Nat} (mirrors : h.Mirrors s)
    (updated : Updated h s s' ids) (seated : ∀ id ∈ ids, ∃ position, (id, position) ∈ h.seats)
    (relay : h'.relay = h.relay) (distinct : (h'.seats.map (·.1)).Nodup)
    (seats : ∀ id position, (id, position) ∈ h'.seats ↔
      id ∈ ids ∧ position = h.relay.channel.tip ∨ id ∉ ids ∧ (id, position) ∈ h.seats) :
    h'.Mirrors s' where
  relay := by rw [relay, mirrors.relay, updated.relay]
  sound := updated.sound
  distinct := distinct
  connected id live := by
    by_cases member : id ∈ ids
    · exact ⟨_, (seats id _).2 (.inl ⟨member, rfl⟩)⟩
    · rw [Switchboard.isLive, updated.kept id member, ← Switchboard.isLive] at live
      obtain ⟨position, seat⟩ := mirrors.connected id live
      exact ⟨position, (seats id position).2 (.inr ⟨member, seat⟩)⟩
  placed id position seat := by
    rcases (seats id position).1 seat with ⟨member, rfl⟩ | ⟨absent, seat⟩
    · obtain ⟨before, seat⟩ := seated id member
      obtain ⟨d, here, live, backlog, tip, -⟩ := updated.moved id before member seat
      exact ⟨d, here, live, backlog, by rw [tip, mirrors.relay]⟩
    · obtain ⟨d, here, rest⟩ := mirrors.placed id position seat
      exact ⟨d, (updated.kept id absent).trans here, rest⟩

/-- What a list of lines for connections has for one of them. -/
def linesOf (received : List (Nat × List String)) (id : Nat) : List String :=
  (received.filter (·.1 = id)).flatMap (·.2)

/-- A step of the hub is a run of its connections, and the lines it gives are those that are written
in the run. -/
def Follows (s : Switchboard) (received : List (Nat × List String)) (h : Hub) : Prop :=
  ∃ moves, h.Mirrors (s.run moves) ∧
    ∀ id, written (s.run moves) id = written s id ++ linesOf received id

theorem Mirrors.refl {h : Hub} {s : Switchboard} (mirrors : h.Mirrors s) : Follows s [] h :=
  ⟨[], mirrors, fun _ => (List.append_nil _).symm⟩

theorem linesOf_append (front back : List (Nat × List String)) (id : Nat) :
    linesOf (front ++ back) id = linesOf front id ++ linesOf back id := by
  rw [linesOf, List.filter_append, List.flatMap_append]
  rfl

theorem Follows.trans {s : Switchboard} {h h' : Hub} {received later : List (Nat × List String)}
    (follows : Follows s received h) (next : ∀ {s'}, h.Mirrors s' → Follows s' later h') :
    Follows s (received ++ later) h' := by
  obtain ⟨moves, mirrors, all⟩ := follows
  obtain ⟨rest, mirrors', more⟩ := next mirrors
  refine ⟨moves ++ rest, ?_, fun id => ?_⟩
  · rw [Switchboard.run_append]
    exact mirrors'
  · rw [Switchboard.run_append, more, all, linesOf_append, List.append_assoc]

theorem linesOf_single (id other : Nat) (lines : List String) :
    linesOf [(id, lines)] other = if id = other then lines else [] := by
  by_cases same : id = other <;> simp [linesOf, same]

/-! ## The steps of a hub -/

theorem find?_seat {h : Hub} {id : Nat} {c : Connection}
    (found : h.connections.find? (·.id = id) = some c) :
    c.id = id ∧ (id, c.position) ∈ h.seats := by
  have same : c.id = id := by simpa using List.find?_some found
  refine ⟨same, ?_⟩
  rw [← same]
  exact List.mem_map.2 ⟨c, List.mem_of_find?_eq_some found, rfl⟩

theorem seats_fetch {h : Hub} {id : Nat} {c : Connection}
    (found : h.connections.find? (·.id = id) = some c) :
    (h.fetch id).2.seats = h.seats.filter (·.1 ≠ id) ++ [(id, h.relay.channel.tip)] := by
  obtain ⟨same, -⟩ := find?_seat found
  unfold fetch seats
  rw [found]
  simp only [List.map_append, List.map_cons, List.map_nil, List.filter_map, same]
  rfl

theorem Mirrors.fetch {h : Hub} {s : Switchboard} (mirrors : h.Mirrors s) (id : Nat) :
    Follows s [(id, (h.fetch id).1)] (h.fetch id).2 := by
  cases found : h.connections.find? (·.id = id) with
  | none =>
    have nothing : h.fetch id = ([], h) := by
      unfold Hub.fetch
      rw [found]
    rw [nothing]
    refine ⟨[], mirrors, fun other => ?_⟩
    rw [linesOf_single, ite_self, List.append_nil]
    rfl
  | some c =>
    obtain ⟨same, seat⟩ := find?_seat found
    have seated : ∀ other ∈ [id], ∃ position, (other, position) ∈ h.seats := by
      intro other member
      obtain rfl := List.mem_singleton.1 member
      exact ⟨_, seat⟩
    obtain ⟨moves, updated⟩ := mirrors.exists_updated (by simp) seated
    have given : (h.fetch id).1 = h.relay.linesFor id c.position := by
      unfold Hub.fetch
      rw [found]
    have relay : (h.fetch id).2.relay = h.relay := by
      unfold Hub.fetch
      rw [found]
    refine ⟨moves, mirrors.updated updated seated relay ?_ ?_, fun other => ?_⟩
    · rw [seats_fetch found, List.map_append, List.nodup_append]
      refine ⟨mirrors.distinct.sublist (List.Sublist.map _ List.filter_sublist), by simp, ?_⟩
      intro other member last behind
      obtain ⟨seat', kept, rfl⟩ := List.mem_map.1 member
      obtain rfl := List.mem_singleton.1 behind
      exact of_decide_eq_true (List.mem_filter.1 kept).2
    · intro other position
      rw [seats_fetch found, List.mem_append, List.mem_filter, List.mem_singleton,
        List.mem_singleton, Prod.mk.injEq, decide_eq_true_iff]
      constructor
      · rintro (⟨seat, apart⟩ | ⟨rfl, rfl⟩)
        · exact .inr ⟨apart, seat⟩
        · exact .inl ⟨rfl, rfl⟩
      · rintro (⟨rfl, rfl⟩ | ⟨apart, seat⟩)
        · exact .inr ⟨rfl, rfl⟩
        · exact .inl ⟨seat, apart⟩
    · rw [linesOf_single, given]
      by_cases apart : id = other
      · subst apart
        obtain ⟨d, there, -, -, -, lines⟩ := updated.moved id _ (List.mem_singleton.2 rfl) seat
        rw [written_eq there, lines, if_pos rfl, mirrors.relay]
      · rw [if_neg apart, List.append_nil]
        exact written_congr
          (updated.kept other fun member => apart (List.mem_singleton.1 member).symm)

theorem linesOf_cons (first : Nat × List String) (rest : List (Nat × List String)) (id : Nat) :
    linesOf (first :: rest) id = (if first.1 = id then first.2 else []) ++ linesOf rest id := by
  rw [← linesOf_single]
  exact linesOf_append [first] rest id

theorem linesOf_nonempty (received : List (Nat × List String)) (id : Nat) :
    linesOf (received.filter (!·.2.isEmpty)) id = linesOf received id := by
  induction received with
  | nil => rfl
  | cons first rest ih =>
    obtain ⟨other, lines⟩ := first
    cases lines with
    | nil => simp [linesOf_cons, ih]
    | cons line lines => simp [linesOf_cons, ih]

theorem linesOf_of_absent {received : List (Nat × List String)} {id : Nat}
    (absent : id ∉ received.map (·.1)) : linesOf received id = [] := by
  induction received with
  | nil => rfl
  | cons first rest ih =>
    obtain ⟨apart, absent⟩ := not_or.1 (List.mem_cons.not.1 absent)
    rw [linesOf_cons, if_neg (Ne.symm apart), ih absent, List.append_nil]

theorem linesOf_of_mem {received : List (Nat × List String)}
    (distinct : (received.map (·.1)).Nodup) {id : Nat} {lines : List String}
    (member : (id, lines) ∈ received) : linesOf received id = lines := by
  induction received with
  | nil => cases member
  | cons first rest ih =>
    obtain ⟨new, distinct⟩ := List.nodup_cons.1 distinct
    rw [linesOf_cons]
    rcases List.mem_cons.1 member with rfl | later
    · rw [if_pos rfl, linesOf_of_absent new, List.append_nil]
    · have apart : first.1 ≠ id := by
        rintro rfl
        exact new (List.mem_map.2 ⟨_, later, rfl⟩)
      rw [if_neg apart, List.nil_append, ih distinct later]

theorem Mirrors.flush {h : Hub} {s : Switchboard} (mirrors : h.Mirrors s) :
    Follows s h.flush.1 h.flush.2 := by
  have seats : h.flush.2.seats = h.seats.map fun seat => (seat.1, h.relay.channel.tip) := by
    simp [Hub.flush, Hub.seats]
  have received : h.flush.1 = (h.seats.map fun seat =>
      (seat.1, h.relay.linesFor seat.1 seat.2)).filter (!·.2.isEmpty) := by
    simp [Hub.flush, Hub.seats, Function.comp_def]
  have numbers : (h.seats.map fun seat => (seat.1, h.relay.linesFor seat.1 seat.2)).map (·.1) =
      h.seats.map (·.1) := List.map_map
  have seated : ∀ id ∈ h.seats.map (·.1), ∃ position, (id, position) ∈ h.seats := by
    intro id member
    obtain ⟨seat, here, rfl⟩ := List.mem_map.1 member
    exact ⟨seat.2, here⟩
  obtain ⟨moves, updated⟩ := mirrors.exists_updated mirrors.distinct seated
  refine ⟨moves, mirrors.updated updated seated rfl ?_ ?_, fun id => ?_⟩
  · rw [seats, List.map_map]
    exact mirrors.distinct
  · intro id position
    rw [seats, List.mem_map]
    constructor
    · rintro ⟨seat, here, same⟩
      obtain ⟨rfl, rfl⟩ := Prod.mk.inj same
      exact .inl ⟨List.mem_map.2 ⟨seat, here, rfl⟩, rfl⟩
    · rintro (⟨member, rfl⟩ | ⟨absent, seat⟩)
      · obtain ⟨before, seat⟩ := seated id member
        exact ⟨_, seat, rfl⟩
      · exact absurd (List.mem_map.2 ⟨_, seat, rfl⟩) absent
  · rw [received, linesOf_nonempty]
    by_cases member : id ∈ h.seats.map (·.1)
    · obtain ⟨position, seat⟩ := seated id member
      obtain ⟨d, there, -, -, -, lines⟩ := updated.moved id position member seat
      rw [written_eq there, lines,
        linesOf_of_mem (by rw [numbers]; exact mirrors.distinct) (List.mem_map.2 ⟨_, seat, rfl⟩),
        mirrors.relay]
    · rw [linesOf_of_absent (by rwa [numbers]), List.append_nil]
      exact written_congr (updated.kept id member)

theorem getElem?_join_ne {s : Switchboard} (sound : s.Sound) {id : Nat}
    (apart : id ≠ s.relay.joined) : (s.step .join).subscribers[id]? = s.subscribers[id]? := by
  rw [sound.numbered] at apart
  rcases Nat.lt_or_gt_of_ne apart with earlier | later
  · exact List.getElem?_append_left earlier
  · rw [List.getElem?_eq_none (Nat.le_of_lt later)]
    refine List.getElem?_eq_none ?_
    rw [Switchboard.length_step]
    exact later

theorem Mirrors.connect {h : Hub} {s : Switchboard} (mirrors : h.Mirrors s) :
    Follows s [(h.connect.1.id, h.connect.1.backlog)] h.connect.2 := by
  have relay := mirrors.relay
  have joined : (s.step .join).subscribers[s.relay.joined]? = some (.admitted s.relay.join.1) := by
    rw [mirrors.sound.numbered]
    exact List.getElem?_concat_length
  have run := Switchboard.run_backlog joined rfl
  have sound := (mirrors.sound.step .join).run
    (List.replicate s.relay.history.length (.turn s.relay.joined))
  have others : ∀ id ≠ s.relay.joined, ((s.step .join).run
      (List.replicate s.relay.history.length (.turn s.relay.joined))).subscribers[id]? =
        s.subscribers[id]? := by
    intro id apart
    refine Eq.trans ?_ (getElem?_join_ne mirrors.sound apart)
    exact (congrArg (·.subscribers[id]?) run).trans (Switchboard.getElem?_replace_ne _ _ apart)
  have own : ((s.step .join).run
      (List.replicate s.relay.history.length (.turn s.relay.joined))).subscribers[s.relay.joined]? =
        some ⟨[], s.relay.channel.tip, s.relay.history, false, true⟩ :=
    (congrArg (·.subscribers[s.relay.joined]?) run).trans (Switchboard.getElem?_replace _ joined)
  have seats : h.connect.2.seats = h.seats ++ [(s.relay.joined, s.relay.channel.tip)] := by
    rw [← relay, Hub.seats, Hub.seats, Hub.connect]
    simp [Relay.join]
  refine ⟨.join :: List.replicate s.relay.history.length (.turn s.relay.joined), ?_, fun id => ?_⟩
  · rw [Switchboard.run_cons]
    refine ⟨?_, sound, ?_, fun id live => ?_, fun id position seat => ?_⟩
    · exact (congrArg (·.join.2) relay).trans (congrArg (·.relay) run).symm
    · rw [seats, List.map_append, List.nodup_append]
      refine ⟨mirrors.distinct, by simp, ?_⟩
      intro id member last behind
      obtain ⟨seat, here, rfl⟩ := List.mem_map.1 member
      obtain rfl := List.mem_singleton.1 behind
      exact Nat.ne_of_lt (relay ▸ mirrors.lt_joined here)
    · rw [seats]
      by_cases same : id = s.relay.joined
      · subst same
        exact ⟨_, List.mem_append_right _ (List.mem_singleton.2 rfl)⟩
      · rw [Switchboard.isLive, others id same, ← Switchboard.isLive] at live
        obtain ⟨position, seat⟩ := mirrors.connected id live
        exact ⟨position, List.mem_append_left _ seat⟩
    · rw [seats, List.mem_append, List.mem_singleton] at seat
      rcases seat with seat | last
      · obtain ⟨d, here, rest⟩ := mirrors.placed id position seat
        have apart : id ≠ s.relay.joined := Nat.ne_of_lt (relay ▸ mirrors.lt_joined seat)
        exact ⟨d, (others id apart).trans here, rest⟩
      · obtain ⟨rfl, rfl⟩ := Prod.mk.inj last
        exact ⟨_, own, rfl, rfl, rfl⟩
  · rw [Switchboard.run_cons, linesOf_single]
    have number : h.connect.1.id = s.relay.joined := congrArg Relay.joined relay
    have backlog : h.connect.1.backlog = s.relay.history := congrArg Relay.history relay
    rw [number, backlog]
    by_cases same : s.relay.joined = id
    · subst same
      have unknown : s.subscribers[s.relay.joined]? = none := by
        rw [mirrors.sound.numbered]
        exact List.getElem?_eq_none (Nat.le_refl _)
      rw [written_eq own, if_pos rfl, written, unknown]
      rfl
    · rw [if_neg same, List.append_nil]
      exact written_congr (others id (Ne.symm same))

theorem Mirrors.put {h : Hub} {s : Switchboard} (mirrors : h.Mirrors s) (id : Nat)
    (change : Inflow → Inflow) : (h.put id change).Mirrors s := by
  refine mirrors.congr rfl ?_
  unfold Hub.put Hub.seats
  rw [List.map_map]
  refine List.map_congr_left fun c _ => ?_
  by_cases same : c.id = id <;> simp [same]

theorem written_leave {h : Hub} {s : Switchboard} (mirrors : h.Mirrors s) {id position : Nat}
    (seat : (id, position) ∈ h.seats) (other : Nat) :
    written (s.step (.leave id)) other = written s other := by
  obtain ⟨d, here, live, -⟩ := mirrors.placed id position seat
  rw [Switchboard.step_leave here live]
  by_cases same : other = id
  · subst same
    exact (written_eq (Switchboard.getElem?_replace d.closed here)).trans (written_eq here).symm
  · exact written_congr (s.getElem?_replace_ne d.closed same)

/-- What is taken from a connection is published, and a connection that ends leaves. -/
theorem Mirrors.take {h : Hub} {s : Switchboard} (mirrors : h.Mirrors s) {c : Connection}
    (seat : (c.id, c.position) ∈ h.seats) : Follows s [] (h.take c).2 := by
  let published : Hub := { h with
    relay := (c.reader.readAll c.inflow).lines.foldl (Relay.publish c.id) h.relay }
  have publishing : Follows s [] published := by
    refine ⟨_, mirrors.publish seat _, fun id => ?_⟩
    rw [Switchboard.run_publish (mirrors.isLive seat)]
    exact (List.append_nil _).symm
  have leaving : Follows s [] (published.drop c.id) := by
    refine publishing.trans fun mirrors' => ⟨[.leave c.id], mirrors'.drop seat, fun id => ?_⟩
    exact (written_leave mirrors' seat id).trans (List.append_nil _).symm
  unfold Hub.take
  dsimp only
  split
  · obtain ⟨moves, mirrors', all⟩ := publishing
    refine ⟨moves, mirrors'.congr rfl ?_, all⟩
    unfold Hub.seats
    rw [List.map_map]
    refine List.map_congr_left fun other member => ?_
    by_cases same : other.id = c.id
    · have seat' : (c.id, other.position) ∈ h.seats := same ▸ List.mem_map.2 ⟨other, member, rfl⟩
      simp [same, mirrors.position_eq seat seat']
    · simp [same]
  · exact leaving
  · exact leaving

/-! ## Runs of a hub -/

/-- What happens at a hub: somebody connects, something arrives on a connection, a connection is
served, or a connection is looked at and everybody is brought up to date. -/
inductive Op where
  | connect
  | put (id : Nat) (change : Inflow → Inflow)
  | serve (id : Nat)
  | arrive (id : Nat) (change : Inflow → Inflow)

/-- The lines for connections that a step gives, and the hub after it. -/
def apply (h : Hub) : Op → List (Nat × List String) × Hub
  | .connect => ([(h.connect.1.id, h.connect.1.backlog)], h.connect.2)
  | .put id change => ([], h.put id change)
  | .serve id => ([(id, (h.serve id).1)], (h.serve id).2)
  | .arrive id change => ((h.arrive id change).1.received, (h.arrive id change).2)

def play (h : Hub) : List Op → List (Nat × List String) × Hub
  | [] => ([], h)
  | op :: rest => ((h.apply op).1 ++ ((h.apply op).2.play rest).1, ((h.apply op).2.play rest).2)

theorem Mirrors.serve {h : Hub} {s : Switchboard} (mirrors : h.Mirrors s) (id : Nat) :
    Follows s [(id, (h.serve id).1)] (h.serve id).2 := by
  unfold Hub.serve
  cases found : h.connections.find? (·.id = id) with
  | none =>
    refine ⟨[], mirrors, fun other => ?_⟩
    rw [linesOf_single, ite_self, List.append_nil]
    rfl
  | some c =>
    obtain ⟨same, seat⟩ := find?_seat found
    rw [← same] at seat
    exact (mirrors.take seat).trans fun mirrors' => mirrors'.fetch id

theorem Mirrors.arrive {h : Hub} {s : Switchboard} (mirrors : h.Mirrors s) (id : Nat)
    (change : Inflow → Inflow) :
    Follows s (h.arrive id change).1.received (h.arrive id change).2 := by
  unfold Hub.arrive
  cases found : h.connections.find? (·.id = id) with
  | none => exact mirrors.refl
  | some c =>
    obtain ⟨same, seat⟩ := find?_seat found
    rw [← same] at seat
    exact Follows.trans (mirrors.take (c := { c with inflow := change c.inflow }) seat)
      fun mirrors' => mirrors'.flush

theorem Mirrors.apply {h : Hub} {s : Switchboard} (mirrors : h.Mirrors s) (op : Op) :
    Follows s (h.apply op).1 (h.apply op).2 := by
  cases op with
  | connect => exact mirrors.connect
  | put id change => exact (mirrors.put id change).refl
  | serve id => exact mirrors.serve id
  | arrive id change => exact mirrors.arrive id change

/-- Whatever happens at a hub is a run of its connections, and what it gives for a connection is
what is written to that connection in the run. -/
theorem play_follows {h : Hub} {s : Switchboard} (mirrors : h.Mirrors s) (ops : List Op) :
    Follows s (h.play ops).1 (h.play ops).2 := by
  induction ops generalizing h s with
  | nil => exact mirrors.refl
  | cons op rest ih => exact (mirrors.apply op).trans fun mirrors' => ih mirrors'

theorem new_play_follows (limits : Limits) (ops : List Op) :
    Follows (.start limits) ((new limits).play ops).1 ((new limits).play ops).2 :=
  play_follows (mirrors_new limits) ops

end Hub

end RingAgreement
