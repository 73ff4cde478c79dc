import Mathlib.Data.List.Basic
import RingAgreement.Proofs.Relay.Receive
/-!
A relay and all its connections, in small steps: a connection joins, publishes a line, writes one
line of its backlog or receives one item of the channel, and leaves. The steps of different
connections may interleave in any order.
-/

namespace RingAgreement

namespace Relay

/-- The relay's side of a connection, and what has been written to it. -/
structure Subscriber where
  /-- Lines of the run so far that are not written yet. -/
  backlog : List String
  position : Nat
  written : List String
  /-- Whether it has ever been too far behind to receive everything. -/
  lagged : Bool
  live : Bool
deriving DecidableEq, Repr

namespace Subscriber

def admitted (a : Admission) : Subscriber := ⟨a.backlog, a.position, [], false, true⟩

def closed (c : Subscriber) : Subscriber := { c with live := false }

/-- Writes the next line of the backlog; behind the backlog, receives from the channel. -/
def turn (r : Relay) (id : Nat) (c : Subscriber) : Subscriber :=
  match c.backlog with
  | line :: rest => { c with backlog := rest, written := c.written ++ [line] }
  | [] =>
    { c with
      position := (r.receive id c.position).2
      written := c.written ++ (r.receive id c.position).1
      lagged := c.lagged || r.channel.hasMissed c.position }

end Subscriber

inductive Move where
  | join
  | publish (id : Nat) (line : String)
  | turn (id : Nat)
  | leave (id : Nat)
deriving DecidableEq, Repr

/-- What a move does to the connection at a number. -/
def Subscriber.moved (r : Relay) (id : Nat) (c : Subscriber) : Move → Subscriber
  | .turn who => if c.live ∧ who = id then c.turn r id else c
  | .leave who => if c.live ∧ who = id then c.closed else c
  | _ => c

/-- A relay with all connections it has ever had; a connection stands at its number. -/
structure Switchboard where
  relay : Relay
  subscribers : List Subscriber
deriving DecidableEq, Repr

@[simp] theorem joined_publish (r : Relay) (id : Nat) (line : String) :
    (r.publish id line).joined = r.joined := by
  unfold publish
  split <;> rfl

@[simp] theorem live_publish (r : Relay) (id : Nat) (line : String) :
    (r.publish id line).live = r.live := by
  unfold publish
  split <;> rfl

@[simp] theorem limits_publish (r : Relay) (id : Nat) (line : String) :
    (r.publish id line).limits = r.limits := by
  unfold publish
  split <;> rfl

namespace Switchboard

def start (limits : Limits) : Switchboard := ⟨.new limits, []⟩

def isLive (s : Switchboard) (id : Nat) : Bool := s.subscribers[id]?.any (·.live)

/-- The number of connections that are live. -/
def live (s : Switchboard) : Nat := s.subscribers.countP (·.live)

/-- Only live connections do anything. -/
def step (s : Switchboard) : Move → Switchboard
  | .join => ⟨s.relay.join.2, s.subscribers ++ [.admitted s.relay.join.1]⟩
  | .publish id line => if s.isLive id then { s with relay := s.relay.publish id line } else s
  | .turn id =>
    if s.isLive id then { s with subscribers := s.subscribers.modify id (·.turn s.relay id) } else s
  | .leave id =>
    if s.isLive id then ⟨s.relay.leave, s.subscribers.modify id (·.closed)⟩ else s

def run (s : Switchboard) (moves : List Move) : Switchboard := moves.foldl step s

theorem run_cons (s : Switchboard) (m : Move) (rest : List Move) :
    s.run (m :: rest) = (s.step m).run rest := rfl

theorem run_append (s : Switchboard) (front back : List Move) :
    s.run (front ++ back) = (s.run front).run back := List.foldl_append

/-- The lines that a move publishes, with their origin: those that are envelopes. -/
def sends (s : Switchboard) : Move → List (Nat × String)
  | .publish id line =>
    if s.isLive id then
      match Envelope.ofJson line with
      | .ok _ => [(id, line)]
      | .error _ => []
    else []
  | _ => []

/-- The lines that are published in a run, in their order. -/
def published (s : Switchboard) : List Move → List (Nat × String)
  | [] => []
  | m :: rest => s.sends m ++ (s.step m).published rest

/-- The lines that the others publish in a run while a connection is live. -/
def forwarded (s : Switchboard) (id : Nat) : List Move → List String
  | [] => []
  | m :: rest =>
    (if s.isLive id then others id (s.sends m) else []) ++ (s.step m).forwarded id rest

theorem published_append (s : Switchboard) (front back : List Move) :
    s.published (front ++ back) = s.published front ++ (s.run front).published back := by
  induction front generalizing s with
  | nil => rfl
  | cons m front ih =>
    rw [List.cons_append, published, published, ih, List.append_assoc]
    rfl

/-! ## Single moves -/

theorem isLive_iff {s : Switchboard} {id : Nat} :
    s.isLive id = true ↔ ∃ c, s.subscribers[id]? = some c ∧ c.live = true := by
  rw [isLive, Option.any_eq_true]

theorem step_of_not_live {s : Switchboard} {id : Nat} (gone : s.isLive id = false) (line : String) :
    s.step (.publish id line) = s ∧ s.step (.turn id) = s ∧ s.step (.leave id) = s := by
  simp [step, gone]

/-- A line that is no envelope reaches nobody. -/
theorem step_publish_error (s : Switchboard) (id : Nat) {line : String} {error : WireError}
    (undecodable : Envelope.ofJson line = .error error) : s.step (.publish id line) = s := by
  unfold step
  dsimp only
  split
  · rw [publish, undecodable]
  · rfl

/-- What a move adds to the channel. -/
theorem log_step (s : Switchboard) (m : Move) :
    (s.step m).relay.channel.log = s.relay.channel.log ++ s.sends m := by
  cases m with
  | join => simp [step, sends, join]
  | publish id line =>
    cases live : s.isLive id with
    | false => simp [step, sends, live]
    | true =>
      cases read : Envelope.ofJson line with
      | ok e => simp [step, sends, live, publish, read]
      | error error => simp [step, sends, live, publish, read]
  | turn id =>
    simp only [step, sends, List.append_nil]
    split <;> rfl
  | leave id =>
    simp only [step, sends, List.append_nil]
    split <;> rfl

theorem limits_step (s : Switchboard) (m : Move) : (s.step m).relay.limits = s.relay.limits := by
  cases m with
  | join => rfl
  | publish id line => cases live : s.isLive id <;> simp [step, live]
  | turn id => cases live : s.isLive id <;> simp [step, live]
  | leave id => cases live : s.isLive id <;> simp [step, live, leave]

/-! ## Turns -/

theorem receive_le_tip {r : Relay} {position : Nat} (id : Nat) (placed : position ≤ r.channel.tip) :
    (r.receive id position).2 ≤ r.channel.tip := by
  cases missed : r.channel.hasMissed position with
  | true =>
    rw [receive_of_hasMissed id missed]
    exact Nat.sub_le _ _
  | false =>
    rcases Nat.lt_or_ge position r.channel.tip with behind | tip
    · obtain ⟨entry, next⟩ := Channel.exists_drop_eq_cons behind
      rw [receive_next id missed next]
      exact behind
    · rw [receive_at_tip id missed tip]
      exact placed

theorem position_turn_le {r : Relay} {c : Subscriber} (id : Nat)
    (placed : c.position ≤ r.channel.tip) : (c.turn r id).position ≤ r.channel.tip := by
  unfold Subscriber.turn
  split
  · exact placed
  · exact receive_le_tip id placed

theorem live_turn (r : Relay) (id : Nat) (c : Subscriber) : (c.turn r id).live = c.live := by
  unfold Subscriber.turn
  split <;> rfl

/-! ## The numbers -/

/-- The relay's numbers are those of its connections, and no connection is ahead of the channel. -/
structure Sound (s : Switchboard) : Prop where
  numbered : s.relay.joined = s.subscribers.length
  counted : s.relay.live = s.live
  placed : ∀ (id : Nat) (c : Subscriber), s.subscribers[id]? = some c →
    c.position ≤ s.relay.channel.tip

theorem sound_start (limits : Limits) : (start limits).Sound where
  numbered := rfl
  counted := rfl
  placed := by simp [start]

theorem tip_le_step (s : Switchboard) (m : Move) :
    s.relay.channel.tip ≤ (s.step m).relay.channel.tip := by
  rw [← Channel.length_log, ← Channel.length_log, log_step, List.length_append]
  exact Nat.le_add_right _ _

theorem countP_modify {subscribers : List Subscriber} {id : Nat} {c : Subscriber}
    (here : subscribers[id]? = some c) (live : c.live = true) (change : Subscriber → Subscriber) :
    (subscribers.modify id change).countP (·.live) + 1 =
      subscribers.countP (·.live) + if (change c).live then 1 else 0 := by
  obtain ⟨within, rfl⟩ := List.getElem?_eq_some_iff.1 here
  have positive : 0 < subscribers.countP (·.live) :=
    List.countP_pos_iff.2 ⟨_, List.getElem_mem within, live⟩
  rw [List.modify_eq_set_getElem?, here]
  simp only [Option.map_eq_map, Option.map_some, Option.getD_some]
  rw [List.countP_set within, if_pos live]
  omega

theorem isLive_eq {s : Switchboard} {id : Nat} {c : Subscriber}
    (here : s.subscribers[id]? = some c) : s.isLive id = c.live := by
  rw [isLive, here, Option.any_some]

/-- A connection that does something while it is live. -/
theorem getElem?_change (s : Switchboard) (who : Nat) (change : Subscriber → Subscriber) {id : Nat}
    {c : Subscriber} (here : s.subscribers[id]? = some c) :
    (if s.isLive who then s.subscribers.modify who change else s.subscribers)[id]? =
      some (if c.live ∧ who = id then change c else c) := by
  by_cases same : who = id
  · subst same
    rw [isLive_eq here]
    by_cases live : c.live = true
    · rw [if_pos live, if_pos ⟨live, rfl⟩, List.getElem?_modify_eq, here]
      rfl
    · rw [if_neg live, if_neg fun both => live both.1, here]
  · rw [if_neg fun both : _ ∧ who = id => same both.2]
    cases s.isLive who with
    | true =>
      rw [if_pos rfl, List.getElem?_modify, here]
      simp [same]
    | false => exact here

/-- What a move does to the connection at a number. -/
theorem getElem?_step (s : Switchboard) (m : Move) {id : Nat} {c : Subscriber}
    (here : s.subscribers[id]? = some c) :
    (s.step m).subscribers[id]? = some (c.moved s.relay id m) := by
  cases m with
  | join =>
    have within : id < s.subscribers.length := (List.getElem?_eq_some_iff.1 here).1
    exact (List.getElem?_append_left within).trans here
  | publish who line =>
    have same : (s.step (.publish who line)).subscribers = s.subscribers := by
      unfold step
      dsimp only
      split <;> rfl
    rw [same]
    exact here
  | turn who =>
    have changed := s.getElem?_change who (·.turn s.relay who) here
    have same : (s.step (.turn who)).subscribers =
        if s.isLive who then s.subscribers.modify who (·.turn s.relay who) else s.subscribers := by
      unfold step
      dsimp only
      split <;> rfl
    rw [same, changed]
    congr 1
    unfold Subscriber.moved
    split
    next both => rw [both.2]; exact (if_pos ⟨both.1, rfl⟩).symm
    next apart => exact (if_neg apart).symm
  | leave who =>
    have changed := s.getElem?_change who (·.closed) here
    have same : (s.step (.leave who)).subscribers =
        if s.isLive who then s.subscribers.modify who (·.closed) else s.subscribers := by
      unfold step
      dsimp only
      split <;> rfl
    rw [same]
    exact changed

theorem length_step (s : Switchboard) (m : Move) :
    (s.step m).subscribers.length = s.subscribers.length + if m = .join then 1 else 0 := by
  cases m with
  | join => simp [step]
  | publish who line => cases live : s.isLive who <;> simp [step, live]
  | turn who => cases live : s.isLive who <;> simp [step, live]
  | leave who => cases live : s.isLive who <;> simp [step, live]

theorem numbered_step {s : Switchboard} (sound : s.Sound) (m : Move) :
    (s.step m).relay.joined = (s.step m).subscribers.length := by
  rw [length_step, ← sound.numbered]
  cases m with
  | join => rfl
  | publish who line => cases live : s.isLive who <;> simp [step, live]
  | turn who => cases live : s.isLive who <;> simp [step, live]
  | leave who => cases live : s.isLive who <;> simp [step, live, leave]

theorem counted_step {s : Switchboard} (sound : s.Sound) (m : Move) :
    (s.step m).relay.live = (s.step m).live := by
  have counted := sound.counted
  cases m with
  | join =>
    rw [Switchboard.live, step, List.countP_append, ← Switchboard.live, ← counted]
    rfl
  | publish who line =>
    cases live : s.isLive who with
    | true => simpa [step, live, Switchboard.live] using counted
    | false => rwa [(step_of_not_live live line).1]
  | turn who =>
    unfold step
    dsimp only
    split
    next live =>
      obtain ⟨c, here, live⟩ := isLive_iff.1 live
      have count := countP_modify here live (·.turn s.relay who)
      rw [live_turn, if_pos live] at count
      change s.relay.live = List.countP _ (s.subscribers.modify who _)
      rw [Nat.add_right_cancel count]
      exact counted
    · exact counted
  | leave who =>
    unfold step
    dsimp only
    split
    next live =>
      obtain ⟨c, here, live⟩ := isLive_iff.1 live
      have count := countP_modify here live (·.closed)
      change s.relay.live - 1 = List.countP _ (s.subscribers.modify who _)
      rw [counted, Switchboard.live]
      simp only [Subscriber.closed, Bool.false_eq_true, if_false, Nat.add_zero] at count
      exact Nat.sub_eq_of_eq_add count.symm
    · exact counted

theorem position_moved_le {r : Relay} {c : Subscriber} (id : Nat) (m : Move)
    (placed : c.position ≤ r.channel.tip) : (c.moved r id m).position ≤ r.channel.tip := by
  unfold Subscriber.moved
  split
  · split
    · exact position_turn_le id placed
    · exact placed
  · split <;> exact placed
  · exact placed

theorem Sound.step {s : Switchboard} (sound : s.Sound) (m : Move) : (s.step m).Sound where
  numbered := numbered_step sound m
  counted := counted_step sound m
  placed id c here := by
    cases before : s.subscribers[id]? with
    | some old =>
      obtain rfl := Option.some.inj ((s.getElem?_step m before).symm.trans here)
      exact Nat.le_trans (position_moved_le id m (sound.placed id old before)) (s.tip_le_step m)
    | none =>
      have beyond := List.getElem?_eq_none_iff.1 before
      have within := (List.getElem?_eq_some_iff.1 here).1
      rw [length_step] at within
      obtain rfl : m = .join := by
        by_contra other
        rw [if_neg other] at within
        omega
      rw [if_pos rfl] at within
      obtain rfl : id = s.subscribers.length := by omega
      have new : (s.step .join).subscribers[s.subscribers.length]? =
          some (.admitted s.relay.join.1) := List.getElem?_concat_length
      obtain rfl := Option.some.inj (new.symm.trans here)
      exact Nat.le_refl _

theorem limits_run (s : Switchboard) (moves : List Move) :
    (s.run moves).relay.limits = s.relay.limits := by
  induction moves generalizing s with
  | nil => rfl
  | cons m rest ih => exact (ih (s.step m)).trans (s.limits_step m)

theorem Sound.run {s : Switchboard} (sound : s.Sound) (moves : List Move) :
    (s.run moves).Sound := by
  induction moves generalizing s with
  | nil => exact sound
  | cons m rest ih => exact ih (sound.step m)

end Switchboard
end Relay
end RingAgreement
