import RingAgreement.Transport.Relay
/-!
A connection of a relay receives the channel's items one after the other. What a relay has for a
connection is what the connection gets when it receives until there is nothing left.
-/

namespace RingAgreement

namespace Channel

variable {α : Type}

/-- All items that were sent, the oldest first. -/
def log (c : Channel α) : List α := c.items.reverse

@[simp] theorem length_log (c : Channel α) : c.log.length = c.tip := List.length_reverse

@[simp] theorem log_send (c : Channel α) (item : α) : (c.send item).log = c.log ++ [item] :=
  List.reverse_cons

theorem hasMissed_eq_false {c : Channel α} {position : Nat} :
    c.hasMissed position = false ↔ c.tip - position ≤ c.capacity := by
  rw [hasMissed, decide_eq_false_iff_not, Nat.not_lt]

theorem exists_drop_eq_cons {c : Channel α} {position : Nat} (behind : position < c.tip) :
    ∃ item, c.log.drop position = item :: c.log.drop (position + 1) := by
  rw [← length_log] at behind
  exact ⟨_, List.drop_eq_getElem_cons behind⟩

/-- A receiver that has not missed anything can receive all that was sent since. -/
theorem since_eq_drop {c : Channel α} {position : Nat} (kept : c.hasMissed position = false) :
    c.since position = c.log.drop position := by
  have all : min c.capacity (c.tip - position) = c.tip - position :=
    Nat.min_eq_right (hasMissed_eq_false.1 kept)
  rw [since, all, List.reverse_take, ← log]
  change c.log.drop (c.tip - (c.tip - position)) = _
  rcases Nat.le_total position c.tip with within | beyond
  · rw [Nat.sub_sub_self within]
  · rw [List.drop_eq_nil_of_le (by rw [length_log]; omega),
      List.drop_eq_nil_of_le (by rw [length_log]; exact beyond)]

/-- What was missed does not come back: the receiver goes on at the oldest item that is kept. -/
theorem since_of_hasMissed {c : Channel α} {position : Nat} (missed : c.hasMissed position = true) :
    c.since position = c.since (c.tip - c.capacity) ∧
      c.hasMissed (c.tip - c.capacity) = false := by
  have behind : c.capacity < c.tip - position := of_decide_eq_true missed
  have kept : c.tip - (c.tip - c.capacity) = c.capacity := by omega
  constructor
  · rw [since, since, kept, Nat.min_self, Nat.min_eq_left (Nat.le_of_lt behind)]
  · exact hasMissed_eq_false.2 (Nat.le_of_eq kept)

end Channel

namespace Relay

/-- The lines among the channel's items that are not a connection's own. -/
def others (id : Nat) (entries : List (Nat × String)) : List String :=
  (entries.filter (·.1 ≠ id)).map (·.2)

@[simp] theorem others_nil (id : Nat) : others id [] = [] := rfl

@[simp] theorem others_append (id : Nat) (front back : List (Nat × String)) :
    others id (front ++ back) = others id front ++ others id back := by
  rw [others, List.filter_append, List.map_append]
  rfl

theorem others_cons (id : Nat) (entry : Nat × String) (rest : List (Nat × String)) :
    others id (entry :: rest) = others id [entry] ++ others id rest := others_append id [entry] rest

/-- What a connection at a position receives next, and its position behind that. One that has missed
items gets the history. -/
def receive (r : Relay) (id position : Nat) : List String × Nat :=
  if r.channel.hasMissed position then (r.history, r.channel.tip - r.channel.capacity)
  else
    match r.channel.since position with
    | [] => ([], position)
    | entry :: _ => (others id [entry], position + 1)

theorem receive_of_hasMissed {r : Relay} {position : Nat} (id : Nat)
    (missed : r.channel.hasMissed position = true) :
    r.receive id position = (r.history, r.channel.tip - r.channel.capacity) := if_pos missed

section

variable {r : Relay} {position : Nat} (id : Nat) (kept : r.channel.hasMissed position = false)
include kept

theorem receive_at_tip (tip : r.channel.tip ≤ position) :
    r.receive id position = ([], position) := by
  have nothing : r.channel.since position = [] := by
    rw [Channel.since_eq_drop kept]
    exact List.drop_eq_nil_of_le (by rw [Channel.length_log]; exact tip)
  rw [receive, kept, nothing]
  rfl

/-- A connection that keeps up receives the item at its position. -/
theorem receive_next {entry : Nat × String} {rest : List (Nat × String)}
    (next : r.channel.log.drop position = entry :: rest) :
    r.receive id position = (others id [entry], position + 1) := by
  rw [receive, kept, Channel.since_eq_drop kept, next]
  rfl

end

/-- The lines for a connection are what it receives next and the lines for it after that. -/
theorem linesFor_receive (r : Relay) (id position : Nat) :
    r.linesFor id position =
      (r.receive id position).1 ++ r.linesFor id (r.receive id position).2 := by
  cases missed : r.channel.hasMissed position with
  | true =>
    obtain ⟨same, kept⟩ := Channel.since_of_hasMissed missed
    rw [receive_of_hasMissed id missed]
    simp only [linesFor, missed, kept, if_true, Bool.false_eq_true, if_false, same]
  | false =>
    rcases Nat.lt_or_ge position r.channel.tip with behind | tip
    · obtain ⟨entry, next⟩ := Channel.exists_drop_eq_cons behind
      rw [receive_next id missed next]
      have kept : r.channel.hasMissed (position + 1) = false := by
        rw [Channel.hasMissed_eq_false] at missed ⊢
        omega
      simp only [linesFor, missed, kept, Bool.false_eq_true, if_false,
        Channel.since_eq_drop missed, Channel.since_eq_drop kept, next]
      exact others_cons id _ _
    · rw [receive_at_tip id missed tip, List.nil_append]

end Relay

end RingAgreement
