import Mathlib.Data.List.Induction
import RingAgreement.Proofs.Relay.Run
/-!
What a relay remembers and what it writes. The history is made of the first lines of the run, and a
connection that keeps up gets the history of the moment it joined, then every line of the others,
until it leaves.
-/

namespace RingAgreement

namespace Relay

namespace Switchboard

/-! ## The history -/

theorem remember_eq_take {r : Relay} (within : r.history.length ≤ r.limits.maxHistoryLines)
    (line : String) : r.remember line = (r.history ++ [line]).take r.limits.maxHistoryLines := by
  unfold remember
  split
  next room => rw [List.take_of_length_le (by simp; omega)]
  next full => rw [List.take_append_of_le_length (by omega), List.take_of_length_le within]

theorem take_take_append (max : Nat) (front back : List String) :
    (front.take max ++ back).take max = (front ++ back).take max := by
  rw [List.take_append, List.take_append, List.take_take, Nat.min_self, List.length_take]
  rcases Nat.le_total front.length max with within | full
  · rw [Nat.min_eq_right within]
  · rw [Nat.min_eq_left full, Nat.sub_self, Nat.sub_eq_zero_of_le full]

/-- As long as a connection is live, the history takes the lines that are published. -/
theorem history_step_of_live {s : Switchboard} (sound : s.Sound) (m : Move)
    (within : s.relay.history.length ≤ s.relay.limits.maxHistoryLines)
    (live : 0 < (s.step m).live) :
    (s.step m).relay.history =
      (s.relay.history ++ (s.sends m).map (·.2)).take s.relay.limits.maxHistoryLines := by
  have same : s.relay.history = (s.relay.history ++ []).take s.relay.limits.maxHistoryLines := by
    rw [List.append_nil, List.take_of_length_le within]
  cases m with
  | join => exact same
  | publish who line =>
    unfold step sends
    dsimp only
    split
    · unfold publish
      cases Envelope.ofJson line with
      | ok e => exact remember_eq_take within line
      | error error => exact same
    · exact same
  | turn who =>
    unfold step sends
    dsimp only
    split <;> exact same
  | leave who =>
    rw [← (sound.step _).counted] at live
    unfold step sends at *
    dsimp only at *
    split at live
    next here =>
      have more : ¬ s.relay.live ≤ 1 := by
        change 0 < s.relay.live - 1 at live
        omega
      rw [if_pos here]
      exact (if_neg more).trans same
    next gone =>
      rw [if_neg gone]
      exact same

theorem live_pos_of_isLive {s : Switchboard} {id : Nat} (here : s.isLive id = true) :
    0 < s.live := by
  obtain ⟨c, found, live⟩ := isLive_iff.1 here
  exact List.countP_pos_iff.2 ⟨c, List.mem_of_getElem? found, live⟩

/-- The last connection that leaves takes the history with it. -/
theorem history_step_of_empty {s : Switchboard} (sound : s.Sound) (m : Move)
    (forgotten : s.live = 0 → s.relay.history = []) (empty : (s.step m).live = 0) :
    (s.step m).relay.history = [] := by
  rw [← (sound.step m).counted] at empty
  have counted := sound.counted
  cases m with
  | join => exact absurd empty (Nat.succ_ne_zero _)
  | publish who line =>
    cases here : s.isLive who with
    | true =>
      have some_live := live_pos_of_isLive here
      simp only [step, here, if_true, live_publish] at empty
      omega
    | false =>
      rw [(step_of_not_live here line).1] at empty ⊢
      exact forgotten (by omega)
  | turn who =>
    have same : (s.step (.turn who)).relay = s.relay := by
      cases here : s.isLive who <;> simp [step, here]
    rw [same] at empty ⊢
    exact forgotten (by omega)
  | leave who =>
    cases here : s.isLive who with
    | true =>
      simp only [step, here, if_true, leave] at empty ⊢
      exact if_pos (by omega)
    | false =>
      rw [(step_of_not_live here "").2.2] at empty ⊢
      exact forgotten (by omega)

/-- A run cut at the last moment without a live connection: the history is made of the first lines
that are published after it. -/
theorem history_run (limits : Limits) (moves : List Move) :
    ∃ before after, moves = before ++ after ∧ ((start limits).run before).live = 0 ∧
      (∀ front, front ≠ [] → front <+: after → 0 < ((start limits).run (before ++ front)).live) ∧
      ((start limits).run moves).relay.history =
        ((((start limits).run before).published after).map (·.2)).take limits.maxHistoryLines := by
  induction moves using List.reverseRecOn with
  | nil =>
    refine ⟨[], [], rfl, rfl, ?_, List.take_nil.symm⟩
    exact fun front some_moves none => absurd (List.prefix_nil.1 none) some_moves
  | append_singleton moves m ih =>
    obtain ⟨before, after, rfl, empty, busy, history⟩ := ih
    have sound := (sound_start limits).run (before ++ after)
    have last : (start limits).run (before ++ after ++ [m]) =
        ((start limits).run (before ++ after)).step m := run_append _ _ _
    have limited : ((start limits).run (before ++ after)).relay.limits = limits :=
      limits_run _ _
    have within : ((start limits).run (before ++ after)).relay.history.length ≤
        limits.maxHistoryLines := by
      rw [history]
      exact List.length_take_le _ _
    rcases Nat.eq_zero_or_pos ((start limits).run (before ++ after ++ [m])).live with
      none | some_live
    · refine ⟨before ++ after ++ [m], [], (List.append_nil _).symm, none, ?_, ?_⟩
      · exact fun front some_moves nothing => absurd (List.prefix_nil.1 nothing) some_moves
      · rw [last] at none ⊢
        rw [published, List.map_nil, List.take_nil]
        refine history_step_of_empty sound m (fun empty => ?_) none
        obtain rfl : after = [] := by
          by_contra some_moves
          exact absurd (busy after some_moves (List.prefix_refl _)) (by omega)
        rw [history, published, List.map_nil, List.take_nil]
    · refine ⟨before, after ++ [m], List.append_assoc _ _ _, empty, ?_, ?_⟩
      · intro front some_moves within
        rcases List.prefix_concat_iff.1 within with rfl | earlier
        · rw [← List.append_assoc]
          exact some_live
        · exact busy front some_moves earlier
      · rw [last] at some_live ⊢
        rw [history_step_of_live sound m (by rw [limited]; exact within) some_live, limited,
          history, published_append, List.map_append, run_append, published, published,
          List.append_nil]
        exact take_take_append _ _ _

/-! ## The connections -/

/-- What a connection has got, and what it still gets of what has been published. -/
def owed (s : Switchboard) (id : Nat) (c : Subscriber) : List String :=
  c.written ++ c.backlog ++ others id (s.relay.channel.log.drop c.position)

theorem lagged_turn {r : Relay} {id : Nat} {c : Subscriber} (kept : (c.turn r id).lagged = false) :
    c.lagged = false ∧ (c.backlog = [] → r.channel.hasMissed c.position = false) := by
  unfold Subscriber.turn at kept
  split at kept
  next backlog => exact ⟨kept, fun none => absurd (backlog.symm.trans none) (List.cons_ne_nil _ _)⟩
  next =>
    obtain ⟨before, keeps⟩ := Bool.or_eq_false_iff.1 kept
    exact ⟨before, fun _ => keeps⟩

/-- A turn of a connection that keeps up writes what comes next. -/
theorem owed_turn {s : Switchboard} {id : Nat} {c : Subscriber}
    (keeps : c.backlog = [] → s.relay.channel.hasMissed c.position = false) :
    s.owed id (c.turn s.relay id) = s.owed id c := by
  unfold Subscriber.turn
  split
  next line rest backlog => simp [owed, backlog]
  next backlog =>
    rcases Nat.lt_or_ge c.position s.relay.channel.tip with behind | tip
    · obtain ⟨entry, next⟩ := Channel.exists_drop_eq_cons behind
      rw [receive_next id (keeps backlog) next]
      simp only [owed, backlog, List.append_nil, List.append_assoc]
      rw [next]
      exact congrArg (c.written ++ ·) (others_cons id _ _).symm
    · rw [receive_at_tip id (keeps backlog) tip]
      simp [owed, backlog]

theorem lagged_moved {r : Relay} {id : Nat} {c : Subscriber} {m : Move}
    (kept : (c.moved r id m).lagged = false) : c.lagged = false := by
  unfold Subscriber.moved at kept
  split at kept
  · split at kept
    · exact (lagged_turn kept).1
    · exact kept
  · split at kept <;> exact kept
  · exact kept

theorem moved_of_not_live (r : Relay) (id : Nat) {c : Subscriber} (gone : c.live = false)
    (m : Move) : c.moved r id m = c := by
  cases m <;> simp [Subscriber.moved, gone]

theorem live_moved (r : Relay) (id : Nat) {c : Subscriber} (live : c.live = true) {m : Move}
    (stays : m ≠ .leave id) : (c.moved r id m).live = true := by
  cases m with
  | turn who =>
    unfold Subscriber.moved
    dsimp only
    split
    · rw [live_turn, live]
    · exact live
  | leave who =>
    have apart : who ≠ id := fun same => stays (congrArg Move.leave same)
    simp [Subscriber.moved, apart, live]
  | _ => exact live

/-- As long as it does not leave, a connection gets every line that the others publish. -/
theorem owed_moved {s : Switchboard} (sound : s.Sound) {id : Nat} {c : Subscriber}
    (here : s.subscribers[id]? = some c) {m : Move} (stays : m ≠ .leave id)
    (kept : (c.moved s.relay id m).lagged = false) :
    (s.step m).owed id (c.moved s.relay id m) = s.owed id c ++ others id (s.sends m) := by
  have same : s.owed id (c.moved s.relay id m) = s.owed id c := by
    cases m with
    | turn who =>
      unfold Subscriber.moved at kept ⊢
      dsimp only at kept ⊢
      split
      next live =>
        rw [if_pos live] at kept
        exact owed_turn (lagged_turn kept).2
      · rfl
    | leave who =>
      have apart : who ≠ id := fun same => stays (congrArg Move.leave same)
      simp [Subscriber.moved, apart]
    | _ => rfl
  have placed := position_moved_le id m (sound.placed id c here)
  rw [← same, owed, owed, log_step, List.drop_append_of_le_length (by rwa [Channel.length_log]),
    others_append, List.append_assoc]
  simp only [List.append_assoc]

/-- A connection over a whole run. It gets every line of the others, in their order, and when it has
left it has got a first part of them. -/
theorem delivered_run {s : Switchboard} (sound : s.Sound) {id : Nat} {c : Subscriber}
    (here : s.subscribers[id]? = some c) (moves : List Move) :
    ∃ c', (s.run moves).subscribers[id]? = some c' ∧
      (c.live = false → c' = c) ∧
      (c'.lagged = false → c.lagged = false ∧ (c.live = true →
        c'.written <+: s.owed id c ++ s.forwarded id moves ∧
        (c'.live = true → (s.run moves).owed id c' = s.owed id c ++ s.forwarded id moves))) := by
  induction moves generalizing s c with
  | nil =>
    refine ⟨c, here, fun _ => rfl, fun kept => ⟨kept, fun _ => ⟨?_, fun _ => ?_⟩⟩⟩
    · rw [forwarded, List.append_nil, owed, List.append_assoc]
      exact List.prefix_append _ _
    · rw [forwarded, List.append_nil]
      rfl
  | cons m rest ih =>
    obtain ⟨c', there, still, delivered⟩ := ih (sound.step m) (s.getElem?_step m here)
    refine ⟨c', there, fun gone => ?_, fun kept => ?_⟩
    · rw [moved_of_not_live _ _ gone] at still
      exact still gone
    obtain ⟨before, delivered⟩ := delivered kept
    refine ⟨lagged_moved before, fun live => ?_⟩
    by_cases stays : m = .leave id
    · have closed : c.moved s.relay id m = c.closed := by simp [stays, Subscriber.moved, live]
      have last : c' = c.closed := (still (by rw [closed]; rfl)).trans closed
      subst last
      refine ⟨?_, fun live => ?_⟩
      · rw [owed, List.append_assoc, List.append_assoc]
        exact List.prefix_append _ _
      · cases live
    · have sent := owed_moved sound here stays before
      have all : s.owed id c ++ s.forwarded id (m :: rest) =
          (s.step m).owed id (c.moved s.relay id m) ++ (s.step m).forwarded id rest := by
        rw [forwarded, isLive_eq here, if_pos live, sent, List.append_assoc]
      rw [all]
      exact delivered (live_moved _ _ live stays)

/-- A live connection that has not missed anything writes all that it still gets in its next
turns. -/
theorem caught_up {s : Switchboard} {id : Nat} {c : Subscriber}
    (here : s.subscribers[id]? = some c) (live : c.live = true)
    (kept : s.relay.channel.hasMissed c.position = false) {turns : Nat}
    (enough : turns = c.backlog.length + (s.relay.channel.tip - c.position)) :
    ∃ c', (s.run (List.replicate turns (.turn id))).subscribers[id]? = some c' ∧
      c'.live = true ∧ c'.lagged = c.lagged ∧ c'.written = s.owed id c := by
  induction turns generalizing s c with
  | zero =>
    refine ⟨c, here, live, rfl, ?_⟩
    have backlog : c.backlog = [] := List.eq_nil_of_length_eq_zero (by omega)
    have tip : s.relay.channel.log.length ≤ c.position := by rw [Channel.length_log]; omega
    simp [owed, backlog, List.drop_eq_nil_of_le tip]
  | succ turns ih =>
    have turned : c.moved s.relay id (.turn id) = c.turn s.relay id := if_pos ⟨live, rfl⟩
    have there := s.getElem?_step (.turn id) here
    rw [turned] at there
    have same : (s.step (.turn id)).relay = s.relay := by
      simp [step, isLive_eq here, live]
    obtain ⟨lagged, keeps, fewer⟩ : (c.turn s.relay id).lagged = c.lagged ∧
        s.relay.channel.hasMissed (c.turn s.relay id).position = false ∧
        turns = (c.turn s.relay id).backlog.length +
          (s.relay.channel.tip - (c.turn s.relay id).position) := by
      unfold Subscriber.turn
      split
      next line rest backlog =>
        rw [backlog, List.length_cons] at enough
        exact ⟨rfl, kept, by dsimp only; omega⟩
      next backlog =>
        rw [backlog, List.length_nil] at enough
        have behind : c.position < s.relay.channel.tip := by omega
        obtain ⟨entry, next⟩ := Channel.exists_drop_eq_cons behind
        rw [receive_next id kept next, kept, backlog]
        refine ⟨Bool.or_false _, ?_, ?_⟩
        · rw [Channel.hasMissed_eq_false] at kept ⊢
          dsimp only
          omega
        · dsimp only [List.length_nil]
          omega
    obtain ⟨c', found, stays, lagged', written⟩ :=
      ih there ((live_turn _ _ _).trans live) (by rw [same]; exact keeps)
        (by rw [same]; exact fewer)
    refine ⟨c', found, stays, lagged'.trans lagged, ?_⟩
    rw [written, owed, same]
    exact owed_turn fun _ => kept

theorem length_run_le (s : Switchboard) (moves : List Move) :
    s.subscribers.length ≤ (s.run moves).subscribers.length := by
  induction moves generalizing s with
  | nil => exact Nat.le_refl _
  | cons m rest ih =>
    refine Nat.le_trans ?_ (ih (s.step m))
    rw [length_step]
    exact Nat.le_add_right _ _

/-- Only connections that have joined publish. -/
theorem origin_lt_of_sends {s : Switchboard} {m : Move} {entry : Nat × String}
    (sent : entry ∈ s.sends m) : entry.1 < s.subscribers.length := by
  unfold sends at sent
  split at sent
  next id line =>
    split at sent
    next live =>
      obtain ⟨c, here, -⟩ := isLive_iff.1 live
      split at sent
      · obtain rfl := List.mem_singleton.1 sent
        exact (List.getElem?_eq_some_iff.1 here).1
      · cases sent
    · cases sent
  · cases sent

theorem origin_lt_of_published {s : Switchboard} {moves : List Move} {entry : Nat × String}
    (sent : entry ∈ s.published moves) : entry.1 < (s.run moves).subscribers.length := by
  induction moves generalizing s with
  | nil => cases sent
  | cons m rest ih =>
    rcases List.mem_append.1 sent with now | later
    · exact Nat.lt_of_lt_of_le (origin_lt_of_sends now) (s.length_run_le (m :: rest))
    · exact ih later

/-- What a connection has got, and what it still gets, when it has just joined. -/
theorem owed_admitted (s : Switchboard) (id : Nat) :
    (s.step .join).owed id (.admitted s.relay.join.1) = s.relay.history := by
  have tip : s.relay.channel.log.drop s.relay.channel.tip = [] :=
    List.drop_eq_nil_of_le (Nat.le_of_eq (Channel.length_log _))
  change [] ++ s.relay.history ++ others id (s.relay.channel.log.drop s.relay.channel.tip) = _
  rw [tip, others_nil, List.append_nil, List.nil_append]

/-- The history is always the first lines since no connection was live. A connection gets the
history of the moment it joins and then what the others publish, nothing twice and nothing of its
own; and a line that is no envelope reaches nobody. -/
theorem lines_relayed (limits : Limits) (moves : List Move) :
    (∃ before after, moves = before ++ after ∧ ((start limits).run before).live = 0 ∧
      (∀ front, front ≠ [] → front <+: after → 0 < ((start limits).run (before ++ front)).live) ∧
      ((start limits).run moves).relay.history =
        ((((start limits).run before).published after).map (·.2)).take limits.maxHistoryLines) ∧
    (∀ earlier later, moves = earlier ++ .join :: later →
      let s := (start limits).run earlier
      let id := s.relay.joined
      let due := s.relay.history ++ (s.step .join).forwarded id later
      (s.step .join).subscribers[id]? =
        some ⟨s.relay.history, s.relay.channel.tip, [], false, true⟩ ∧
      (∀ entry ∈ (start limits).published earlier, entry.1 ≠ id) ∧
      ∃ c, ((start limits).run moves).subscribers[id]? = some c ∧
        (c.lagged = false → c.written <+: due ∧
          (c.live = true →
            ((start limits).run moves).relay.channel.hasMissed c.position = false →
            ∃ turns c', ((start limits).run
                (moves ++ List.replicate turns (.turn id))).subscribers[id]? = some c' ∧
              c'.live = true ∧ c'.lagged = false ∧ c'.written = due))) ∧
    ∀ id line error, Envelope.ofJson line = .error error →
      ((start limits).run moves).step (.publish id line) = (start limits).run moves := by
  refine ⟨history_run limits moves, fun earlier later parts => ?_, fun id line error undecodable =>
    step_publish_error _ id undecodable⟩
  intro s id due
  subst parts
  have sound : s.Sound := (sound_start limits).run earlier
  have joined : (s.step .join).subscribers[id]? = some (.admitted s.relay.join.1) := by
    rw [show id = s.subscribers.length from sound.numbered]
    exact List.getElem?_concat_length
  refine ⟨joined, fun entry sent own => ?_, ?_⟩
  · have before := origin_lt_of_published sent
    rw [← sound.numbered, own] at before
    exact Nat.lt_irrefl _ before
  obtain ⟨c, here, -, delivered⟩ := delivered_run (sound.step .join) joined later
  rw [owed_admitted] at delivered
  have whole : (start limits).run (earlier ++ .join :: later) = (s.step .join).run later :=
    run_append _ _ _
  rw [whole]
  refine ⟨c, here, fun kept => ?_⟩
  obtain ⟨front, rest⟩ := (delivered kept).2 rfl
  refine ⟨front, fun live keeps => ?_⟩
  obtain ⟨turns, enough⟩ : ∃ turns, turns = c.backlog.length +
      (((s.step .join).run later).relay.channel.tip - c.position) := ⟨_, rfl⟩
  obtain ⟨c', there, stays, lagged, written⟩ := caught_up here live keeps enough
  refine ⟨turns, c', ?_, stays, lagged.trans kept, written.trans (rest live)⟩
  rw [run_append, whole]
  exact there

/-- Two connections: the second joins behind a first line, and has got that one when the first has
published another and it has published one itself. -/
def talk : List Move :=
  [.join, .publish 0 "[0, -1, 3, \"AA==\"]", .join, .publish 0 "[0, -1, 3, \"AQ==\"]",
    .publish 1 "[1, -1, 3, \"Ag==\"]", .turn 1]

def talkLimits : Limits := ⟨64, 4, 3⟩

theorem lines_relayed_talk :
    (∃ turns c, ((start talkLimits).run (talk ++ List.replicate turns (.turn 1))).subscribers[1]? =
        some c ∧ c.written = ["[0, -1, 3, \"AA==\"]", "[0, -1, 3, \"AQ==\"]"]) ∧
      ((start talkLimits).run talk).step (.publish 0 "text") = (start talkLimits).run talk := by
  obtain ⟨-, served, dropped⟩ := lines_relayed talkLimits talk
  obtain ⟨-, -, c, here, delivered⟩ :=
    served (talk.take 2)
      [.publish 0 "[0, -1, 3, \"AQ==\"]", .publish 1 "[1, -1, 3, \"Ag==\"]", .turn 1] rfl
  have found : ((start talkLimits).run talk).subscribers[1]? =
      some ⟨[], 1, ["[0, -1, 3, \"AA==\"]"], false, true⟩ := by decide +kernel
  obtain rfl := Option.some.inj (here.symm.trans found)
  obtain ⟨-, reached⟩ := delivered rfl
  obtain ⟨turns, c', there, -, -, written⟩ := reached rfl (by decide +kernel)
  have due : ((start talkLimits).run (talk.take 2)).relay.history ++
      (((start talkLimits).run (talk.take 2)).step .join).forwarded 1
        [.publish 0 "[0, -1, 3, \"AQ==\"]", .publish 1 "[1, -1, 3, \"Ag==\"]", .turn 1] =
      ["[0, -1, 3, \"AA==\"]", "[0, -1, 3, \"AQ==\"]"] := by decide +kernel
  exact ⟨⟨turns, c', there, written.trans due⟩, dropped 0 "text" .json (by decide +kernel)⟩

end Switchboard

end Relay

end RingAgreement
