import Mathlib.Algebra.BigOperators.Fin
import Mathlib.Algebra.Order.BigOperators.Group.Finset
import RingAgreement.Proofs.Medium.Run
import RingAgreement.Proofs.Medium.Schedule
/-!
Quiescence. When all honest parties were started and all messages were taken, nobody waits: all
parties are established, and each has sent one message of each of the three kinds.
-/

namespace RingAgreement

namespace Medium

variable {n : Nat} {ρ : Type}

/-- All messages of a medium have been handed to all other parties at a later time. -/
def Cleared (w w' : Medium n ρ) : Prop :=
  ∀ number p, w.posted[number]? = some p → ∀ receiver, receiver ≠ p.origin →
    (number, receiver) ∈ w'.delivered

/-- Everyone was started, and everything that was ever sent has been handed to everyone else. -/
structure Quiescent (w : Medium n ρ) : Prop where
  started : ∀ i, i ∈ w.started
  cleared : w.Cleared w

theorem Cleared.later {w w' w'' : Medium n ρ} (cleared : w.Cleared w') (later : w'.Later w'') :
    w.Cleared w'' :=
  fun number p sent receiver other => later.delivered _ (cleared number p sent receiver other)

end Medium

namespace HonestRing

variable {K : Kem} {ring : HonestRing K} {ρ : Type} {w w' : Medium ring.roster.size ρ}

/-- A message that must have been sent by a time has been taken when all messages of that time have
been handed out. -/
theorem Consistent.taken_of_cleared (consistent : ring.Consistent w)
    (consistent' : ring.Consistent w') (later : w.Later w') (cleared : w.Cleared w')
    {i j : Fin ring.roster.size} (other : j ≠ i) {kind : MessageKind}
    (due : (w.session i).tally kind = 1) : Taken i j kind (w'.session j) := by
  have present : (i, kind) ∈ w.posted.map (·.stamp) := by
    rw [consistent.sound.stamp_mem, due]
    exact Nat.one_pos
  obtain ⟨p, member, stamp⟩ := List.mem_map.1 present
  obtain ⟨rfl, rfl⟩ := Prod.mk.inj stamp
  obtain ⟨number, sent⟩ := List.mem_iff_getElem?.1 member
  obtain ⟨p', sent', taken⟩ := consistent'.taken number j (cleared number p sent j other)
  obtain rfl := Option.some.inj ((later.sent sent).symm.trans sent')
  exact taken

/-- Once the offers have been handed out, everyone has the key of its left link. -/
theorem Consistent.keyLeft_of_cleared (consistent : ring.Consistent w)
    (consistent' : ring.Consistent w') (later : w.Later w') (cleared : w.Cleared w')
    (initiated : ∀ i, (w.session i).progress.initiated = true) (i : Fin ring.roster.size) :
    (w'.session i).progress.keyLeft.isSome := by
  have due : (w.session (ring.roster.left i)).tally .akeInit = 1 := by
    simp [Session.tally, initiated]
  have taken := consistent.taken_of_cleared consistent' later cleared
    (ring.roster.left_ne i).symm due
  exact taken.offer rfl (ring.roster.right_left i).symm

/-- Once the answers have been handed out, everyone has the key of its right link. -/
theorem Consistent.keyRight_of_cleared (consistent : ring.Consistent w)
    (consistent' : ring.Consistent w') (later : w.Later w') (cleared : w.Cleared w')
    (keyed : ∀ i, (w.session i).progress.keyLeft.isSome) (i : Fin ring.roster.size) :
    (w'.session i).progress.keyRight.isSome := by
  have due : (w.session (ring.roster.right i)).tally .akeRespond = 1 := by
    simp [Session.tally, keyed]
  have taken := consistent.taken_of_cleared consistent' later cleared
    (ring.roster.right_ne i).symm due
  exact taken.response rfl (ring.roster.left_right i).symm

/-- What a ring has reached in which all links are made: nobody has anything left to send. -/
structure Linked (ring : HonestRing K) (w : Medium ring.roster.size ρ) : Prop where
  initiated : ∀ i, (w.session i).progress.initiated = true
  keyLeft : ∀ i, (w.session i).progress.keyLeft.isSome
  contributed : ∀ i : Fin ring.roster.size, ((w.session i).slot i).isSome

theorem Consistent.linked (consistent : ring.Consistent w)
    (initiated : ∀ i, (w.session i).progress.initiated = true)
    (keyLeft : ∀ i, (w.session i).progress.keyLeft.isSome)
    (keyRight : ∀ i, (w.session i).progress.keyRight.isSome) : ring.Linked w where
  initiated := initiated
  keyLeft := keyLeft
  contributed := by
    intro i
    rw [← consistent.sound.own_eq i]
    exact consistent.prompt i (keyRight i) (keyLeft i)

theorem Linked.tally_eq_one (linked : ring.Linked w) (consistent : ring.Consistent w)
    (i : Fin ring.roster.size) {kind : MessageKind}
    (ours : kind ∈ [MessageKind.akeInit, .akeRespond, .shareBroadcast]) :
    (w.session i).tally kind = 1 := by
  have contributed := linked.contributed i
  rw [← consistent.sound.own_eq i] at contributed
  simp only [List.mem_cons, List.not_mem_nil, or_false] at ours
  rcases ours with rfl | rfl | rfl
  · simp [Session.tally, linked.initiated i]
  · simp [Session.tally, linked.keyLeft i]
  · simp [Session.tally, contributed]

/-- All messages on the medium are accounted for by what the parties have reached. -/
theorem Sound.length_posted {session : Fin ring.roster.size → Session}
    {posted : List (Posted ring.roster.size)} (sound : ring.Sound session posted) :
    posted.length = ∑ i, ((session i).tally .akeInit +
      ((session i).tally .akeRespond + (session i).tally .shareBroadcast)) := by
  let stamps : Multiset (Fin ring.roster.size × MessageKind) := posted.map (·.stamp)
  let kinds : Finset MessageKind := {.akeInit, .akeRespond, .shareBroadcast}
  have ours : ∀ stamp ∈ stamps, stamp ∈ Finset.univ ×ˢ kinds := by
    intro stamp member
    obtain ⟨p, present, rfl⟩ := List.mem_map.1 (Multiset.mem_coe.1 member)
    obtain ⟨payload, carried, backed⟩ := sound.backed p present
    have kind : p.stamp.2 = payload.kind := congrArg (·.envelope.kind) carried
    rw [Finset.mem_product, kind]
    refine ⟨Finset.mem_univ _, ?_⟩
    cases backed
    all_goals simp [kinds, Payload.kind]
  have total := Multiset.sum_count_eq_card ours
  rw [Finset.sum_product] at total
  have size : Multiset.card stamps = posted.length := by simp [stamps]
  rw [← size, ← total]
  refine Finset.sum_congr rfl fun i _ => ?_
  have counted : ∀ kind, stamps.count (i, kind) = (session i).tally kind := by
    intro kind
    rw [← sound.counted i kind, Multiset.coe_count]
    exact List.countP_congr fun stamp _ => by simp
  rw [Finset.sum_insert (by decide), Finset.sum_insert (by decide), Finset.sum_singleton]
  simp only [counted]

theorem Consistent.length_posted_le (consistent : ring.Consistent w) :
    w.posted.length ≤ 3 * ring.roster.size := by
  have each : ∀ i : Fin ring.roster.size, (w.session i).tally .akeInit +
      ((w.session i).tally .akeRespond + (w.session i).tally .shareBroadcast) ≤ 3 := by
    intro i
    have initiated := Bool.toNat_le (w.session i).progress.initiated
    have keyLeft := Bool.toNat_le (w.session i).progress.keyLeft.isSome
    have contributed := Bool.toNat_le ((w.session i).slot (w.session i).own).isSome
    simp only [Session.tally]
    omega
  rw [consistent.sound.length_posted]
  refine (Finset.sum_le_sum fun i _ => each i).trans_eq ?_
  rw [Finset.sum_const, Finset.card_univ, Fintype.card_fin, smul_eq_mul, Nat.mul_comm]

theorem Linked.length_posted (linked : ring.Linked w) (consistent : ring.Consistent w) :
    w.posted.length = 3 * ring.roster.size := by
  have each : ∀ i : Fin ring.roster.size, (w.session i).tally .akeInit +
      ((w.session i).tally .akeRespond + (w.session i).tally .shareBroadcast) = 3 := by
    intro i
    rw [linked.tally_eq_one consistent i (by simp), linked.tally_eq_one consistent i (by simp),
      linked.tally_eq_one consistent i (by simp)]
  rw [consistent.sound.length_posted, Finset.sum_congr rfl fun i _ => each i, Finset.sum_const,
    Finset.card_univ, Fintype.card_fin, smul_eq_mul, Nat.mul_comm]

/-! ## No stall -/

theorem Consistent.linked_of_quiescent (consistent : ring.Consistent w)
    (quiescent : w.Quiescent) : ring.Linked w := by
  have initiated := fun i => (consistent.begun i).1 (quiescent.started i)
  have keyLeft := consistent.keyLeft_of_cleared consistent (.refl w) quiescent.cleared initiated
  have keyRight := consistent.keyRight_of_cleared consistent (.refl w) quiescent.cleared keyLeft
  exact consistent.linked initiated keyLeft keyRight

theorem Consistent.established_of_quiescent (consistent : ring.Consistent w)
    (quiescent : w.Quiescent) (i : Fin ring.roster.size) :
    (w.session i).state = .established := by
  have linked := consistent.linked_of_quiescent quiescent
  have filled : ∀ j : Fin ring.roster.size, ((w.session i).slot j).isSome := by
    intro j
    by_cases own : i = j
    · subst own
      exact linked.contributed i
    · have due : (w.session j).tally .shareBroadcast = 1 :=
        linked.tally_eq_one consistent j (by simp)
      exact (consistent.taken_of_cleared consistent (.refl w) quiescent.cleared own due).share rfl
  obtain ⟨c, verified⟩ := consistent.sound.verified i filled
  exact (consistent.coherent i).keyed.2 ((consistent.coherent i).exhausted c verified)

variable [RandomSource ρ]

theorem Consistent.cleared_sweep (consistent : ring.Consistent w) :
    w.Cleared (w.run K (Medium.sweep ring.roster.size)) := by
  intro number p sent receiver other
  obtain ⟨inside, _⟩ := List.getElem?_eq_some_iff.1 sent
  have early := Nat.lt_of_lt_of_le inside consistent.length_posted_le
  exact w.delivered_of_mem K (Medium.mem_sweep early receiver) sent other.symm

/-- Once everyone has started, three rounds are enough: the first hands out the offers, the second
the answers and the third the contributions, whatever else they hand out. -/
theorem Consistent.quiescent_of_sweeps (correct : K.Correct) (consistent : ring.Consistent w)
    (started : ∀ i, i ∈ w.started) :
    (((w.run K (Medium.sweep ring.roster.size)).run K (Medium.sweep _)).run K
      (Medium.sweep _)).Quiescent := by
  have cleared0 := consistent.cleared_sweep
  have later0 := w.later_run K (Medium.sweep _)
  have consistent1 := consistent.run correct (Medium.sweep _)
  generalize w.run K (Medium.sweep _) = w1 at *
  have cleared1 := consistent1.cleared_sweep
  have later1 := w1.later_run K (Medium.sweep _)
  have consistent2 := consistent1.run correct (Medium.sweep _)
  generalize w1.run K (Medium.sweep _) = w2 at *
  have cleared2 := consistent2.cleared_sweep
  have later2 := w2.later_run K (Medium.sweep _)
  have consistent3 := consistent2.run correct (Medium.sweep _)
  generalize w2.run K (Medium.sweep _) = w3 at *
  have later := later0.trans later1
  have initiated0 := fun i => (consistent.begun i).1 (started i)
  have initiated2 := fun i => (consistent2.begun i).1 (later.started i (started i))
  have keyLeft1 := consistent.keyLeft_of_cleared consistent1 later0 cleared0 initiated0
  have keyLeft2 := consistent.keyLeft_of_cleared consistent2 later (cleared0.later later1)
    initiated0
  have keyRight2 := consistent1.keyRight_of_cleared consistent2 later1 cleared1 keyLeft1
  have full := (consistent2.linked initiated2 keyLeft2 keyRight2).length_posted consistent2
  refine ⟨fun i => (later.trans later2).started i (started i), ?_⟩
  -- The third round finds all messages there are, since there can be no more of them.
  intro number p sent receiver other
  obtain ⟨inside, _⟩ := List.getElem?_eq_some_iff.1 sent
  have early : number < w2.posted.length := by
    rw [full]
    exact Nat.lt_of_lt_of_le inside consistent3.length_posted_le
  have same := later2.sent (List.getElem?_eq_getElem early)
  obtain rfl := Option.some.inj (same.symm.trans sent)
  exact cleared2 number _ (List.getElem?_eq_getElem early) receiver other

theorem quiescent_of_starts_of_sweeps (correct : K.Correct) (ring : HonestRing K)
    (source : Fin ring.roster.size → ρ) (moves : List (Move ring.roster.size)) :
    ((ring.medium source).run K (Medium.starts _ ++
      (moves ++ Medium.sweep _ ++ Medium.sweep _ ++ Medium.sweep _))).Quiescent := by
  simp only [← List.append_assoc, Medium.run_append _ _ _ (Medium.sweep _)]
  refine (ring.consistent_run correct source _).quiescent_of_sweeps correct fun i => ?_
  exact Medium.started_of_mem K _ (List.mem_append_left moves (Medium.mem_starts i))

theorem schedule_quiescent (correct : K.Correct) (ring : HonestRing K)
    (source : Fin ring.roster.size → ρ) :
    ((ring.medium source).run K (Medium.schedule ring.roster.size)).Quiescent := by
  simpa [Medium.schedule] using quiescent_of_starts_of_sweeps correct ring source []

/-- Once all parties were started and all messages were taken, however they were ordered and
repeated, every party is established, and every party has sent one offer, one answer and one
contribution, and nothing else. -/
theorem quiescent_runs_complete (correct : K.Correct) (ring : HonestRing K)
    (source : Fin ring.roster.size → ρ) (moves : List (Move ring.roster.size))
    (quiescent : ((ring.medium source).run K moves).Quiescent) :
    let w := (ring.medium source).run K moves
    (∀ i, (w.session i).state = .established) ∧ w.posted.length = 3 * ring.roster.size ∧
    ∀ i, w.sentBy i .akeInit = 1 ∧ w.sentBy i .akeRespond = 1 ∧ w.sentBy i .shareBroadcast = 1 := by
  intro w
  have consistent := ring.consistent_run correct source moves
  have linked := consistent.linked_of_quiescent quiescent
  refine ⟨consistent.established_of_quiescent quiescent, linked.length_posted consistent,
    fun i => ⟨?_, ?_, ?_⟩⟩
  all_goals
    rw [Medium.sentBy, consistent.sound.counted]
    exact linked.tally_eq_one consistent i (by simp)

theorem trio_completes :
    let w := (trio.medium fun i => (⟨.ofNat i⟩ : DrawCounter)).run .transparent
      (Medium.schedule trio.roster.size)
    Kem.transparent.Correct ∧ w.Quiescent ∧
    (∀ i, (w.session i).state = .established) ∧ w.posted.length = 3 * trio.roster.size ∧
    ∀ i, w.sentBy i .akeInit = 1 ∧ w.sentBy i .akeRespond = 1 ∧ w.sentBy i .shareBroadcast = 1 :=
  have correct := Kem.transparent_correct
  have quiescent := schedule_quiescent correct trio fun i => (⟨.ofNat i⟩ : DrawCounter)
  ⟨correct, quiescent, quiescent_runs_complete correct trio _ _ quiescent⟩

end HonestRing

end RingAgreement
