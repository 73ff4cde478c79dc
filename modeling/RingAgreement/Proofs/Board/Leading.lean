import RingAgreement.Proofs.Board.Progress
import RingAgreement.Proofs.Medium.Quiescence
/-!
A leader around a board. While its cluster goes on, the leader has a seat in the ring of the
leaders, and with the others there it comes to their key. Then the whole cluster can come to it.
-/

namespace RingAgreement.Board

variable {K : Kem} {ring top : HonestRing K} {ρ : Type} [RandomSource ρ]
  {b : Board ring.roster.size ρ} {l : Fin ring.roster.size} {w : Medium top.roster.size ρ}
  {p : Fin top.roster.size}

/-- A node takes part in the ring of the leaders, at a seat where it was started. -/
structure Attends (b : Board ring.roster.size ρ) (l : Fin ring.roster.size)
    (w : Medium top.roster.size ρ) (p : Fin top.roster.size) : Prop where
  session : (b.node l).session? .leader = some (w.session p)
  source : b.source l = w.source p
  started : p ∈ w.started

/-- What the seat is handed, the node can be handed. -/
theorem Attends.hand (attends : b.Attends l w p) {e : Envelope}
    (kind : e.kind ≠ .wrappedKey ∧ e.kind ≠ .appMessage) (delivered : List (Nat × Fin _)) :
    (b.hand K l (.received .leader e)).Attends l
      { w.hand K p (.received e) with delivered := delivered } p := by
  have handled : b.outcome K l (.received .leader e) = _ :=
    Node.receive_of_ring_kind attends.session kind (b.source l)
  refine ⟨?_, ?_, attends.started⟩
  · rw [hand_node_self, handled, Node.session?_handleSession, Function.update_self]
    dsimp only
    rw [Medium.hand_session_self, attends.source]
  · dsimp only [Board.hand, Medium.hand]
    rw [Function.update_self, Function.update_self, handled, Node.handleSession_source,
      attends.source]

/-- Whatever happens in the ring of the leaders, the node can follow it. -/
theorem Attends.play (attends : b.Attends l w p) (consistent : top.Consistent w)
    (move : RingAgreement.Move top.roster.size) :
    ∃ later, b.Reaches K later ∧ later.Attends l (w.play K move) p := by
  have kept {q : Fin top.roster.size} (other : p ≠ q) (event : SessionEvent)
      (started : List (Fin top.roster.size)) (kept : w.started ⊆ started)
      (delivered : List (Nat × Fin top.roster.size)) :
      b.Attends l { w.hand K q event with started := started, delivered := delivered } p :=
    ⟨attends.session.trans (congrArg some (w.hand_session_of_ne K other event).symm),
      attends.source.trans (Function.update_of_ne other _ w.source).symm, kept attends.started⟩
  cases move with
  | start q =>
    refine ⟨b, ⟨[], rfl⟩, ?_⟩
    rw [Medium.play]
    split
    next => exact attends
    next fresh =>
      have other : p ≠ q := fun same => fresh (same ▸ attends.started)
      exact kept other .start _ (List.subset_cons_self _ _) w.delivered
  | deliver number q =>
    rw [Medium.play]
    split
    next => exact ⟨b, ⟨[], rfl⟩, attends⟩
    next posted sent =>
      split
      next => exact ⟨b, ⟨[], rfl⟩, attends⟩
      next foreign =>
        by_cases here : p = q
        · subst here
          have kind := consistent.steady.not_cluster_kind (List.mem_of_getElem? sent)
          exact ⟨_, ⟨[.aside l posted.envelope], rfl⟩, attends.hand kind _⟩
        · exact ⟨b, ⟨[], rfl⟩, kept here _ w.started (List.Subset.refl _) _⟩

theorem Attends.run (correct : K.Correct) (attends : b.Attends l w p)
    (consistent : top.Consistent w) (moves : List (RingAgreement.Move top.roster.size)) :
    ∃ later, b.Reaches K later ∧ later.Attends l (w.run K moves) p := by
  induction moves generalizing b w with
  | nil => exact ⟨b, ⟨[], rfl⟩, attends⟩
  | cons move rest ih =>
    obtain ⟨later, first, attends⟩ := attends.play consistent move
    obtain ⟨last, second, attends⟩ := ih attends (consistent.run correct [move])
    exact ⟨last, first.trans second, attends⟩

/-- A node that takes part in the ring of the leaders can come to the key there. -/
theorem Attends.exists_key (correct : K.Correct) (attends : b.Attends l w p)
    (consistent : top.Consistent w) {leader : Option (Fin ring.roster.size)}
    {posted : List (Posted ring.roster.size)} (inv : Invariant ring leader b posted) :
    ∃ later posted', b.Reaches K later ∧ Invariant ring leader later posted' ∧
      ∃ k, (later.node l).groupKey .leader = some k := by
  let moves := Medium.starts top.roster.size ++ Medium.sweep _ ++ Medium.sweep _ ++ Medium.sweep _
  have started := consistent.run correct (Medium.starts _)
  have quiescent : (w.run K moves).Quiescent := by
    rw [Medium.run_append, Medium.run_append, Medium.run_append]
    exact started.quiescent_of_sweeps correct fun q => w.started_of_mem K (Medium.mem_starts q)
  have established := (consistent.run correct moves).established_of_quiescent quiescent p
  obtain ⟨later, reached, attends⟩ := attends.run correct consistent moves
  obtain ⟨run, rfl⟩ := reached
  obtain ⟨more, inv⟩ := inv.run correct run
  have session := (inv.coherent l).session .leader _ attends.session
  obtain ⟨k, keyed⟩ := Option.isSome_iff_exists.1 (session.keyed.1 established)
  refine ⟨_, _, ⟨run, rfl⟩, inv, k, ?_⟩
  rw [Node.groupKey, attends.session]
  exact keyed

/-- A leader that is started makes an offer to its cluster and another one to the other leaders. -/
theorem Invariant.exists_attends (correct : K.Correct) {posted : List (Posted ring.roster.size)}
    (inv : Invariant ring (some l) b posted) (placed : (b.node l).leader = some (top.fresh p))
    (unbegun : (b.node l).cluster.progress.initiated = false) :
    (b.hand K l .start).SentKind l .akeInit ∧ ∃ w : Medium top.roster.size ρ,
      top.Consistent w ∧ (b.hand K l .start).Attends l w p := by
  have cluster := inv.steady.coherent l
  obtain ⟨flows, -⟩ := inv.steady.sound.start correct cluster unbegun (b.source l)
  obtain ⟨offer, s, source, opened⟩ := cluster.exists_opened flows.unfailing
  have first : (b.node l).handleSession K .cluster (b.node l).cluster .start (b.source l) = _ :=
    Node.handleSession_of_sent opened
  have seat : (top.fresh p).Coherent K := Session.fresh_coherent _ _ _
  obtain ⟨flows', -⟩ := top.sound_fresh.start correct seat rfl source
  obtain ⟨offer', s', source', opened'⟩ := seat.exists_opened flows'.unfailing
  have second : ((b.node l).withSession .cluster s).handleSession K .leader (top.fresh p) .start
      source = _ := Node.handleSession_of_sent opened'
  have started : b.outcome K l .start = _ := Node.start_eq_second first rfl placed second rfl
  let w := top.medium fun _ => source
  have fresh : p ∉ w.started := List.not_mem_nil
  have played : w.play K (.start p) = { w.hand K p .start with started := [p] } := by
    rw [Medium.play, if_neg fresh]
    rfl
  have consistent := (top.medium_consistent fun _ => source).run correct [.start p]
  refine ⟨⟨⟨(b.node l).cluster.envelope (.akeInit offer), none⟩, ?_, rfl⟩, _, consistent, ?_⟩
  · refine (sent_hand b l .start).2 (.inr ⟨rfl, _, ?_, rfl⟩)
    rw [started]
    exact List.mem_cons_self
  · change (b.hand K l .start).Attends l (w.play K (.start p)) p
    rw [played]
    refine ⟨?_, ?_, List.mem_cons_self⟩
    · dsimp only
      rw [hand_node_self, started, Medium.hand_session_self]
      exact congrArg (fun outcome => some outcome.session) opened'.symm
    · dsimp only [Board.hand, Medium.hand]
      rw [Function.update_self, Function.update_self, started]
      exact congrArg (·.source) opened'.symm

/-! ## Led clusters -/

/-- New nodes in a cluster. The leader has a seat in the ring of the leaders, too. -/
def crew (ring top : HonestRing K) (l : Fin ring.roster.size) (p : Fin top.roster.size)
    (i : Fin ring.roster.size) : Node :=
  if i = l then ring.leading top i p else ring.seat .member i

/-- Where the nodes of a cluster are in the ring of the leaders. -/
def crewLeaders (ring top : HonestRing K) (l : Fin ring.roster.size) (p : Fin top.roster.size)
    (i : Fin ring.roster.size) : Option (Roster × Nat) :=
  if i = l then some (top.roster, p) else none

theorem make_crew (shared : top.pair p = ring.pair l) (i : Fin ring.roster.size) :
    Node.make ⟨ring.roster, i, crewLeaders ring top l p i, .within (some l) i⟩
      (ring.pair i).secretKey = .ok (crew ring top l p i) := by
  rw [crewLeaders, crew]
  by_cases own : i = l
  · subst own
    rw [if_pos rfl, if_pos rfl, Role.within_eq_leader.2 rfl]
    exact HonestRing.make_leading shared
  · rw [if_neg own, if_neg own, Role.within_eq_member rfl own]
    have unled : Role.member ≠ .leader := by simp
    exact ring.make_seat unled i

/-- A cluster whose leader has a seat in the ring of the leaders can come to its key. -/
theorem exists_led_keyed (correct : K.Correct) (shared : top.pair p = ring.pair l)
    (source : Fin ring.roster.size → ρ) : ∃ b posted,
      (start (crew ring top l p) source).Reaches K b ∧ Invariant ring (some l) b posted ∧
        ∀ j, ∃ key, (b.node j).clusterKey = some key := by
  have initial := Invariant.start source (crewLeaders ring top l p) (make_crew shared)
  have leading : crew ring top l p l = ring.leading top l p := if_pos rfl
  have placed : ((start (crew ring top l p) source).node l).leader = some (top.fresh p) :=
    congrArg (·.leader) leading
  have unbegun : ((start (crew ring top l p) source).node l).cluster.progress.initiated = false :=
    congrArg (·.cluster.progress.initiated) leading
  obtain ⟨offer, w, consistent, attends⟩ := initial.exists_attends correct placed unbegun
  obtain ⟨more, reacts⟩ := initial.reacts_start (j := l) correct
  have begun := initial.hand reacts
  obtain ⟨b₁, posted₁, reached₁, inv₁, k, held⟩ := attends.exists_key correct consistent begun
  obtain ⟨b₂, posted₂, reached₂, inv₂, offers⟩ := inv₁.offers_sent correct (List.finRange _)
  have offered (i : Fin ring.roster.size) : b₂.SentKind i .akeInit := by
    by_cases own : i = l
    · subst own
      exact offer.lasts (reached₁.trans reached₂)
    · exact offers i (List.mem_finRange i) fun same => own (Option.some.inj same).symm
  obtain ⟨b₃, posted₃, reached₃, inv₃, keyed⟩ := inv₂.exists_all_keyed correct offered
    fun l' leads => ⟨k, Option.some.inj leads ▸ inv₁.groupKey_later reached₂ held⟩
  exact ⟨b₃, posted₃, .trans ⟨[.start l], rfl⟩ (reached₁.trans (reached₂.trans reached₃)), inv₃,
    keyed⟩

end RingAgreement.Board
