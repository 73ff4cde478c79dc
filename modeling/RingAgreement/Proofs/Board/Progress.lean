import RingAgreement.Proofs.Board.Run
/-!
Progress around a board. A cluster can publish all that waits, and every node can read all that is
published. Three such rounds after the offers all nodes have the key of their ring, and after a
fourth one they have the key of the cluster.
-/

namespace RingAgreement.Board

/-! ## Publishing and reading -/

section Rounds

variable {n : Nat} {ρ : Type} {b later last : Board n ρ} {more rest : List (Fin n × Notice)}

/-- A later board, after nothing but the publication of some notices. -/
structure Published (b later : Board n ρ) (more : List (Fin n × Notice)) : Prop where
  node : later.node = b.node
  cursor : later.cursor = b.cursor
  log : later.log = b.log ++ more
  passed : ∀ i, ∀ m ∈ b.outbox i, m ∈ later.outbox i ∨ (i, m) ∈ more
  emptied : ∀ i, b.outbox i = [] → later.outbox i = []

theorem Published.refl (b : Board n ρ) : Published b b [] :=
  ⟨rfl, rfl, (List.append_nil _).symm, fun _ _ => .inl, fun _ => id⟩

theorem Published.trans (first : Published b later more) (second : Published later last rest) :
    Published b last (more ++ rest) where
  node := second.node.trans first.node
  cursor := second.cursor.trans first.cursor
  log := by rw [second.log, first.log, List.append_assoc]
  passed i m waiting := by
    rcases first.passed i m waiting with still | out
    · exact (second.passed i m still).imp_right (List.mem_append_right more)
    · exact .inr (List.mem_append_left rest out)
  emptied i none := second.emptied i (first.emptied i none)

theorem exists_published (b : Board n ρ) (i : Fin n) : ∃ more, Published b (b.publish i) more := by
  unfold publish
  split
  next => exact ⟨[], .refl b⟩
  next m rest first =>
    refine ⟨[(i, m)], rfl, rfl, rfl, fun j x waiting => ?_, fun j none => ?_⟩
    · dsimp only
      by_cases own : j = i
      · subst own
        rw [first] at waiting
        rw [Function.update_self, List.mem_singleton, Prod.mk.injEq]
        exact (List.mem_cons.1 waiting).symm.imp_right fun same => ⟨rfl, same⟩
      · rw [Function.update_of_ne own]
        exact .inl waiting
    · have own : j ≠ i := by
        rintro rfl
        cases first.symm.trans none
      dsimp only
      rwa [Function.update_of_ne own]

variable (K : Kem) [RandomSource ρ]

theorem run_append (b : Board n ρ) (moves rest : List (Move n)) :
    b.run K (moves ++ rest) = (b.run K moves).run K rest :=
  List.foldl_append

theorem exists_emptied (b : Board n ρ) (i : Fin n) : ∃ moves more,
    Published b (b.run K moves) more ∧ (b.run K moves).outbox i = [] := by
  generalize waiting : b.outbox i = notices
  induction notices generalizing b with
  | nil => exact ⟨[], [], .refl b, waiting⟩
  | cons m rest ih =>
    have shorter : (b.publish i).outbox i = rest := by
      rw [publish, waiting]
      exact Function.update_self ..
    obtain ⟨more, first⟩ := b.exists_published i
    obtain ⟨moves, last, second, empty⟩ := ih (b.publish i) shorter
    exact ⟨.publish i :: moves, more ++ last, first.trans second, empty⟩

/-- All that waits can be published. -/
theorem exists_all_published (b : Board n ρ) : ∃ moves more,
    Published b (b.run K moves) more ∧ ∀ i, ∀ m ∈ b.outbox i, (i, m) ∈ more := by
  have some_published (parties : List (Fin n)) : ∃ moves more,
      Published b (b.run K moves) more ∧ ∀ i ∈ parties, (b.run K moves).outbox i = [] := by
    induction parties with
    | nil => exact ⟨[], [], .refl b, fun i member => by cases member⟩
    | cons i parties ih =>
      obtain ⟨moves, more, first, empty⟩ := ih
      obtain ⟨moves', more', second, empty'⟩ := exists_emptied K (b.run K moves) i
      refine ⟨moves ++ moves', more ++ more', ?_⟩
      rw [run_append]
      refine ⟨first.trans second, fun q member => ?_⟩
      rcases List.mem_cons.1 member with rfl | member
      · exact empty'
      · exact second.emptied q (empty q member)
  obtain ⟨moves, more, published, empty⟩ := some_published (List.finRange n)
  refine ⟨moves, more, published, fun i m waiting => ?_⟩
  refine (published.passed i m waiting).resolve_left fun still => ?_
  rw [empty i (List.mem_finRange i)] at still
  cases still

theorem read_frames (b : Board n ρ) {j : Fin n} {x : Fin n × Notice} (next : b.next j = some x) :
    (b.read K j).log = b.log ∧
      (b.read K j).cursor = Function.update b.cursor j (b.cursor j + 1) := by
  obtain ⟨i, m⟩ := x
  rw [read, next]
  dsimp only
  split <;> exact ⟨rfl, rfl⟩

/-- A node can read up to any position. -/
theorem exists_read_to (b : Board n ρ) {j : Fin n} {position : Nat}
    (behind : b.cursor j ≤ position) (inside : position ≤ b.log.length) : ∃ moves,
      (b.run K moves).log = b.log ∧
        (b.run K moves).cursor = Function.update b.cursor j position := by
  obtain ⟨steps, rfl⟩ := Nat.exists_eq_add_of_le behind
  induction steps with
  | zero => exact ⟨[], rfl, (Function.update_eq_self j b.cursor).symm⟩
  | succ steps ih =>
    obtain ⟨moves, log, cursor⟩ := ih (Nat.le_add_right _ _) (Nat.le_of_succ_le inside)
    have next : (b.run K moves).next j = some (b.log[b.cursor j + steps]) := by
      rw [Board.next, log, cursor, Function.update_self]
      exact List.getElem?_eq_getElem inside
    obtain ⟨log', cursor'⟩ := read_frames K (b.run K moves) next
    refine ⟨moves ++ [.read j], ?_, ?_⟩
    · rw [run_append]
      exact log'.trans log
    · rw [run_append]
      refine cursor'.trans ?_
      rw [cursor, Function.update_self, Function.update_idem]
      rfl

/-- All that is published can be read by everyone. -/
theorem exists_all_read (b : Board n ρ) (behind : ∀ j, b.cursor j ≤ b.log.length) : ∃ moves,
    (b.run K moves).log = b.log ∧ ∀ j, (b.run K moves).cursor j = b.log.length := by
  have some_read (parties : List (Fin n)) : ∃ moves, (b.run K moves).log = b.log ∧
      ∀ j, (b.run K moves).cursor j = if j ∈ parties then b.log.length else b.cursor j := by
    induction parties with
    | nil => exact ⟨[], rfl, fun j => rfl⟩
    | cons i parties ih =>
      obtain ⟨moves, log, cursor⟩ := ih
      have short : (b.run K moves).cursor i ≤ b.log.length := by
        rw [cursor]
        split
        · exact Nat.le_refl _
        · exact behind i
      rw [← log] at short
      obtain ⟨moves', log', cursor'⟩ :=
        exists_read_to K (b.run K moves) short (Nat.le_refl _)
      refine ⟨moves ++ moves', ?_, fun j => ?_⟩
      · rw [run_append]
        exact log'.trans log
      · rw [run_append, cursor', log]
        by_cases own : j = i
        · subst own
          rw [Function.update_self, if_pos List.mem_cons_self]
        · rw [Function.update_of_ne own, cursor]
          simp [own]
  obtain ⟨moves, log, cursor⟩ := some_read (List.finRange n)
  exact ⟨moves, log, fun j => (cursor j).trans (if_pos (List.mem_finRange j))⟩

end Rounds

/-! ## What lasts -/

/-- A board that some moves lead to. -/
def Reaches {n : Nat} {ρ : Type} [RandomSource ρ] (K : Kem) (b later : Board n ρ) : Prop :=
  ∃ moves, b.run K moves = later

theorem Reaches.trans {n : Nat} {ρ : Type} [RandomSource ρ] {K : Kem} {b later last : Board n ρ}
    (first : b.Reaches K later) (second : later.Reaches K last) : b.Reaches K last := by
  obtain ⟨moves, rfl⟩ := first
  obtain ⟨rest, rfl⟩ := second
  exact ⟨moves ++ rest, run_append K b moves rest⟩

variable {K : Kem} {ring : HonestRing K} {leader : Option (Fin ring.roster.size)} {ρ : Type}
  [RandomSource ρ] {b later : Board ring.roster.size ρ} {posted : List (Posted ring.roster.size)}
  {i : Fin ring.roster.size}

theorem say_cases (b : Board ring.roster.size ρ) (j : Fin ring.roster.size)
    (plaintext : List UInt8) : ∃ source notices,
      b.say j plaintext = Board.send { b with source := source } j notices := by
  unfold say
  dsimp only
  split
  · exact ⟨_, _, rfl⟩
  · refine ⟨Function.update b.source j ((b.node j).sealMessage plaintext (b.source j)).2, [], ?_⟩
    rw [send, List.append_nil, Function.update_eq_self]

theorem read_cases (b : Board ring.roster.size ρ) (j : Fin ring.roster.size) : ∃ cursor,
    b.read K j = { b with cursor := cursor } ∨
      ∃ e, b.read K j = { b.hand K j (.received .cluster e) with cursor := cursor } := by
  unfold read
  split
  · exact ⟨b.cursor, .inl rfl⟩
  · split
    · exact ⟨_, .inl rfl⟩
    · exact ⟨_, .inr ⟨_, rfl⟩⟩

theorem sent_play {m : Notice} (sent : b.Sent i m) (move : Move ring.roster.size) :
    (b.play K move).Sent i m := by
  cases move with
  | start j => exact (sent_hand b j .start).2 (.inl sent)
  | aside j e => exact (sent_hand b j (.received .leader e)).2 (.inl sent)
  | say j plaintext =>
    obtain ⟨source, notices, said⟩ := b.say_cases j plaintext
    change (b.say j plaintext).Sent i m
    rw [said]
    exact (sent_send _ j notices).2 (.inl sent)
  | publish j => exact (sent_publish b j).2 sent
  | read j =>
    change (b.read K j).Sent i m
    obtain ⟨cursor, idle | ⟨e, handed⟩⟩ := b.read_cases j
    · rw [idle]
      exact sent
    · rw [handed]
      exact (sent_hand b j (.received .cluster e)).2 (.inl sent)

theorem SentKind.lasts {kind : MessageKind} (sent : b.SentKind i kind)
    (reached : b.Reaches K later) : later.SentKind i kind := by
  obtain ⟨moves, rfl⟩ := reached
  induction moves generalizing b with
  | nil => exact sent
  | cons move rest ih =>
    obtain ⟨m, sent, same⟩ := sent
    exact ih ⟨m, sent_play sent move, same⟩

/-- What a move does to a node is what some events do, if any. -/
theorem exists_inputs_play (b : Board ring.roster.size ρ) (move : Move ring.roster.size)
    (i : Fin ring.roster.size) :
    ∃ inputs : List (NodeEvent × ρ), (b.play K move).node i = (b.node i).after K inputs := by
  have handed (j : Fin ring.roster.size) (event : NodeEvent) :
      ∃ inputs : List (NodeEvent × ρ), (b.hand K j event).node i = (b.node i).after K inputs :=
    forall_node_hand (P := fun before later => ∃ inputs : List (NodeEvent × ρ),
      later = before.after K inputs) (fun _ => ⟨[], rfl⟩) ⟨[(event, b.source j)], rfl⟩ i
  cases move with
  | start j => exact handed j .start
  | aside j e => exact handed j (.received .leader e)
  | say j plaintext =>
    obtain ⟨source, notices, said⟩ := b.say_cases j plaintext
    refine ⟨[], ?_⟩
    change (b.say j plaintext).node i = b.node i
    rw [said]
    rfl
  | publish j => exact ⟨[], congrFun (publish_frames b j).1 i⟩
  | read j =>
    change ∃ inputs : List (NodeEvent × ρ), (b.read K j).node i = (b.node i).after K inputs
    obtain ⟨cursor, idle | ⟨e, taken⟩⟩ := b.read_cases j
    · rw [idle]
      exact ⟨[], rfl⟩
    · rw [taken]
      exact handed j (.received .cluster e)

/-- A node on a board goes through events of its own. -/
theorem Reaches.exists_inputs (reached : b.Reaches K later) (i : Fin ring.roster.size) :
    ∃ inputs : List (NodeEvent × ρ), later.node i = (b.node i).after K inputs := by
  obtain ⟨moves, rfl⟩ := reached
  induction moves generalizing b with
  | nil => exact ⟨[], rfl⟩
  | cons move rest ih =>
    obtain ⟨inputs, moved⟩ := b.exists_inputs_play (K := K) move i
    obtain ⟨more, ended⟩ := @ih (b.play K move)
    refine ⟨inputs ++ more, ?_⟩
    rw [Node.after_append, ← moved]
    exact ended

section Invariant

variable (inv : Invariant ring leader b posted) (correct : K.Correct)
include inv

/-- A node goes on from what it has, whatever happens. -/
theorem Invariant.continues_later (reached : b.Reaches K later) (i : Fin ring.roster.size) :
    ∃ actions, (b.node i).Continues actions (later.node i) := by
  obtain ⟨inputs, same⟩ := reached.exists_inputs i
  rw [same]
  exact ⟨_, (((inv.coherent i).mono fun _ _ => trivial).after inputs fun _ _ _ _ => trivial).2⟩

theorem Invariant.groupKey_later (reached : b.Reaches K later) {level : Level} {key : GroupKey}
    (keyed : (b.node i).groupKey level = some key) :
    (later.node i).groupKey level = some key := by
  obtain ⟨actions, continues⟩ := inv.continues_later reached i
  exact continues.groupKey_eq keyed

theorem Invariant.clusterKey_later (reached : b.Reaches K later) {key : ClusterKey}
    (known : (b.node i).clusterKey = some key) : (later.node i).clusterKey = some key := by
  obtain ⟨actions, continues⟩ := inv.continues_later reached i
  exact continues.clusterKey_eq known

include correct

/-! ## Rounds -/

/-- In a round everyone comes to read whatever was sent before it. -/
theorem Invariant.exists_round : ∃ later posted', b.Reaches K later ∧
    Invariant ring leader later posted' ∧ ∀ i kind, b.SentKind i kind → ∀ j,
      ∃ m, (i, m) ∈ later.log.take (later.cursor j) ∧ m.envelope.kind = kind := by
  obtain ⟨moves, fresh, published, out⟩ := exists_all_published K b
  have behind (j : Fin ring.roster.size) :
      (b.run K moves).cursor j ≤ (b.run K moves).log.length := by
    rw [published.cursor, published.log, List.length_append]
    exact Nat.le_add_right_of_le (inv.behind j)
  obtain ⟨moves', log, cursor⟩ := exists_all_read K (b.run K moves) behind
  obtain ⟨more, ended⟩ := inv.run correct (moves ++ moves')
  refine ⟨_, posted ++ more, ⟨moves ++ moves', rfl⟩, ended, fun i kind sent j => ?_⟩
  obtain ⟨m, sent, same⟩ := sent
  refine ⟨m, ?_, same⟩
  rw [run_append, cursor, log, List.take_length, published.log]
  rcases sent with before | waiting
  · exact List.mem_append_left _ before
  · exact List.mem_append_right _ (out _ _ waiting)

/-- One round after the offers, all of them are answered. -/
theorem Invariant.answers_sent (offered : ∀ i, b.SentKind i .akeInit) : ∃ later posted',
    b.Reaches K later ∧ Invariant ring leader later posted' ∧
      ∀ i, later.SentKind i .akeRespond := by
  obtain ⟨later, posted', reached, inv', read⟩ := inv.exists_round correct
  refine ⟨later, posted', reached, inv', fun j => ?_⟩
  obtain ⟨m, here, kind⟩ := read _ _ (offered (ring.roster.left j)) j
  have taken := (inv'.absorbed j _ m here (ring.roster.left_ne j)).taken
  have held := taken.offer kind (ring.roster.right_left j).symm
  exact inv'.sent_of_tally (by simp) (Session.toNat_pos_iff.2 held)

/-- One round after the answers, all shares are out. -/
theorem Invariant.shares_sent (answered : ∀ i, b.SentKind i .akeRespond) : ∃ later posted',
    b.Reaches K later ∧ Invariant ring leader later posted' ∧
      ∀ i, later.SentKind i .shareBroadcast := by
  obtain ⟨later, posted', reached, inv', read⟩ := inv.exists_round correct
  refine ⟨later, posted', reached, inv', fun j => ?_⟩
  obtain ⟨m, here, kind⟩ := read _ _ (answered (ring.roster.right j)) j
  have taken := (inv'.absorbed j _ m here (ring.roster.right_ne j)).taken
  have right := taken.response kind (ring.roster.left_right j).symm
  have left : (later.node j).cluster.progress.keyLeft.isSome :=
    Session.toNat_pos_iff.1 (inv'.tally_of_sent (by simp) ((answered j).lasts reached))
  have share := inv'.steady.prompt j right left
  exact inv'.sent_of_tally (by simp) (Session.toNat_pos_iff.2 share)

/-- One round after the shares, all nodes have the key of the ring. -/
theorem Invariant.ring_keyed (shared : ∀ i, b.SentKind i .shareBroadcast) : ∃ later posted',
    b.Reaches K later ∧ Invariant ring leader later posted' ∧
      ∀ j, ∃ g, (later.node j).groupKey .cluster = some g := by
  obtain ⟨later, posted', reached, inv', read⟩ := inv.exists_round correct
  exact ⟨later, posted', reached, inv',
    fun j => inv'.groupKey_of_shares fun i => read i _ (shared i) j⟩

/-- Once all offers are out, and the leader, if there is one, has the key of the leaders, all nodes
can come to the key of the cluster. -/
theorem Invariant.exists_all_keyed (offered : ∀ i, b.SentKind i .akeInit)
    (led : ∀ l, leader = some l → ∃ k, (b.node l).groupKey .leader = some k) : ∃ later posted',
      b.Reaches K later ∧ Invariant ring leader later posted' ∧
        ∀ j, ∃ key, (later.node j).clusterKey = some key := by
  obtain ⟨b₁, posted₁, reached₁, inv₁, answered⟩ := inv.answers_sent correct offered
  obtain ⟨b₂, posted₂, reached₂, inv₂, shared⟩ := inv₁.shares_sent correct answered
  obtain ⟨b₃, posted₃, reached₃, inv₃, keyed⟩ := inv₂.ring_keyed correct shared
  have reached := reached₁.trans (reached₂.trans reached₃)
  cases leads : leader with
  | none =>
    refine ⟨b₃, posted₃, reached, leads ▸ inv₃, fun j => ?_⟩
    obtain ⟨g, keyed⟩ := keyed j
    exact ⟨_, inv₃.standalone_key leads keyed⟩
  | some l =>
    obtain ⟨k, held⟩ := led l leads
    obtain ⟨g, keyed⟩ := keyed l
    have known := inv₃.leading_key leads keyed (inv.groupKey_later reached held)
    have wrapped := inv₃.wrapped l leads (Option.isSome_of_mem known)
    -- In one more round the wrapped key comes to the members.
    obtain ⟨b₄, posted₄, reached₄, inv₄, read⟩ := inv₃.exists_round correct
    have ready (j : Fin ring.roster.size) : Ready leader (b₄.log.take (b₄.cursor j)) :=
      ⟨fun i => read i _ ((shared i).lasts reached₃) j,
        fun l' leads' => Option.some.inj (leads.symm.trans leads') ▸ read l _ wrapped j⟩
    refine ⟨b₄, posted₄, reached.trans reached₄, leads ▸ inv₄, fun j => ?_⟩
    exact ⟨_, inv₄.key_of_ready (ready j) (inv₃.clusterKey_later reached₄ known)⟩

/-! ## Starts -/

theorem Invariant.begun_start (j : Fin ring.roster.size) :
    (b.outcome K j .start).node.cluster.progress.initiated = true := by
  cases begun : (b.node j).cluster.progress.initiated with
  | true =>
    obtain ⟨more, reacts⟩ := inv.reacts_start (j := j) correct
    exact reacts.grown.initiated begun
  | false =>
    have session : (b.outcome K j .start).node.cluster = _ := (b.node j).cluster_start (b.source j)
    rw [session]
    exact (inv.steady.sound.start correct (inv.steady.coherent j) begun (b.source j)).2

/-- A node that does not lead makes its offer when it is started. -/
theorem Invariant.offers_sent (parties : List (Fin ring.roster.size)) : ∃ later posted',
    b.Reaches K later ∧ Invariant ring leader later posted' ∧
      ∀ i ∈ parties, leader ≠ some i → later.SentKind i .akeInit := by
  induction parties generalizing b posted with
  | nil => exact ⟨b, posted, ⟨[], rfl⟩, inv, fun i member => by cases member⟩
  | cons i parties ih =>
    obtain ⟨more, reacts⟩ := inv.reacts_start (j := i) correct
    have moved := inv.hand reacts
    obtain ⟨later, posted', reached, inv', offered⟩ := ih moved
    refine ⟨later, posted', .trans ⟨[.start i], rfl⟩ reached, inv', fun q member unled => ?_⟩
    rcases List.mem_cons.1 member with rfl | member
    · have begun := inv.begun_start correct q
      rw [← hand_node_self b q .start] at begun
      have offer : (b.hand K q .start).SentKind q .akeInit :=
        moved.sent_of_tally (fun _ => unled) (Session.toNat_pos_iff.2 begun)
      exact offer.lasts reached
    · exact offered q member unled

end Invariant

/-- Standalone nodes around a board can all come to their key. -/
theorem exists_standalone_keyed (correct : K.Correct) (ring : HonestRing K)
    (source : Fin ring.roster.size → ρ) : ∃ b posted,
      (start (ring.seat .standalone) source).Reaches K b ∧ Invariant ring none b posted ∧
        ∀ j, ∃ key, (b.node j).clusterKey = some key := by
  have unled : Role.standalone ≠ .leader := by simp
  have initial : Invariant ring none (start (ring.seat .standalone) source) [] :=
    .start source (fun _ => none) fun i => ring.make_seat unled i
  obtain ⟨b₁, posted₁, reached₁, inv₁, offers⟩ := initial.offers_sent correct (List.finRange _)
  obtain ⟨b₂, posted₂, reached₂, inv₂, keyed⟩ := inv₁.exists_all_keyed correct
    (fun i => offers i (List.mem_finRange i) (by simp)) fun l leads => by cases leads
  exact ⟨b₂, posted₂, reached₁.trans reached₂, inv₂, keyed⟩

end RingAgreement.Board
