import RingAgreement.Proofs.Board.Basic
import RingAgreement.Proofs.Node.Run
/-!
The invariant of a cluster around a board. Every notice is what an honest node has sent, whoever has
read one has taken it, and every application message stands behind all that its key was made from.
-/

namespace RingAgreement.Board

variable {n : Nat}

/-! ## The order of the notices -/

/-- Among notices are the shares of all nodes and, if there is a leader, its wrapped key. -/
structure Ready (leader : Option (Fin n)) (front : List (Fin n × Notice)) : Prop where
  shares : ∀ i, ∃ m, (i, m) ∈ front ∧ m.envelope.kind = .shareBroadcast
  wrapped : ∀ l, leader = some l → ∃ m, (l, m) ∈ front ∧ m.envelope.kind = .wrappedKey

/-- No application message is published before the notices that its key was made from, neither as
things are nor when the outboxes are published. -/
structure Ordered (leader : Option (Fin n)) (log : List (Fin n × Notice))
    (outbox : Fin n → List Notice) : Prop where
  published : ∀ front i m back, log = front ++ (i, m) :: back → m.envelope.kind = .appMessage →
    Ready leader front
  waiting : ∀ i front m back, outbox i = front ++ m :: back → m.envelope.kind = .appMessage →
    Ready leader (log ++ front.map (Prod.mk i))

section Order

variable {leader : Option (Fin n)} {log front : List (Fin n × Notice)}
  {outbox : Fin n → List Notice} {i : Fin n}

theorem Ready.mono (ready : Ready leader front) {more : List (Fin n × Notice)}
    (all : front ⊆ more) : Ready leader more where
  shares i := by
    obtain ⟨m, member, share⟩ := ready.shares i
    exact ⟨m, all member, share⟩
  wrapped l leads := by
    obtain ⟨m, member, wrapped⟩ := ready.wrapped l leads
    exact ⟨m, all member, wrapped⟩

theorem ordered_nil (leader : Option (Fin n)) : Ordered leader [] fun _ => [] :=
  ⟨fun _ _ _ _ parts => by simp at parts, fun _ _ _ _ parts => by simp at parts⟩

theorem Ordered.publish (ordered : Ordered leader log outbox) {m : Notice} {rest : List Notice}
    (first : outbox i = m :: rest) :
    Ordered leader (log ++ [(i, m)]) (Function.update outbox i rest) where
  published front j x back parts message := by
    rcases List.eq_nil_or_concat back with rfl | ⟨back, last, rfl⟩
    · obtain ⟨rfl, same⟩ := List.append_inj_left' parts rfl, List.append_inj_right' parts rfl
      obtain ⟨rfl, rfl⟩ := Prod.mk.inj (List.cons.inj same).1
      simpa using ordered.waiting i [] m rest first message
    · rw [List.concat_eq_append, ← List.cons_append, ← List.append_assoc] at parts
      exact ordered.published front j x back (List.append_inj_left' parts rfl) message
  waiting j front x back parts message := by
    by_cases own : j = i
    · subst own
      rw [Function.update_self] at parts
      have whole : outbox j = (m :: front) ++ x :: back := by rw [first, parts]; rfl
      have ready := ordered.waiting j _ x back whole message
      rwa [List.append_assoc]
    · rw [Function.update_of_ne own] at parts
      exact (ordered.waiting j front x back parts message).mono (by simp)

theorem Ordered.send (ordered : Ordered leader log outbox) {fresh : List Notice}
    (ready : ∀ m ∈ fresh, m.envelope.kind = .appMessage →
      Ready leader (log ++ (outbox i).map (Prod.mk i))) :
    Ordered leader log (Function.update outbox i (outbox i ++ fresh)) where
  published := ordered.published
  waiting j front x back parts message := by
    by_cases own : j = i
    · subst own
      rw [Function.update_self] at parts
      rcases List.append_eq_append_iff.1 parts with ⟨early, rfl, late⟩ | ⟨late, early, parts⟩
      · have member : x ∈ fresh := by simp [late]
        exact (ready x member message).mono (by simp)
      · cases late with
        | nil =>
          rw [List.append_nil] at early
          rw [← early]
          refine ready x ?_ message
          rw [← List.nil_append fresh, ← parts]
          exact List.mem_cons_self
        | cons y late =>
          obtain ⟨rfl, -⟩ := List.cons.inj parts
          exact ordered.waiting j front x late early message
    · rw [Function.update_of_ne own] at parts
      exact ordered.waiting j front x back parts message

end Order

/-! ## The invariant -/

/-- A node has sent a notice. -/
def Sent {ρ : Type} (b : Board n ρ) (i : Fin n) (m : Notice) : Prop :=
  (i, m) ∈ b.log ∨ m ∈ b.outbox i

/-- A node has sent a notice of a kind. -/
def SentKind {ρ : Type} (b : Board n ρ) (i : Fin n) (kind : MessageKind) : Prop :=
  ∃ m, b.Sent i m ∧ m.envelope.kind = kind

/-- The wrapped key of a cluster: its leader wraps the leaders' key with the key of the cluster. -/
def Genuine (node : Fin n → Node) (l : Fin n) (wrapped : WrappedKey) : Prop :=
  ∃ g k, (node l).groupKey .cluster = some g ∧ (node l).groupKey .leader = some k ∧
    wrapped = (WrappingKey.derive g).wrap k.key

/-- The wrapped keys that can have been heard: the leader's own, once it is published. -/
def Heard {ρ : Type} (leader : Option (Fin n)) (b : Board n ρ) (wrapped : WrappedKey) : Prop :=
  ∃ l m, leader = some l ∧ (l, m) ∈ b.log ∧ m.envelope.kind = .wrappedKey ∧
    Genuine b.node l wrapped

variable {K : Kem}

/-- What a node sends: the messages of its session, the wrapped key if it leads, and application
messages under its key. -/
inductive Origin (ring : HonestRing K) (leader : Option (Fin ring.roster.size))
    (node : Fin ring.roster.size → Node) (posted : List (Posted ring.roster.size))
    (i : Fin ring.roster.size) : Notice → Prop
  | letter {e : Envelope} (sent : ⟨i, e⟩ ∈ posted) : Origin ring leader node posted i ⟨e, none⟩
  | parcel {wrapped : WrappedKey} (leads : leader = some i) (genuine : Genuine node i wrapped) :
      Origin ring leader node posted i
        ⟨(Payload.wrappedKey wrapped).toEnvelope (.ofNat i) .everyone, none⟩
  | message {key : ClusterKey} (known : (node i).clusterKey = some key) (plaintext : List UInt8)
      (nonce : Bytes 24) : Origin ring leader node posted i
        ⟨(Payload.appMessage (.make key (.ofNat i) plaintext nonce)).toEnvelope (.ofNat i)
          .everyone, some (key, plaintext)⟩

/-- What a node has of a notice that it has read. -/
structure Absorbed {ring : HonestRing K} (node : Node) (origin receiver : Fin ring.roster.size)
    (kind : MessageKind) : Prop where
  taken : HonestRing.Taken origin receiver kind node.cluster
  supplied : kind = .wrappedKey → node.distributor.Supplied

/-- What holds of a cluster around a board between any two moves. -/
structure Invariant {ρ : Type} (ring : HonestRing K) (leader : Option (Fin ring.roster.size))
    (b : Board ring.roster.size ρ) (posted : List (Posted ring.roster.size)) : Prop where
  role : ∀ i, (b.node i).role = .within leader i
  coherent : ∀ i, (b.node i).Coherent K (Heard leader b)
  alive : ∀ i, (b.node i).distributor.aborted = false
  steady : ring.Steady (fun i => (b.node i).cluster) posted
  origin : ∀ i m, b.Sent i m → Origin ring leader b.node posted i m
  mailed : ∀ p ∈ posted, (p.envelope.kind = .akeInit → leader ≠ some p.origin) →
    b.Sent p.origin ⟨p.envelope, none⟩
  wrapped : ∀ l, leader = some l → (b.node l).clusterKey.isSome → b.SentKind l .wrappedKey
  shown : ∀ i q, q ≠ i → ((b.node i).cluster.slot q).isSome →
    ∃ m, (q, m) ∈ b.log ∧ m.envelope.kind = .shareBroadcast
  absorbed : ∀ j q m, (q, m) ∈ b.log.take (b.cursor j) → q ≠ j →
    Absorbed (b.node j) q j m.envelope.kind
  ordered : Ordered leader b.log b.outbox
  behind : ∀ i, b.cursor i ≤ b.log.length

section Moves

variable {ρ : Type} {ring : HonestRing K} {leader : Option (Fin ring.roster.size)}
  {b : Board ring.roster.size ρ} {posted : List (Posted ring.roster.size)}

theorem sent_publish (b : Board n ρ) (i : Fin n) {j : Fin n} {m : Notice} :
    (b.publish i).Sent j m ↔ b.Sent j m := by
  unfold Board.publish
  split
  next => rfl
  next first rest parts =>
    unfold Sent
    by_cases own : j = i
    · subst own
      simp only [Function.update_self, parts, List.mem_append, List.mem_cons, Prod.mk.injEq,
        true_and]
      tauto
    · simp [own]

theorem log_publish_prefix (b : Board n ρ) (i : Fin n) : b.log <+: (b.publish i).log := by
  unfold Board.publish
  split
  · exact List.prefix_rfl
  · exact List.prefix_append _ _

theorem publish_frames (b : Board n ρ) (i : Fin n) :
    (b.publish i).node = b.node ∧ (b.publish i).cursor = b.cursor := by
  unfold Board.publish
  split <;> exact ⟨rfl, rfl⟩

theorem Heard.of_log {b b' : Board n ρ} {leader : Option (Fin n)} (same : b'.node = b.node)
    (log : b.log ⊆ b'.log) {wrapped : WrappedKey} (heard : Heard leader b wrapped) :
    Heard leader b' wrapped := by
  obtain ⟨l, m, leads, member, kind, genuine⟩ := heard
  exact ⟨l, m, leads, log member, kind, same ▸ genuine⟩

theorem Invariant.publish (inv : Invariant ring leader b posted) (i : Fin ring.roster.size) :
    Invariant ring leader (b.publish i) posted := by
  obtain ⟨node, cursor⟩ := publish_frames b i
  obtain ⟨more, log⟩ := log_publish_prefix b i
  have grown : b.log ⊆ (b.publish i).log := log ▸ List.subset_append_left _ _
  refine ⟨?_, ?_, ?_, ?_, ?_, ?_, ?_, ?_, ?_, ?_, ?_⟩
  any_goals simp only [node, cursor]
  · exact inv.role
  · exact fun j => (inv.coherent j).mono fun _ => Heard.of_log node grown
  · exact inv.alive
  · exact inv.steady
  · exact fun j m sent => inv.origin j m ((sent_publish b i).1 sent)
  · exact fun p there kept => (sent_publish b i).2 (inv.mailed p there kept)
  · intro l leads installed
    obtain ⟨m, sent, kind⟩ := inv.wrapped l leads installed
    exact ⟨m, (sent_publish b i).2 sent, kind⟩
  · intro j q other present
    obtain ⟨m, there, kind⟩ := inv.shown j q other present
    exact ⟨m, grown there, kind⟩
  · intro j q m there
    rw [← log, List.take_append_of_le_length (inv.behind j)] at there
    exact inv.absorbed j q m there
  · unfold Board.publish
    split
    next => exact inv.ordered
    next first => exact inv.ordered.publish first
  · intro j
    rw [← log, List.length_append]
    exact Nat.le_add_right_of_le (inv.behind j)

/-- A node can go on once it has what the next notice is for. -/
theorem Invariant.advance (inv : Invariant ring leader b posted) {j q : Fin ring.roster.size}
    {m : Notice} (next : b.next j = some (q, m))
    (absorbed : q ≠ j → Absorbed (b.node j) q j m.envelope.kind) :
    Invariant ring leader (b.advance j) posted := by
  refine { inv with absorbed := fun i r x there other => ?_, behind := fun i => ?_ }
  · change (r, x) ∈ b.log.take (Function.update b.cursor j (b.cursor j + 1) i) at there
    by_cases own : i = j
    · subst own
      rw [Function.update_self, List.take_add_one, show b.log[b.cursor i]? = _ from next] at there
      rcases List.mem_append.1 there with before | here
      · exact inv.absorbed i r x before other
      · obtain ⟨rfl, rfl⟩ := Prod.mk.inj (List.mem_singleton.1 here)
        exact absorbed other
    · rw [Function.update_of_ne own] at there
      exact inv.absorbed i r x there other
  · change Function.update b.cursor j (b.cursor j + 1) i ≤ b.log.length
    by_cases own : i = j
    · subst own
      rw [Function.update_self]
      exact (List.getElem?_eq_some_iff.1 next).1
    · rw [Function.update_of_ne own]
      exact inv.behind i

theorem sent_send (b : Board n ρ) (i : Fin n) (notices : List Notice) {j : Fin n} {m : Notice} :
    (b.send i notices).Sent j m ↔ b.Sent j m ∨ j = i ∧ m ∈ notices := by
  unfold Sent send
  by_cases own : j = i
  · subst own
    simp [or_assoc]
  · simp [own]

/-- A node may send further notices if all that an application message among them needs is sent. -/
theorem Invariant.send (inv : Invariant ring leader b posted) {i : Fin ring.roster.size}
    {notices : List Notice} (origin : ∀ m ∈ notices, Origin ring leader b.node posted i m)
    (ready : ∀ m ∈ notices, m.envelope.kind = .appMessage →
      Ready leader (b.log ++ (b.outbox i).map (Prod.mk i))) :
    Invariant ring leader (b.send i notices) posted where
  role := inv.role
  coherent := inv.coherent
  alive := inv.alive
  steady := inv.steady
  origin j m sent := by
    rcases (sent_send b i notices).1 sent with old | ⟨rfl, new⟩
    · exact inv.origin j m old
    · exact origin m new
  mailed p there kept := (sent_send b i notices).2 (.inl (inv.mailed p there kept))
  wrapped l leads installed := by
    obtain ⟨m, sent, kind⟩ := inv.wrapped l leads installed
    exact ⟨m, (sent_send b i notices).2 (.inl sent), kind⟩
  shown := inv.shown
  absorbed := inv.absorbed
  ordered := inv.ordered.send ready
  behind := inv.behind

theorem Invariant.start {node : Fin ring.roster.size → Node} (source : Fin ring.roster.size → ρ)
    (leaders : Fin ring.roster.size → Option (Roster × Nat))
    (made : ∀ i : Fin ring.roster.size, Node.make ⟨ring.roster, i, leaders i, .within leader i⟩
      (ring.pair i).secretKey = .ok (node i)) : Invariant ring leader (start node source) [] := by
  have coherent (i : Fin ring.roster.size) (heard : WrappedKey → Prop) :
      (node i).Coherent K heard ∧ ∀ level, (node i).groupKey level = none :=
    Node.make_coherent (made i)
  have fresh (i : Fin ring.roster.size) : (node i).cluster = ring.fresh i ∧
      (node i).distributor = .initial (.within leader i) := by
    obtain ⟨leader, inside, -, same⟩ := Node.make_success (made i)
    rw [same]
    exact ⟨rfl, rfl⟩
  have sessions : (fun i => (node i).cluster) = ring.fresh := funext fun i => (fresh i).1
  refine ⟨fun i => ?_, fun i => (coherent i _).1, fun i => ?_, ?_, fun i m sent => ?_,
    fun p there => ?_, fun l leads installed => ?_, fun i q other present => ?_,
    fun j q m there => ?_, ordered_nil leader, fun i => Nat.zero_le _⟩
  · exact congrArg Distributor.role (fresh i).2
  · exact congrArg Distributor.aborted (fresh i).2
  · change ring.Steady (fun i => (node i).cluster) []
    rw [sessions]
    exact ring.steady_fresh
  · rcases sent with logged | waiting
    · cases logged
    · cases waiting
  · cases there
  · have keyless : (node l).clusterKey = none := congrArg Distributor.effective (fresh l).2
    rw [show (Board.start node source).node l = node l from rfl, keyless] at installed
    cases installed
  · rw [show (Board.start node source).node i = node i from rfl, (fresh i).1] at present
    rw [show (ring.fresh i).slot q = none from Session.fresh_slot _ _ _ _] at present
    cases present
  · cases there

end Moves

end RingAgreement.Board
