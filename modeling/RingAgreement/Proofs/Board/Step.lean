import RingAgreement.Proofs.Board.Key
/-!
What a node does with an event, as the cluster sees it, and that it keeps the invariant of the
board.
-/

namespace RingAgreement.Board

variable {K : Kem} {ring : HonestRing K} {leader : Option (Fin ring.roster.size)} {ρ : Type}
  {b : Board ring.roster.size ρ} {posted more : List (Posted ring.roster.size)}
  {j : Fin ring.roster.size}

/-- A broadcast of the wrapped key by a leader that has both group keys. -/
def Wraps (leader : Option (Fin ring.roster.size)) (j : Fin ring.roster.size) (after : Node)
    (e : Envelope) : Prop :=
  leader = some j ∧ ∃ g k, after.groupKey .cluster = some g ∧ after.groupKey .leader = some k ∧
    e = after.parcel ((WrappingKey.derive g).wrap k.key)

/-- An answer of a node to an event that the cluster takes well. The session of the node goes on in
its ring with the messages in `more`, and these are what the node sends; a leader that fails to
start in the leaders' ring may lose its offer, and nothing else is lost. -/
structure Reacts (leader : Option (Fin ring.roster.size)) (b : Board ring.roster.size ρ)
    (posted : List (Posted ring.roster.size)) (j : Fin ring.roster.size) (outcome : NodeOutcome ρ)
    (more : List (Posted ring.roster.size)) : Prop where
  keeps : (b.node j).Keeps K (Heard leader b) outcome
  alive : outcome.node.distributor.aborted = false
  supplied : (b.node j).distributor.Supplied → outcome.node.distributor.Supplied
  grown : (b.node j).cluster.Grown outcome.node.cluster
  steady : ring.Steady (Function.update (fun i => (b.node i).cluster) j outcome.node.cluster)
    (posted ++ more)
  mailed : ∀ p ∈ more, p.origin = j ∧
    ((p.envelope.kind = .akeInit → leader ≠ some j) → p.envelope ∈ outcome.mail)
  sent : ∀ e ∈ outcome.mail, ⟨j, e⟩ ∈ more ∨ Wraps leader j outcome.node e
  wrapped : leader = some j → (b.node j).clusterKey = none → outcome.node.clusterKey.isSome →
    ∃ e ∈ outcome.mail, e.kind = .wrappedKey
  shown : ∀ q, q ≠ j → (outcome.node.cluster.slot q).isSome →
    ((b.node j).cluster.slot q).isSome ∨ ∃ m, (q, m) ∈ b.log ∧ m.envelope.kind = .shareBroadcast

variable [RandomSource ρ] {event : NodeEvent}

theorem hand_node_self (b : Board ring.roster.size ρ) (j : Fin ring.roster.size)
    (event : NodeEvent) : (b.hand K j event).node j = (b.outcome K j event).node :=
  Function.update_self _ _ _

theorem hand_node_of_ne (b : Board ring.roster.size ρ) {i j : Fin ring.roster.size} (other : i ≠ j)
    (event : NodeEvent) : (b.hand K j event).node i = b.node i :=
  Function.update_of_ne other _ _

theorem clusters_hand (b : Board ring.roster.size ρ) (j : Fin ring.roster.size)
    (event : NodeEvent) : (fun i => ((b.hand K j event).node i).cluster) =
      Function.update (fun i => (b.node i).cluster) j (b.outcome K j event).node.cluster := by
  funext i
  by_cases here : i = j
  · subst here
    rw [hand_node_self, Function.update_self]
  · rw [hand_node_of_ne b here, Function.update_of_ne here]

theorem sent_hand (b : Board ring.roster.size ρ) (j : Fin ring.roster.size) (event : NodeEvent)
    {i : Fin ring.roster.size} {m : Notice} : (b.hand K j event).Sent i m ↔
      b.Sent i m ∨ i = j ∧ ∃ e ∈ (b.outcome K j event).mail, ⟨e, none⟩ = m := by
  have sent := sent_send b j ((b.outcome K j event).mail.map fun e => ⟨e, none⟩) (j := i) (m := m)
  rw [List.mem_map] at sent
  exact sent

/-- A fact about two states of a node holds of all nodes if it holds of the one that has moved. -/
theorem forall_node_hand {P : Node → Node → Prop} (refl : ∀ node, P node node)
    (moved : P (b.node j) (b.outcome K j event).node) (i : Fin ring.roster.size) :
    P (b.node i) ((b.hand K j event).node i) := by
  by_cases here : i = j
  · subst here
    rwa [hand_node_self]
  · rw [hand_node_of_ne b here]
    exact refl _

theorem continues_hand {heard : WrappedKey → Prop}
    (keeps : (b.node j).Keeps K heard (b.outcome K j event)) (i : Fin ring.roster.size) :
    ∃ actions, (b.node i).Continues actions ((b.hand K j event).node i) :=
  forall_node_hand (P := fun before after => ∃ actions, before.Continues actions after)
    (fun node => ⟨[], .refl node⟩) ⟨_, keeps.continues⟩ i

theorem Genuine.hand {heard : WrappedKey → Prop}
    (keeps : (b.node j).Keeps K heard (b.outcome K j event)) {l : Fin ring.roster.size}
    {wrapped : WrappedKey} (genuine : Genuine b.node l wrapped) :
    Genuine (b.hand K j event).node l wrapped := by
  obtain ⟨actions, continues⟩ := continues_hand keeps l
  obtain ⟨g, k, clusterKey, leaderKey, wraps⟩ := genuine
  exact ⟨g, k, continues.groupKey_eq clusterKey, continues.groupKey_eq leaderKey, wraps⟩

omit [RandomSource ρ] in
/-- The wrapped key of a cluster opens with its group key. -/
theorem Genuine.fits {node : Fin ring.roster.size → Node}
    (steady : ring.Steady (fun i => (node i).cluster) posted) {l : Fin ring.roster.size}
    {wrapped : WrappedKey} (genuine : Genuine node l wrapped) {key : GroupKey}
    (held : (node j).groupKey .cluster = some key) :
    ∃ inner, (WrappingKey.derive key).wrap inner = wrapped := by
  obtain ⟨g, k, clusterKey, -, rfl⟩ := genuine
  obtain rfl : key = g := steady.agree held clusterKey
  exact ⟨k.key, rfl⟩

section Hand

variable (inv : Invariant ring leader b posted)
  (reacts : Reacts leader b posted j (b.outcome K j event) more)
include reacts

theorem Reacts.heard {wrapped : WrappedKey} (heard : Heard leader b wrapped) :
    Heard leader (b.hand K j event) wrapped := by
  obtain ⟨l, m, leads, there, kind, genuine⟩ := heard
  exact ⟨l, m, leads, there, kind, genuine.hand reacts.keeps⟩

theorem Reacts.origin {i : Fin ring.roster.size} {m : Notice}
    (origin : Origin ring leader b.node posted i m) :
    Origin ring leader (b.hand K j event).node (posted ++ more) i m := by
  obtain ⟨actions, continues⟩ := continues_hand reacts.keeps i
  cases origin with
  | letter sent => exact .letter (List.mem_append_left _ sent)
  | parcel leads genuine => exact .parcel leads (genuine.hand reacts.keeps)
  | message known plaintext nonce => exact .message (continues.clusterKey_eq known) plaintext nonce

/-- What a node sends is a message of its session, or it leads and broadcasts the wrapped key. -/
theorem Reacts.origin_mail {e : Envelope} (member : e ∈ (b.outcome K j event).mail) :
    Origin ring leader (b.hand K j event).node (posted ++ more) j ⟨e, none⟩ := by
  rcases reacts.sent e member with message | ⟨leads, g, k, clusterKey, leaderKey, rfl⟩
  · exact .letter (List.mem_append_right _ message)
  · have index : (b.outcome K j event).node.clusterIndex = .ofNat j := by
      have position := reacts.steady.sound.own_eq j
      rw [Function.update_self] at position
      exact congrArg UInt32.ofNat position
    rw [Node.parcel, index]
    refine .parcel leads ⟨g, k, ?_, ?_, rfl⟩
    · rw [hand_node_self, clusterKey]
    · rw [hand_node_self, leaderKey]

theorem Reacts.kind_mail {e : Envelope} (member : e ∈ (b.outcome K j event).mail) :
    e.kind ≠ .appMessage := by
  rcases reacts.sent e member with message | ⟨-, g, k, -, -, rfl⟩
  · exact (reacts.steady.not_cluster_kind (List.mem_append_right _ message)).2
  · simp [Node.parcel, Payload.toEnvelope, Payload.kind]

include inv

/-- An answer that the cluster takes well keeps the invariant. -/
theorem Invariant.hand : Invariant ring leader (b.hand K j event) (posted ++ more) where
  role i := by
    obtain ⟨actions, continues⟩ := continues_hand reacts.keeps i
    exact continues.role.trans (inv.role i)
  coherent i := by
    refine Node.Coherent.mono ?_ fun _ => reacts.heard
    by_cases here : i = j
    · subst here
      rw [hand_node_self]
      exact reacts.keeps.coherent
    · rw [hand_node_of_ne b here]
      exact inv.coherent i
  alive i := by
    by_cases here : i = j
    · subst here
      rw [hand_node_self]
      exact reacts.alive
    · rw [hand_node_of_ne b here]
      exact inv.alive i
  steady := by
    rw [clusters_hand]
    exact reacts.steady
  origin i m sent := by
    rcases (sent_hand b j event).1 sent with old | ⟨rfl, e, member, rfl⟩
    · exact reacts.origin (inv.origin i m old)
    · exact reacts.origin_mail member
  mailed p there kept := by
    rcases List.mem_append.1 there with old | new
    · exact (sent_hand b j event).2 (.inl (inv.mailed p old kept))
    · obtain ⟨rfl, sent⟩ := reacts.mailed p new
      exact (sent_hand b _ event).2 (.inr ⟨rfl, _, sent kept, rfl⟩)
  wrapped l leads installed := by
    by_cases before : (b.node l).clusterKey.isSome
    · obtain ⟨m, sent, kind⟩ := inv.wrapped l leads before
      exact ⟨m, (sent_hand b j event).2 (.inl sent), kind⟩
    · have here : l = j := by
        by_contra elsewhere
        rw [hand_node_of_ne b elsewhere] at installed
        exact before installed
      subst here
      rw [hand_node_self] at installed
      obtain ⟨e, member, kind⟩ :=
        reacts.wrapped leads (Option.not_isSome_iff_eq_none.1 before) installed
      exact ⟨_, (sent_hand b l event).2 (.inr ⟨rfl, e, member, rfl⟩), kind⟩
  shown i q other present := by
    by_cases here : i = j
    · subst here
      rw [hand_node_self] at present
      exact (reacts.shown q other present).elim (inv.shown i q other) id
    · rw [hand_node_of_ne b here] at present
      exact inv.shown i q other present
  absorbed i q m there other := by
    have absorbed := inv.absorbed i q m there other
    have grown := forall_node_hand (P := fun before after => before.cluster.Grown after.cluster)
      (fun _ => .refl _) reacts.grown i
    have supplied := forall_node_hand
      (P := fun before after => before.distributor.Supplied → after.distributor.Supplied)
      (fun _ => id) reacts.supplied i
    exact ⟨absorbed.taken.grown grown, fun kind => supplied (absorbed.supplied kind)⟩
  ordered := by
    refine inv.ordered.send fun m fresh message => ?_
    obtain ⟨e, member, rfl⟩ := List.mem_map.1 fresh
    exact absurd message (reacts.kind_mail member)
  behind := inv.behind

end Hand

end RingAgreement.Board
