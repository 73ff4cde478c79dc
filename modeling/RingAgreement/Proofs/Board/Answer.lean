import RingAgreement.Proofs.Board.Step
import RingAgreement.Proofs.Node.Seat
import RingAgreement.Proofs.Node.Start
import RingAgreement.Proofs.Session.Writes
/-!
The answers of the nodes around a board. Whatever a node meets with, its start, a notice of another
node or anything in the ring of the leaders, the cluster takes its answer well.
-/

namespace RingAgreement

/-- What a step adds to the contributions of others comes in a message of theirs. -/
theorem Session.Coherent.slot_cases {K : Kem} {s : Session} {ρ : Type} [RandomSource ρ]
    (coherent : s.Coherent K) {event : SessionEvent} {source : ρ} {q : Fin s.roster.size}
    (foreign : q ≠ s.own) (present : ((s.handle K event source).session.slot q).isSome) :
    (s.slot q).isSome ∨ ∃ e c, event = .received e ∧ s.Hears e q (.shareBroadcast c) := by
  obtain ⟨c, stored⟩ := Option.isSome_iff_exists.1 present
  rcases coherent.holds_cases (x := .slot q c) stored with before | ⟨-, writes⟩
  · exact .inl (Option.isSome_of_mem before)
  · obtain ⟨e, rfl, heard⟩ := writes.heard_of_slot foreign
    exact .inr ⟨e, c, rfl, heard⟩

/-- A start that does not fail sends an offer. -/
theorem Session.Coherent.exists_opened {K : Kem} {s : Session} {ρ : Type} [RandomSource ρ]
    (coherent : s.Coherent K) {source : ρ} (ok : (s.handle K .start source).error? = none) :
    ∃ offer s' source', s.handle K .start source =
      ⟨.ok [.send (s.envelope (.akeInit offer))], s', source'⟩ := by
  have starts := coherent.starts source
  generalize s.handle K .start source = outcome at starts ok
  cases starts with
  | opened => exact ⟨_, _, _, rfl⟩
  | _ => cases ok

namespace Node

variable {K : Kem} {node : Node} {ρ : Type} [RandomSource ρ] {source source' : ρ} {s : Session}
  {e : Envelope}

theorem Started.distributor_eq {outcome : NodeOutcome ρ} (started : node.Started K ρ outcome) :
    outcome.node.distributor = node.distributor := by
  cases started <;> simp

/-- A node whose cluster session was started before is not started. -/
theorem Started.idle_of_begun {outcome : NodeOutcome ρ} (started : node.Started K ρ outcome)
    (begun : node.cluster.progress.initiated = true) :
    outcome.node = node ∧ outcome.mail = [] := by
  cases started with
  | refused => exact ⟨rfl, rfl⟩
  | halved begins | single begins | both begins =>
    rw [begins.fresh] at begun
    cases begun

/-- The offer is all that a start sends to the cluster. It gets lost only if the session in the
leaders' ring is not started. -/
theorem mail_start (coherent : ∀ leader, node.leader = some leader → leader.Coherent K)
    (opened : node.cluster.handle K .start source = ⟨.ok [.send e], s, source'⟩) :
    let outcome := node.start K source
    outcome.mail ⊆ [e] ∧ (node.leader = none → outcome.mail = [e]) := by
  intro outcome
  have first : node.handleSession K .cluster node.cluster .start source = _ :=
    handleSession_of_sent opened
  cases led : node.leader with
  | none =>
    have single : outcome = _ := start_eq_first first led
    rw [single]
    exact ⟨List.Subset.refl _, fun _ => rfl⟩
  | some leader =>
    have here : (node.withSession .cluster s).leader = some leader := led
    have starts := (coherent leader led).starts source'
    generalize handled : leader.handle K .start source' = answer at starts
    refine ⟨?_, fun unled => by cases unled⟩
    cases starts with
    | opened =>
      have both : outcome = _ :=
        start_eq_second first rfl here (handleSession_of_sent handled) rfl
      rw [both]
      exact List.Subset.refl _
    | _ =>
      have halved : outcome = _ :=
        start_eq_halved first rfl here (handleSession_of_refused handled here) rfl
      rw [halved]
      exact List.nil_subset _

end Node

namespace Board

variable {K : Kem} {ring : HonestRing K} {leader : Option (Fin ring.roster.size)} {ρ : Type}
  {b : Board ring.roster.size ρ} {posted : List (Posted ring.roster.size)}
  {i j : Fin ring.roster.size}

section Parts

variable {outcome : NodeOutcome ρ} (inv : Invariant ring leader b posted)
include inv

theorem Invariant.leads (leading : (b.node j).role = .leader) : leader = some j :=
  Role.within_eq_leader.1 ((inv.role j).symm.trans leading)

/-- An answer that leaves the session in the cluster alone. -/
theorem Invariant.reacts_of_kept (keeps : (b.node j).Keeps K (Heard leader b) outcome)
    (kept : outcome.node.cluster = (b.node j).cluster)
    (alive : outcome.node.distributor.aborted = false)
    (supplied : (b.node j).distributor.Supplied → outcome.node.distributor.Supplied)
    (sent : ∀ e ∈ outcome.mail, Wraps leader j outcome.node e)
    (wrapped : leader = some j → (b.node j).clusterKey = none → outcome.node.clusterKey.isSome →
      ∃ e ∈ outcome.mail, e.kind = .wrappedKey) : Reacts leader b posted j outcome [] where
  keeps := keeps
  alive := alive
  supplied := supplied
  grown := by
    rw [kept]
    exact .refl _
  steady := by
    rw [kept, Function.update_eq_self (f := fun i => (b.node i).cluster), List.append_nil]
    exact inv.steady
  mailed p there := by cases there
  sent e member := .inr (sent e member)
  wrapped := wrapped
  shown q _ present := by
    rw [kept] at present
    exact .inl present

/-- An answer without messages, from a node that goes on with the same distributor. -/
theorem Invariant.reacts_of_silent (keeps : (b.node j).Keeps K (Heard leader b) outcome)
    (kept : outcome.node.cluster = (b.node j).cluster)
    (same : outcome.node.distributor = (b.node j).distributor) (silent : outcome.mail = []) :
    Reacts leader b posted j outcome [] := by
  refine inv.reacts_of_kept keeps kept (by rw [same]; exact inv.alive j) (by rw [same]; exact id)
    (fun e member => ?_) fun _ unset installed => ?_
  · rw [silent] at member
    cases member
  · rw [Node.clusterKey, same] at installed
    rw [Node.clusterKey] at unset
    rw [unset] at installed
    cases installed

section Relays

variable {level : Level} {step : SessionOutcome ρ} (relays : (b.node j).Relays level step outcome)
include relays

theorem Invariant.sent_of_relays {e : Envelope} (member : e ∈ outcome.mail) :
    level = .cluster ∧ e ∈ step.sends ∨ Wraps leader j outcome.node e := by
  rcases relays.sent .cluster e (NodeOutcome.mem_mail.1 member) with ⟨own, sent⟩ | broadcast
  · exact .inl ⟨own.symm, sent⟩
  · exact .inr ⟨inv.leads broadcast.2.1, broadcast.2.2⟩

theorem Invariant.wrapped_of_relays (leads : leader = some j)
    (unset : (b.node j).clusterKey = none) (installed : outcome.node.clusterKey.isSome) :
    ∃ e ∈ outcome.mail, e.kind = .wrappedKey := by
  have leading := (inv.role j).trans (Role.within_eq_leader.2 leads)
  obtain ⟨wrapped, broadcast⟩ := relays.broadcast leading unset installed
  exact ⟨_, NodeOutcome.mem_mail.2 broadcast, rfl⟩

end Relays

end Parts

variable [RandomSource ρ] (inv : Invariant ring leader b posted)
include inv

theorem Invariant.keeps {event : NodeEvent}
    (offered : ∀ wrapped, event.Offers (b.node j).cluster.roster (b.node j).cluster.own wrapped →
      Heard leader b wrapped) :
    (b.node j).Keeps K (Heard leader b) (b.outcome K j event) :=
  (inv.coherent j).handle offered (b.source j)

/-- What a node meets with in the ring of the leaders does not touch its session in the cluster. -/
theorem Invariant.reacts_aside (e : Envelope) :
    Reacts leader b posted j (b.outcome K j (.received .leader e)) [] := by
  have coherent := inv.coherent j
  have keeps : (b.node j).Keeps K (Heard leader b) (b.outcome K j (.received .leader e)) :=
    inv.keeps fun _ offers => by cases offers
  by_cases kind : e.kind = .wrappedKey ∨ e.kind = .appMessage
  · have refused : b.outcome K j (.received .leader e) =
        ⟨.error (.unexpectedKind e.kind .leaderRing), b.node j, b.source j⟩ := by
      rw [outcome, Node.handle, Node.receive_of_cluster_kind kind, Node.receiveClusterPayload,
        Node.clusterSender, if_pos (by simp)]
    exact inv.reacts_of_silent keeps (by rw [refused]) (by rw [refused]) (by rw [refused]; rfl)
  cases here : (b.node j).session? .leader with
  | none =>
    have absent : b.outcome K j (.received .leader e) = _ :=
      Node.receive_of_absent here (not_or.1 kind) (b.source j)
    exact inv.reacts_of_silent keeps (by rw [absent]) (by rw [absent]) (by rw [absent]; rfl)
  | some s =>
    have session := coherent.session .leader s here
    have handled : b.outcome K j (.received .leader e) = _ :=
      Node.receive_of_ring_kind here (not_or.1 kind) (b.source j)
    have applied := (b.node j).handleSession_cases session .leader (.received e) (b.source j)
    rw [handled] at keeps ⊢
    generalize (b.node j).handleSession K .leader s (.received e) (b.source j) = outcome
      at keeps applied
    have kept : outcome.node.cluster = (b.node j).cluster := by
      have cluster := congrFun applied.session?_eq .cluster
      rw [Function.update_of_ne (by simp)] at cluster
      exact Option.some.inj cluster
    cases failure : (s.handle K (.received e) (b.source j)).error? with
    | none =>
      have relays := applied.relays coherent here (session.handle _ _)
        (s.sameParty_handle K _ _) failure fun own => by cases own
      refine inv.reacts_of_kept keeps kept (relays.alive.trans (inv.alive j)) relays.supplied
        (fun e member => ?_) (inv.wrapped_of_relays relays)
      exact (inv.sent_of_relays relays member).resolve_left fun own => by cases own.1
    | some error =>
      cases applied with
      | failed =>
        exact inv.reacts_of_silent keeps kept ((b.node j).distributor_withSession .leader _) rfl
      | silent ok => cases ok.symm.trans failure
      | completed ok => cases ok.symm.trans failure

/-- The answer of a node's session in the cluster. -/
def answer (K : Kem) (b : Board ring.roster.size ρ) (j : Fin ring.roster.size)
    (event : SessionEvent) : SessionOutcome ρ :=
  (b.node j).cluster.handle K event (b.source j)

/-- A node learns the share of another one from a message of that node. -/
theorem Invariant.slot_cases {event : SessionEvent} {q : Fin ring.roster.size} (other : q ≠ j)
    (present : ((b.answer K j event).session.slot q).isSome) :
    ((b.node j).cluster.slot q).isSome ∨
      ∃ (e : Envelope) (c : Contribution) (sender : Fin (b.node j).cluster.roster.size),
        (sender : Nat) = q ∧ event = .received e ∧
          (b.node j).cluster.Hears e sender (.shareBroadcast c) := by
  obtain ⟨sender, position, foreign⟩ := inv.exists_sender other
  rw [← position] at present ⊢
  refine ((inv.steady.coherent j).slot_cases (fun own => foreign (congrArg Fin.val own))
    present).imp_right ?_
  rintro ⟨e, c, received, heard⟩
  exact ⟨e, c, sender, rfl, received, heard⟩

/-- An answer in which the session in the cluster takes an event well. -/
theorem Invariant.reacts_of_flows {event : SessionEvent} {outcome : NodeOutcome ρ}
    (flows : HonestRing.Flows (fun i => (b.node i).cluster) posted j (b.answer K j event))
    (session : outcome.node.cluster = (b.answer K j event).session)
    (keeps : (b.node j).Keeps K (Heard leader b) outcome)
    (alive : outcome.node.distributor.aborted = false)
    (supplied : (b.node j).distributor.Supplied → outcome.node.distributor.Supplied)
    (mailed : ∀ e ∈ (b.answer K j event).sends, (e.kind = .akeInit → leader ≠ some j) →
      e ∈ outcome.mail)
    (sent : ∀ e ∈ outcome.mail, e ∈ (b.answer K j event).sends ∨ Wraps leader j outcome.node e)
    (wrapped : leader = some j → (b.node j).clusterKey = none → outcome.node.clusterKey.isSome →
      ∃ e ∈ outcome.mail, e.kind = .wrappedKey)
    (heard : ∀ e c (sender : Fin (b.node j).cluster.roster.size), event = .received e →
      (b.node j).cluster.Hears e sender (.shareBroadcast c) →
        ∀ q : Fin ring.roster.size, (sender : Nat) = q →
          ∃ m, (q, m) ∈ b.log ∧ m.envelope.kind = .shareBroadcast) :
    Reacts leader b posted j outcome (HonestRing.mail j (b.answer K j event).actions) where
  keeps := keeps
  alive := alive
  supplied := supplied
  grown := by
    rw [session]
    exact flows.grown
  steady := by
    rw [session]
    exact inv.steady.step flows
  mailed p there := by
    obtain ⟨e, member, rfl⟩ := List.mem_map.1 there
    exact ⟨rfl, mailed e member⟩
  sent e member := (sent e member).imp_left fun own => List.mem_map.2 ⟨e, own, rfl⟩
  wrapped := wrapped
  shown q other present := by
    rw [session] at present
    rcases inv.slot_cases other present with before | ⟨e, c, sender, position, received, hears⟩
    · exact .inl before
    · exact .inr (heard e c sender received hears q position)

/-- A node that is started makes its offer, and one that was started before is left alone. -/
theorem Invariant.reacts_start (correct : K.Correct) :
    ∃ more, Reacts leader b posted j (b.outcome K j .start) more := by
  have coherent := inv.coherent j
  have cluster := inv.steady.coherent j
  have keeps : (b.node j).Keeps K (Heard leader b) (b.outcome K j .start) :=
    inv.keeps fun _ offers => by cases offers
  have started : (b.node j).Started K ρ (b.outcome K j .start) :=
    Node.start_cases cluster (coherent.session .leader) (b.source j)
  have same := started.distributor_eq
  cases begun : (b.node j).cluster.progress.initiated with
  | true =>
    obtain ⟨idle, silent⟩ := started.idle_of_begun begun
    exact ⟨[], inv.reacts_of_silent keeps (congrArg _ idle) same silent⟩
  | false =>
    obtain ⟨flows, -⟩ := inv.steady.sound.start correct cluster begun (b.source j)
    obtain ⟨offer, s, source, opened⟩ := cluster.exists_opened flows.unfailing
    obtain ⟨only, whole⟩ := Node.mail_start (coherent.session .leader) opened
    have sends : (b.answer K j .start).sends =
        [(b.node j).cluster.envelope (.akeInit offer)] := by
      rw [answer, opened]
      rfl
    rw [← sends] at only whole
    refine ⟨_, inv.reacts_of_flows flows ((b.node j).cluster_start (b.source j)) keeps
      ((congrArg _ same).trans (inv.alive j)) (by rw [same]; exact id) (fun e member kept => ?_)
      (fun e member => .inl (only member)) (fun _ unset installed => ?_)
      fun _ _ _ received => by cases received⟩
    · -- Only a leader can lose its offer, since nobody else has a second session to start.
      have unled : leader ≠ some j := kept (by
        rw [sends] at member
        rw [List.mem_singleton.1 member]
        rfl)
      have single : (b.node j).leader = none := by
        refine Option.not_isSome_iff_eq_none.1 fun led => unled ?_
        exact inv.leads (coherent.led.1 led)
      exact (whole single).symm ▸ member
    · have kept : (b.outcome K j .start).node.clusterKey = (b.node j).clusterKey :=
        congrArg Distributor.effective same
      rw [kept, unset] at installed
      cases installed

section Notice

variable {m : Notice} (published : (i, m) ∈ b.log) (other : i ≠ j)
include published other

/-- A node takes a message of another node's session. -/
theorem Invariant.reacts_letter (correct : K.Correct) (sent : ⟨i, m.envelope⟩ ∈ posted) :
    let outcome := b.outcome K j (.received .cluster m.envelope)
    ∃ more, Reacts leader b posted j outcome more ∧
      HonestRing.Taken i j m.envelope.kind outcome.node.cluster := by
  intro outcome
  have coherent := inv.coherent j
  have cluster := inv.steady.coherent j
  have kind : m.envelope.kind ≠ .wrappedKey ∧ m.envelope.kind ≠ .appMessage :=
    inv.steady.not_cluster_kind sent
  have here : (b.node j).session? .cluster = some (b.node j).cluster := rfl
  have handled : outcome = _ := Node.receive_of_ring_kind here kind (b.source j)
  obtain ⟨flows, taken⟩ := inv.steady.deliver correct sent other (b.source j)
  have session : outcome.node.cluster = (b.answer K j (.received m.envelope)).session := by
    rw [handled]
    exact (b.node j).cluster_handleSession _ _
  have keeps : (b.node j).Keeps K (Heard leader b) outcome :=
    inv.keeps fun _ offers => by
      cases offers with
      | mk wrapped => exact absurd wrapped kind.1
  have applied : (b.node j).Applied .cluster (b.node j).cluster
      (b.answer K j (.received m.envelope)) outcome := by
    rw [handled]
    exact (b.node j).handleSession_cases cluster _ _ _
  have relays := applied.relays coherent here (cluster.handle _ _)
    ((b.node j).cluster.sameParty_handle K _ _) flows.unfailing fun _ key made wrapped kept => by
      -- The wrapped key that was kept is the leader's own, so the new group key opens it.
      obtain ⟨l, -, -, -, -, genuine⟩ := (coherent.distributor.pending wrapped kept).2.2
      have steady := inv.steady.step flows
      change ring.Steady (Function.update _ j (b.answer K j _).session) _ at steady
      rw [← session, ← clusters_hand] at steady
      have held : ((b.hand K j (.received .cluster m.envelope)).node j).groupKey .cluster =
          some key := by
        rw [hand_node_self, ← made, ← session]
        rfl
      exact (genuine.hand keeps).fits steady held
  refine ⟨_, inv.reacts_of_flows flows session keeps (relays.alive.trans (inv.alive j))
    relays.supplied (fun e member _ => NodeOutcome.mem_mail.2 (relays.relayed e member))
    (fun e member => (inv.sent_of_relays relays member).imp_left And.right)
    (inv.wrapped_of_relays relays) ?_, ?_⟩
  · intro e c sender received heard q position
    obtain rfl := SessionEvent.received.inj received
    obtain ⟨payload, carried, backed⟩ := inv.steady.sound.backed _ sent
    have enveloped : m.envelope = (ring.post i payload).envelope := congrArg (·.envelope) carried
    rw [enveloped] at heard
    obtain ⟨origin, rfl⟩ := HonestRing.hears_post backed.sendable heard
    obtain rfl : q = i := Fin.ext (position.symm.trans origin)
    exact ⟨m, published, congrArg (·.kind) enveloped⟩
  · rw [session]
    exact taken

/-- A member takes the wrapped key of its leader. -/
theorem Invariant.reacts_parcel (leads : leader = some i) {wrapped : WrappedKey}
    (genuine : Genuine b.node i wrapped)
    (parcel : m.envelope = (Payload.wrappedKey wrapped).toEnvelope (.ofNat i) .everyone) :
    let outcome := b.outcome K j (.received .cluster m.envelope)
    Reacts leader b posted j outcome [] ∧ outcome.node.distributor.Supplied := by
  intro outcome
  have coherent := inv.coherent j
  obtain ⟨sender, position, foreign⟩ := inv.exists_sender other
  have handled : outcome = ⟨((b.node j).receiveWrapped wrapped).1,
      ((b.node j).receiveWrapped wrapped).2, b.source j⟩ := by
    have handled := Node.handle_wrapped (K := K) foreign wrapped (b.source j)
    rw [position, ← parcel] at handled
    exact handled
  have role := (inv.role j).trans (Role.within_eq_member leads (Ne.symm other))
  have stores : (b.node j).Stores outcome := by
    rw [handled]
    refine Node.stores_of_member role (inv.alive j) (fun key keyed => ?_) (b.source j)
    exact genuine.fits inv.steady ((congrFun coherent.known .cluster).symm.trans keyed)
  have keeps : (b.node j).Keeps K (Heard leader b) outcome := by
    rw [handled]
    have kind : m.envelope.kind = .wrappedKey := by
      rw [parcel]
      rfl
    exact coherent.receiveWrapped ⟨i, m, leads, published, kind, genuine⟩ _
  have kept : outcome.node.cluster = (b.node j).cluster :=
    Option.some.inj (congrFun stores.kept .cluster)
  have silent (e : Envelope) : e ∉ outcome.mail := fun member =>
    stores.silent _ _ (NodeOutcome.mem_mail.1 member)
  refine ⟨inv.reacts_of_kept keeps kept (stores.alive.trans (inv.alive j))
    (fun _ => stores.supplied) (fun e member => absurd member (silent e)) fun leads' => ?_,
    stores.supplied⟩
  exact absurd (Option.some.inj (leads.symm.trans leads')) other

omit published in
/-- A node that opens an application message stays as it is. -/
theorem Invariant.reacts_message (next : b.next j = some (i, m))
    (message : m.envelope.kind = .appMessage) :
    Reacts leader b posted j (b.outcome K j (.received .cluster m.envelope)) [] := by
  obtain ⟨key, plaintext, -, -, -, opened⟩ := inv.handle_message next other message
  have outcome : b.outcome K j (.received .cluster m.envelope) = _ := opened (b.source j)
  refine inv.reacts_of_silent (inv.keeps fun _ offers => ?_) ?_ ?_ ?_
  · cases offers with
    | mk wrapped => cases wrapped.symm.trans message
  · rw [outcome]
  · rw [outcome]
  · rw [outcome]
    rfl

end Notice

end Board

end RingAgreement
