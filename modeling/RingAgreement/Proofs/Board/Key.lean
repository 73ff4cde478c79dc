import RingAgreement.Proofs.Board.Invariant
/-!
The key of a cluster around a board. All nodes that have it have the same one; whoever has it has
made it from notices that are on the board or in the own outbox; and whoever has read these notices
has it, so that an application message finds it there.
-/

namespace RingAgreement

namespace Role

variable {n : Nat} {leader : Option (Fin n)} {i l : Fin n}

theorem within_eq_leader : within leader i = .leader ↔ leader = some i := by
  cases leader with
  | none => simp [within]
  | some l =>
    rw [within, Option.some.injEq]
    split
    next own => simp [own]
    next other => simp [Ne.symm other]

theorem within_eq_member (leads : leader = some l) (other : i ≠ l) : within leader i = .member := by
  subst leads
  exact if_neg other

end Role

/-- A node with the key of its cluster has the group key of its ring. -/
theorem Node.Coherent.exists_groupKey {K : Kem} {heard : WrappedKey → Prop} {node : Node}
    (coherent : node.Coherent K heard) {key : ClusterKey} (known : node.clusterKey = some key) :
    ∃ g, node.groupKey .cluster = some g := by
  have same : node.distributor.clusterKey = node.groupKey .cluster :=
    congrFun coherent.known .cluster
  rw [← same]
  have installed : node.distributor.effective = some key := known
  cases role : node.distributor.role with
  | standalone =>
    rw [coherent.distributor.standalone role, Option.map_eq_some_iff] at installed
    obtain ⟨g, keyed, -⟩ := installed
    exact ⟨g, keyed⟩
  | leader =>
    rw [coherent.distributor.leading role, Option.bind_eq_some_iff] at installed
    obtain ⟨g, keyed, -⟩ := installed
    exact ⟨g, keyed⟩
  | member =>
    obtain ⟨g, keyed, -⟩ := coherent.distributor.unwrapped role key installed
    exact ⟨g, keyed⟩

namespace Board

variable {K : Kem} {ring : HonestRing K} {leader : Option (Fin ring.roster.size)} {ρ : Type}
  {b : Board ring.roster.size ρ} {posted : List (Posted ring.roster.size)}
  {i j l : Fin ring.roster.size} {key key' : ClusterKey} (inv : Invariant ring leader b posted)

theorem mem_of_sent {n : Nat} {b : Board n ρ} {i : Fin n} {m : Notice} (sent : b.Sent i m) :
    (i, m) ∈ b.log ++ (b.outbox i).map (Prod.mk i) :=
  List.mem_append.2 (sent.imp_right (List.mem_map_of_mem (f := Prod.mk i)))

/-- What a node is to read next stands behind what it has read. -/
theorem log_eq_of_next {n : Nat} {b : Board n ρ} {j : Fin n} {x : Fin n × Notice}
    (next : b.next j = some x) :
    b.log = b.log.take (b.cursor j) ++ x :: b.log.drop (b.cursor j + 1) := by
  obtain ⟨inside, rfl⟩ := List.getElem?_eq_some_iff.1 next
  rw [← List.drop_eq_getElem_cons inside, List.take_append_drop]

include inv

theorem Invariant.clusterIndex_eq (i : Fin ring.roster.size) :
    (b.node i).clusterIndex = .ofNat i :=
  congrArg UInt32.ofNat (inv.steady.sound.own_eq i)

/-- A node finds every other one in its ring. -/
theorem Invariant.exists_sender (other : i ≠ j) :
    ∃ sender : Fin (b.node j).cluster.roster.size, (sender : Nat) = i ∧
      (sender : Nat) ≠ (b.node j).cluster.own := by
  have sized := HonestRing.roster_of_member (inv.steady.sound.member j)
  refine ⟨⟨i, by rw [sized]; exact i.isLt⟩, rfl, ?_⟩
  rw [inv.steady.sound.own_eq j]
  exact fun same => other (Fin.ext same)

/-! ## Agreement -/

/-- In a cluster with a leader every key is that of the leaders' ring. -/
theorem Invariant.leader_key (leads : leader = some l) (known : (b.node i).clusterKey = some key) :
    ∃ k, (b.node l).groupKey .leader = some k ∧ key = ⟨k.key⟩ := by
  have coherent := inv.coherent i
  have installed : (b.node i).distributor.effective = some key := known
  by_cases own : i = l
  · subst own
    have role := (inv.role i).trans (Role.within_eq_leader.2 leads)
    rw [coherent.distributor.leading role, Option.bind_eq_some_iff] at installed
    obtain ⟨-, -, installed⟩ := installed
    obtain ⟨k, keyed, rfl⟩ := Option.map_eq_some_iff.1 installed
    exact ⟨k, (congrFun coherent.known .leader).symm.trans keyed, rfl⟩
  · have role := (inv.role i).trans (Role.within_eq_member leads own)
    obtain ⟨g, keyed, l', m, leads', -, -, g', k, clusterKey, leaderKey, wraps⟩ :=
      coherent.distributor.unwrapped role key installed
    obtain rfl : l = l' := Option.some.inj (leads.symm.trans leads')
    -- Leader and member have the group key of one ring, so the wrapping can be taken off.
    obtain rfl : g = g' :=
      inv.steady.agree ((congrFun coherent.known .cluster).symm.trans keyed) clusterKey
    exact ⟨k, leaderKey, congrArg ClusterKey.mk (WrappingKey.wrap_injective _ wraps)⟩

theorem Invariant.standalone_key (unled : leader = none) {g : GroupKey}
    (keyed : (b.node i).groupKey .cluster = some g) : (b.node i).clusterKey = some ⟨g.key⟩ := by
  have coherent := inv.coherent i
  have role : (b.node i).distributor.role = .standalone := by
    have role := inv.role i
    rwa [unled] at role
  have known : (b.node i).distributor.clusterKey = some g :=
    (congrFun coherent.known .cluster).trans keyed
  rw [Node.clusterKey, coherent.distributor.standalone role, known, Option.map_some]

theorem Invariant.leading_key (leads : leader = some l) {g k : GroupKey}
    (keyed : (b.node l).groupKey .cluster = some g) (held : (b.node l).groupKey .leader = some k) :
    (b.node l).clusterKey = some ⟨k.key⟩ := by
  have coherent := inv.coherent l
  have role := (inv.role l).trans (Role.within_eq_leader.2 leads)
  have clusterKey : (b.node l).distributor.clusterKey = some g :=
    (congrFun coherent.known .cluster).trans keyed
  have leaderKey : (b.node l).distributor.leaderKey = some k :=
    (congrFun coherent.known .leader).trans held
  rw [Node.clusterKey, coherent.distributor.leading role, clusterKey, leaderKey]
  rfl

/-- All nodes that have a key have the same one. -/
theorem Invariant.agree (known : (b.node i).clusterKey = some key)
    (known' : (b.node j).clusterKey = some key') : key = key' := by
  cases led : leader with
  | some l =>
    obtain ⟨k, held, rfl⟩ := inv.leader_key led known
    obtain ⟨k', held', rfl⟩ := inv.leader_key led known'
    rw [Option.some.inj (held.symm.trans held')]
  | none =>
    obtain ⟨g, keyed⟩ := (inv.coherent i).exists_groupKey known
    obtain ⟨g', keyed'⟩ := (inv.coherent j).exists_groupKey known'
    obtain rfl : g = g' := inv.steady.agree keyed keyed'
    exact Option.some.inj (known.symm.trans ((inv.standalone_key led keyed).trans
      ((inv.standalone_key led keyed').symm.trans known')))

/-! ## From the key to the notices, and back -/

/-- What a node has sent in its ring shows in its session. Only a leader may have lost its offer. -/
theorem Invariant.sent_of_tally {kind : MessageKind} (kept : kind = .akeInit → leader ≠ some i)
    (due : 0 < (b.node i).cluster.tally kind) : b.SentKind i kind := by
  obtain ⟨p, there, stamp⟩ := List.mem_map.1 (inv.steady.sound.stamp_mem.2 due)
  obtain ⟨rfl, rfl⟩ := Prod.mk.inj stamp
  exact ⟨_, inv.mailed p there kept, rfl⟩

theorem Invariant.tally_of_sent {kind : MessageKind}
    (ours : kind ≠ .wrappedKey ∧ kind ≠ .appMessage) (sent : b.SentKind i kind) :
    0 < (b.node i).cluster.tally kind := by
  obtain ⟨m, sent, rfl⟩ := sent
  cases inv.origin i m sent with
  | letter posted => exact inv.steady.sound.stamp_mem.1 (List.mem_map.2 ⟨_, posted, rfl⟩)
  | parcel => exact absurd rfl ours.1
  | message => exact absurd rfl ours.2

/-- The share of a node is sent once it is stored. -/
theorem Invariant.share_sent_iff :
    b.SentKind i .shareBroadcast ↔ ((b.node i).cluster.slot i).isSome := by
  have own : ((b.node i).cluster.own : Nat) = i := inv.steady.sound.own_eq i
  rw [← own]
  exact ⟨fun sent => Session.toNat_pos_iff.1 (inv.tally_of_sent (by simp) sent),
    fun stored => inv.sent_of_tally (by simp) (Session.toNat_pos_iff.2 stored)⟩

/-- Everything that a key was made from is on the board, or it waits in the outbox of the node. -/
theorem Invariant.ready_of_key (known : (b.node i).clusterKey = some key) :
    Ready leader (b.log ++ (b.outbox i).map (Prod.mk i)) := by
  have coherent := inv.coherent i
  obtain ⟨g, keyed⟩ := coherent.exists_groupKey known
  have session := coherent.session .cluster _ rfl
  have established := session.keyed.2 (Option.isSome_of_mem keyed)
  obtain ⟨-, -, filled⟩ := session.complete established
  have sized := HonestRing.roster_of_member (inv.steady.sound.member i)
  have present (q : Fin ring.roster.size) : ((b.node i).cluster.slot q).isSome :=
    filled ⟨q, by rw [sized]; exact q.isLt⟩
  constructor
  · intro q
    by_cases own : q = i
    · subst own
      obtain ⟨m, sent, kind⟩ := inv.share_sent_iff.2 (present q)
      exact ⟨m, mem_of_sent sent, kind⟩
    · obtain ⟨m, there, kind⟩ := inv.shown i q own (present q)
      exact ⟨m, List.mem_append_left _ there, kind⟩
  · intro l leads
    by_cases own : i = l
    · subst own
      obtain ⟨m, sent, kind⟩ := inv.wrapped i leads (Option.isSome_of_mem known)
      exact ⟨m, mem_of_sent sent, kind⟩
    · have role := (inv.role i).trans (Role.within_eq_member leads own)
      obtain ⟨-, -, l', m, leads', there, kind, -⟩ :=
        coherent.distributor.unwrapped role key known
      obtain rfl : l = l' := Option.some.inj (leads.symm.trans leads')
      exact ⟨m, List.mem_append_left _ there, kind⟩

/-- Whoever has read the shares of all nodes has the key of the ring. -/
theorem Invariant.groupKey_of_shares
    (shares : ∀ q, ∃ m, (q, m) ∈ b.log.take (b.cursor j) ∧ m.envelope.kind = .shareBroadcast) :
    ∃ g, (b.node j).groupKey .cluster = some g := by
  have filled (q : Fin ring.roster.size) : ((b.node j).cluster.slot q).isSome := by
    obtain ⟨m, read, kind⟩ := shares q
    by_cases own : q = j
    · subst own
      exact inv.share_sent_iff.1 ⟨m, .inl (List.mem_of_mem_take read), kind⟩
    · exact (inv.absorbed j q m read own).taken.share kind
  obtain ⟨c, verified⟩ := inv.steady.sound.verified j filled
  exact Option.isSome_iff_exists.1 ((inv.steady.coherent j).exhausted c verified)

/-- Whoever has read everything that the key of another node was made from has that key. -/
theorem Invariant.key_of_ready (ready : Ready leader (b.log.take (b.cursor j)))
    (known : (b.node i).clusterKey = some key) : (b.node j).clusterKey = some key := by
  have coherent := inv.coherent j
  obtain ⟨g, keyed⟩ := inv.groupKey_of_shares ready.shares
  have held : (b.node j).distributor.clusterKey = some g :=
    (congrFun coherent.known .cluster).trans keyed
  have installed : ∃ key', (b.node j).clusterKey = some key' := by
    cases led : leader with
    | none => exact ⟨_, inv.standalone_key led keyed⟩
    | some l =>
      by_cases own : j = l
      · subst own
        obtain ⟨k, leaderKey, -⟩ := inv.leader_key led known
        exact ⟨_, inv.leading_key led keyed leaderKey⟩
      · obtain ⟨m, read, kind⟩ := ready.wrapped l led
        rcases (inv.absorbed j l m read (Ne.symm own)).supplied kind with pending | effective
        · obtain ⟨wrapped, kept⟩ := Option.isSome_iff_exists.1 pending
          have unkeyed := (coherent.distributor.pending wrapped kept).2.1
          rw [held] at unkeyed
          cases unkeyed
        · exact Option.isSome_iff_exists.1 effective
  obtain ⟨key', known'⟩ := installed
  rw [known', inv.agree known known']

/-! ## Application messages -/

/-- A node opens every application message that it is handed, with the key of its sender. -/
theorem Invariant.handle_message [RandomSource ρ] {m : Notice} (next : b.next j = some (i, m))
    (other : i ≠ j) (message : m.envelope.kind = .appMessage) :
    ∃ key plaintext, m.secret = some (key, plaintext) ∧ (b.node i).clusterKey = some key ∧
      (b.node j).clusterKey = some key ∧
      ∀ source : ρ, (b.node j).handle K (.received .cluster m.envelope) source =
        ⟨.ok [.deliver (.ofNat i) plaintext], b.node j, source⟩ := by
  have ready := inv.ordered.published _ i m _ (log_eq_of_next next) message
  have origin := inv.origin i m (.inl (List.mem_of_getElem? next))
  cases origin with
  | letter sent => exact absurd message (inv.steady.not_cluster_kind sent).2
  | parcel => cases message
  | @message key known plaintext nonce =>
    have held := inv.key_of_ready ready known
    obtain ⟨sender, position, foreign⟩ := inv.exists_sender other
    have admitted := Node.clusterSender_toEnvelope foreign
      (.appMessage (.make key (.ofNat i) plaintext nonce))
    rw [position] at admitted
    exact ⟨key, plaintext, rfl, known, held,
      fun source => Node.handle_sealed held plaintext nonce source admitted⟩

end Board

end RingAgreement
