import RingAgreement.Proofs.Board.Leading
/-!
Application messages around a board. None comes to a node before the key that it was sealed with,
and they do come.
-/

namespace RingAgreement.Board

variable {K : Kem} {ring : HonestRing K} {ρ : Type} [RandomSource ρ]
  {b : Board ring.roster.size ρ}

/-- A node that has its key seals a message. -/
theorem exists_said {i : Fin ring.roster.size} {key : ClusterKey}
    (known : (b.node i).clusterKey = some key) (plaintext : List UInt8) :
    ∃ m ∈ (b.say i plaintext).outbox i, m.envelope.kind = .appMessage ∧
      m.secret = some (key, plaintext) := by
  obtain ⟨nonce, source, said⟩ := say_of_key known plaintext
  let e := (Payload.appMessage (.make key (b.node i).clusterIndex plaintext nonce)).toEnvelope
    (b.node i).clusterIndex .everyone
  refine ⟨⟨e, some (key, plaintext)⟩, ?_, rfl, rfl⟩
  rw [said]
  dsimp only [send]
  rw [Function.update_self]
  exact List.mem_append_right _ List.mem_cons_self

/-- A node that has its key can seal a message, and any other one can come to it. -/
theorem Invariant.exists_next {leader : Option (Fin ring.roster.size)}
    {posted : List (Posted ring.roster.size)} (inv : Invariant ring leader b posted)
    {i : Fin ring.roster.size} {key : ClusterKey} (known : (b.node i).clusterKey = some key)
    (plaintext : List UInt8) (j : Fin ring.roster.size) : ∃ later m, b.Reaches K later ∧
      later.next j = some (i, m) ∧ m.envelope.kind = .appMessage ∧
        m.secret = some (key, plaintext) := by
  obtain ⟨m, waiting, message, sealed⟩ := exists_said known plaintext
  have said := inv.say i plaintext
  have saying : b.Reaches K (b.say i plaintext) := ⟨[.say i plaintext], rfl⟩
  generalize b.say i plaintext = b at waiting said saying
  obtain ⟨publishing, more, published, out⟩ := exists_all_published K b
  obtain ⟨number, here⟩ := List.mem_iff_getElem?.1 (out i m waiting)
  -- The message stands behind all that was on the board, and so the other node has not passed it.
  let position := b.log.length + number
  have next : (b.run K publishing).log[position]? = some (i, m) := by
    rw [published.log, List.getElem?_append_right (Nat.le_add_right _ _), Nat.add_sub_cancel_left]
    exact here
  have behind : (b.run K publishing).cursor j ≤ position := by
    rw [published.cursor]
    exact Nat.le_add_right_of_le (said.behind j)
  obtain ⟨reading, log, cursor⟩ := exists_read_to K (b.run K publishing) behind
    (Nat.le_of_lt (List.getElem?_eq_some_iff.1 next).1)
  refine ⟨_, m, saying.trans (.trans ⟨publishing, rfl⟩ ⟨reading, rfl⟩), ?_, message, sealed⟩
  rw [Board.next, log, cursor, Function.update_self]
  exact next

/-- No application message outruns its key. The nodes of a cluster, all standalone or one the leader
and the others members, publish what they send on a board, each in its order, and each reads there
what the others have published, at its own pace. Whenever a node comes to an application message
of another one, it has the key that the message was sealed with, and all it does is to deliver the
plaintext with its sender. -/
theorem messages_follow_key (K : Kem) (correct : K.Correct) (ring : HonestRing K)
    (leader : Option (Fin ring.roster.size))
    (leaders : Fin ring.roster.size → Option (Roster × Nat)) (node : Fin ring.roster.size → Node)
    (made : ∀ i : Fin ring.roster.size, Node.make ⟨ring.roster, i, leaders i, .within leader i⟩
      (ring.pair i).secretKey = .ok (node i))
    (source : Fin ring.roster.size → ρ) (moves : List (Move ring.roster.size))
    (i j : Fin ring.roster.size) (m : Notice)
    (next : ((start node source).run K moves).next j = some (i, m)) (other : i ≠ j)
    (message : m.envelope.kind = .appMessage) :
    let w := (start node source).run K moves
    ∃ key plaintext, m.secret = some (key, plaintext) ∧ (w.node i).clusterKey = some key ∧
      (w.node j).clusterKey = some key ∧ w.outcome K j (.received .cluster m.envelope) =
        ⟨.ok [.deliver (.ofNat i) plaintext], w.node j, w.source j⟩ := by
  intro w
  obtain ⟨more, inv⟩ := (Invariant.start source leaders made).run correct moves
  obtain ⟨key, plaintext, sealed, used, held, opened⟩ := inv.handle_message next other message
  exact ⟨key, plaintext, sealed, used, held, opened (w.source j)⟩

/-- In a cluster of three that the first node leads, the second one seals a message, and the third
one delivers it. -/
theorem trio_delivers_sealed :
    let ring := HonestRing.trio
    let first : Fin ring.roster.size := ⟨0, by decide⟩
    let second : Fin ring.roster.size := ⟨1, by decide⟩
    let third : Fin ring.roster.size := ⟨2, by decide⟩
    let leaders := crewLeaders ring ring first first
    let node := crew ring ring first first
    let source : Fin ring.roster.size → DrawCounter := fun _ => ⟨0⟩
    Kem.transparent.Correct ∧ (∀ i : Fin ring.roster.size, Node.make
      ⟨ring.roster, i, leaders i, .within (some first) i⟩ (ring.pair i).secretKey = .ok (node i)) ∧
    second ≠ third ∧ ∃ moves m key, let w := (start node source).run .transparent moves
      w.next third = some (second, m) ∧ m.envelope.kind = .appMessage ∧
      m.secret = some (key, [104, 105]) ∧ (w.node third).clusterKey = some key ∧
      w.outcome .transparent third (.received .cluster m.envelope) =
        ⟨.ok [.deliver 1 [104, 105]], w.node third, w.source third⟩ := by
  intro ring first second third leaders node source
  have correct := Kem.transparent_correct
  have made := make_crew (rfl : ring.pair first = ring.pair first)
  have other : second ≠ third := by decide
  obtain ⟨b, posted, reached, inv, keyed⟩ :=
    exists_led_keyed correct (rfl : ring.pair first = ring.pair first) source
  obtain ⟨key, known⟩ := keyed second
  obtain ⟨later, m, sealing, next, message, sealed⟩ := inv.exists_next known [104, 105] third
  obtain ⟨moves, rfl⟩ := reached.trans sealing
  obtain ⟨key', plaintext, same, -, held, delivered⟩ :=
    messages_follow_key .transparent correct ring (some first) leaders node made source moves second
      third m next other message
  obtain ⟨rfl, rfl⟩ := Prod.mk.inj (Option.some.inj (sealed.symm.trans same))
  exact ⟨correct, made, other, moves, m, key, next, message, sealed, held, delivered⟩

end RingAgreement.Board
