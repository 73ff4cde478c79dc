import RingAgreement.Proofs.Board.Answer
/-!
Runs of a cluster around a board. Every move keeps the invariant, whoever makes it and whenever.
-/

namespace RingAgreement.Board

variable {K : Kem} {ring : HonestRing K} {leader : Option (Fin ring.roster.size)} {ρ : Type}
  [RandomSource ρ] {b : Board ring.roster.size ρ} {posted : List (Posted ring.roster.size)}

/-- A node with a key seals a message under it. -/
theorem say_of_key {i : Fin ring.roster.size} {key : ClusterKey}
    (known : (b.node i).clusterKey = some key) (plaintext : List UInt8) : ∃ nonce source,
      b.say i plaintext = Board.send { b with source := source } i
        [⟨(Payload.appMessage (.make key (b.node i).clusterIndex plaintext nonce)).toEnvelope
          (b.node i).clusterIndex .everyone, some (key, plaintext)⟩] := by
  simp only [say, Node.sealMessage, known, Option.map_some]
  exact ⟨_, _, rfl⟩

section Moves

variable (inv : Invariant ring leader b posted)
include inv

omit [RandomSource ρ] in
theorem Invariant.exists_more : ∃ more, Invariant ring leader b (posted ++ more) :=
  ⟨[], by rwa [List.append_nil]⟩

omit [RandomSource ρ] in
theorem Invariant.of_source (source : Fin ring.roster.size → ρ) :
    Invariant ring leader { b with source := source } posted :=
  ⟨inv.role, inv.coherent, inv.alive, inv.steady, inv.origin, inv.mailed, inv.wrapped, inv.shown,
    inv.absorbed, inv.ordered, inv.behind⟩

/-- A node that seals a message has its key from what it has read and sent. -/
theorem Invariant.say (i : Fin ring.roster.size) (plaintext : List UInt8) :
    Invariant ring leader (b.say i plaintext) posted := by
  cases known : (b.node i).clusterKey with
  | none =>
    unfold Board.say Node.sealMessage
    rw [known]
    exact inv.of_source _
  | some key =>
    obtain ⟨nonce, source, said⟩ := say_of_key known plaintext
    rw [said, inv.clusterIndex_eq i]
    refine (inv.of_source source).send (fun m member => ?_) fun _ _ _ => inv.ready_of_key known
    obtain rfl := List.mem_singleton.1 member
    exact .message known plaintext nonce

/-- A node that comes to a notice of another one takes it. -/
theorem Invariant.read (correct : K.Correct) (j : Fin ring.roster.size) :
    ∃ more, Invariant ring leader (b.read K j) (posted ++ more) := by
  unfold Board.read
  split
  next => exact inv.exists_more
  next i m next =>
    split
    next own => exact (inv.advance next (absurd own)).exists_more
    next other =>
      have published : (i, m) ∈ b.log := List.mem_of_getElem? next
      have here : (b.hand K j (.received .cluster m.envelope)).next j = some (i, m) := next
      cases inv.origin i m (.inl published) with
      | @letter e sent =>
        obtain ⟨more, reacts, taken⟩ := inv.reacts_letter published other correct sent
        refine ⟨more, (inv.hand reacts).advance here fun _ => ⟨?_, fun kind => ?_⟩⟩
        · rw [hand_node_self]
          exact taken
        · exact absurd kind (inv.steady.not_cluster_kind sent).1
      | parcel leads genuine =>
        obtain ⟨reacts, supplied⟩ := inv.reacts_parcel published other leads genuine rfl
        refine ⟨[], (inv.hand reacts).advance here fun _ => ⟨⟨nofun, nofun, nofun⟩, fun _ => ?_⟩⟩
        rw [hand_node_self]
        exact supplied
      | message =>
        have reacts := inv.reacts_message other next rfl
        exact ⟨[], (inv.hand reacts).advance here fun _ => ⟨⟨nofun, nofun, nofun⟩, nofun⟩⟩

/-- Every move keeps the invariant. -/
theorem Invariant.play (correct : K.Correct) (move : Move ring.roster.size) :
    ∃ more, Invariant ring leader (b.play K move) (posted ++ more) := by
  cases move with
  | start i =>
    obtain ⟨more, reacts⟩ := inv.reacts_start (j := i) correct
    exact ⟨more, inv.hand reacts⟩
  | aside i e => exact ⟨[], inv.hand (inv.reacts_aside e)⟩
  | say i plaintext => exact (inv.say i plaintext).exists_more
  | publish i => exact (inv.publish i).exists_more
  | read i => exact inv.read correct i

end Moves

theorem Invariant.run (inv : Invariant ring leader b posted) (correct : K.Correct)
    (moves : List (Move ring.roster.size)) :
    ∃ more, Invariant ring leader (b.run K moves) (posted ++ more) := by
  induction moves generalizing b posted with
  | nil => exact inv.exists_more
  | cons move rest ih =>
    obtain ⟨more, moved⟩ := inv.play correct move
    obtain ⟨last, ended⟩ := ih moved
    exact ⟨more ++ last, by rwa [← List.append_assoc]⟩

end RingAgreement.Board
