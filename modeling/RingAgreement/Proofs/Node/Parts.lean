import RingAgreement.Proofs.Node.Decision
import RingAgreement.Proofs.Node.Run
/-!
The parts of a node. Whatever a node is handed, each of its sessions goes through the states of a
session that was handed events, and its distributor through those of a distributor that was called.
-/

namespace RingAgreement

namespace Node

variable {K : Kem} {node : Node} {ρ : Type} {level : Level} {s : Session}

/-- The node with a distributor that was called. -/
def told (node : Node) (calls : List DistributorCall) : Node :=
  { node with distributor := node.distributor.after calls }

@[simp] theorem session?_told (node : Node) (calls : List DistributorCall) :
    (node.told calls).session? = node.session? := by
  funext level
  cases level <;> rfl

theorem applySession_node (level : Level) (node : Node) (actions : List SessionAction) :
    (applySession level node actions).2 =
      node.told ((actions.filterMap (·.key?)).map (.established level)) := by
  induction actions generalizing node with
  | nil => rfl
  | cons action rest ih =>
    cases action with
    | send e => exact ih node
    | established key =>
      rw [applySession]
      dsimp only
      rw [ih, distribute_node]
      rfl

variable [RandomSource ρ]

/-- A node whose session on a level takes an event tells its distributor about new keys. -/
theorem handleSession_node (node : Node) (level : Level) (s : Session) (event : SessionEvent)
    (source : ρ) :
    (node.handleSession K level s event source).node =
      (node.withSession level (s.handle K event source).session).told
        ((s.handle K event source).keys.map (.established level)) := by
  rw [handleSession]
  generalize s.handle K event source = outcome
  obtain ⟨result, s', source'⟩ := outcome
  cases result with
  | error => rfl
  | ok actions => exact applySession_node level _ actions

theorem session?_handleSession (node : Node) (level : Level) (s : Session) (event : SessionEvent)
    (source : ρ) : (node.handleSession K level s event source).node.session? =
      Function.update node.session? level (some (s.handle K event source).session) := by
  rw [handleSession_node, session?_told, session?_withSession]

theorem handleSession_source (node : Node) (level : Level) (s : Session) (event : SessionEvent)
    (source : ρ) :
    (node.handleSession K level s event source).source = (s.handle K event source).source := by
  rw [handleSession]
  dsimp only
  split <;> rfl

theorem receiveClusterPayload_node (node : Node) (level : Level) (e : Envelope) :
    ∃ calls, (node.receiveClusterPayload level e).2 = node.told calls := by
  rw [receiveClusterPayload]
  split
  · exact ⟨[], rfl⟩
  · exact ⟨[], rfl⟩
  · split
    · exact ⟨[], rfl⟩
    next wrapped _ => exact ⟨[.received wrapped], rfl⟩
    · exact ⟨[], rfl⟩
    · exact ⟨[], rfl⟩

/-- An envelope is handed to a session or to the distributor, or to neither of them. -/
theorem receive_node (node : Node) (level : Level) (e : Envelope) (source : ρ) :
    (∃ calls, (node.receive K level e source).node = node.told calls) ∨
      ∃ s, node.session? level = some s ∧ (node.receive K level e source).node =
        (node.handleSession K level s (.received e) source).node := by
  by_cases kind : e.kind = .wrappedKey ∨ e.kind = .appMessage
  · rw [receive_of_cluster_kind kind]
    exact .inl (node.receiveClusterPayload_node level e)
  · cases here : node.session? level with
    | none =>
      rw [receive_of_absent here (not_or.1 kind)]
      exact .inl ⟨[], rfl⟩
    | some s =>
      rw [receive_of_ring_kind here (not_or.1 kind)]
      exact .inr ⟨s, rfl, rfl⟩

/-! ## Runs -/

/-- A later state of a node, part by part. -/
structure Unfolds (K : Kem) (ρ : Type) [RandomSource ρ] (node later : Node) : Prop where
  session : ∀ level, ∃ inputs : List (SessionEvent × ρ),
    later.session? level = (node.session? level).map (·.after K inputs)
  distributor : ∃ calls, later.distributor = node.distributor.after calls

theorem unfolds_told (node : Node) (calls : List DistributorCall) :
    node.Unfolds K ρ (node.told calls) := by
  refine ⟨fun level => ⟨[], ?_⟩, calls, rfl⟩
  rw [session?_told]
  exact Option.map_id'.symm

theorem Unfolds.refl (K : Kem) (ρ : Type) [RandomSource ρ] (node : Node) : node.Unfolds K ρ node :=
  unfolds_told node []

theorem Unfolds.trans {later last : Node} (first : node.Unfolds K ρ later)
    (second : later.Unfolds K ρ last) : node.Unfolds K ρ last := by
  refine ⟨fun level => ?_, ?_⟩
  · obtain ⟨inputs, reached⟩ := first.session level
    obtain ⟨more, ended⟩ := second.session level
    refine ⟨inputs ++ more, ?_⟩
    rw [ended, reached, Option.map_map]
    congr 1
    funext s
    exact (s.after_append K inputs more).symm
  · obtain ⟨calls, reached⟩ := first.distributor
    obtain ⟨more, ended⟩ := second.distributor
    exact ⟨calls ++ more, by rw [ended, reached, Distributor.after_append]⟩

theorem unfolds_handleSession (here : node.session? level = some s) (event : SessionEvent)
    (source : ρ) : node.Unfolds K ρ (node.handleSession K level s event source).node := by
  rw [handleSession_node]
  have moved : node.Unfolds K ρ (node.withSession level (s.handle K event source).session) := by
    refine ⟨fun other => ?_, [], node.distributor_withSession level _⟩
    rw [session?_withSession]
    by_cases same : other = level
    · subst same
      exact ⟨[(event, source)], by rw [Function.update_self, here]; rfl⟩
    · exact ⟨[], by rw [Function.update_of_ne same]; exact Option.map_id'.symm⟩
  exact moved.trans (unfolds_told _ _)

theorem unfolds_start (node : Node) (source : ρ) :
    node.Unfolds K ρ (node.start K source).node := by
  have first : node.Unfolds K ρ (node.handleSession K .cluster node.cluster .start source).node :=
    unfolds_handleSession rfl .start source
  rw [start]
  dsimp only
  split
  next leader _ led =>
    have here : (node.handleSession K .cluster node.cluster .start source).node.session? .leader =
      some leader := led
    exact first.trans (unfolds_handleSession here .start _)
  next => exact first

theorem unfolds_handle (node : Node) (event : NodeEvent) (source : ρ) :
    node.Unfolds K ρ (node.handle K event source).node := by
  cases event with
  | start => exact node.unfolds_start source
  | received level e =>
    rw [handle]
    rcases node.receive_node level e source with ⟨calls, reached⟩ | ⟨s, here, reached⟩
    · rw [reached]
      exact unfolds_told node calls
    · rw [reached]
      exact unfolds_handleSession here (.received e) source

theorem unfolds_after (node : Node) (inputs : List (NodeEvent × ρ)) :
    node.Unfolds K ρ (node.after K inputs) := by
  induction inputs generalizing node with
  | nil => exact .refl K ρ node
  | cons input rest ih => exact (node.unfolds_handle input.1 input.2).trans (ih _)

end Node

end RingAgreement
