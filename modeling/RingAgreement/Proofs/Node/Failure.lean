import RingAgreement.Proofs.Node.Parts
import RingAgreement.Proofs.Node.Relay
import RingAgreement.Proofs.Session.Failure
/-!
What it means that a run has failed. A fatal error, or a distribution that fails, comes from a
session or a distributor that is given up; none of them is taken up again, and without it the node
never comes to a key.
-/

namespace RingAgreement

/-- The failures of a step: a fatal error, or the ones that its actions report. -/
def NodeOutcome.failures {ρ : Type} (outcome : NodeOutcome ρ) : List SessionError :=
  match outcome.result with
  | .ok actions => actions.filterMap (·.error?)
  | .error e => if e.isFatal then [e] else []

/-! ## Errors of a distributor -/

namespace Distributor

variable {d : Distributor} {error : SessionError} {outcome : DistributorOutcome}

theorem Opens.aborted_of_error {cluster : GroupKey} {wrapped : WrappedKey}
    (opens : d.Opens cluster wrapped outcome) (failed : outcome.1 = .error error) :
    error.isFatal = true ∧ outcome.2.aborted = true := by
  cases opens with
  | opened => cases failed
  | spoilt =>
    cases failed
    exact ⟨rfl, rfl⟩

theorem Recorded.aborted_of_error {level : Level} {key : GroupKey}
    (recorded : d.Recorded level key outcome) (failed : outcome.1 = .error error) :
    error.isFatal = true ∧ outcome.2.aborted = true := by
  cases recorded with
  | supplied member own kept opens => exact opens.aborted_of_error failed
  | _ => cases failed

theorem Received.aborted_of_error {wrapped : WrappedKey} (received : d.Received wrapped outcome)
    (failed : outcome.1 = .error error) : error.isFatal = true ∧ outcome.2.aborted = true := by
  cases received with
  | ended aborted =>
    cases failed
    exact ⟨rfl, aborted⟩
  | unneeded => cases failed
  | buffered => cases failed
  | supplied member alive unset keyed opens => exact opens.aborted_of_error failed

end Distributor

/-! ## Failed nodes -/

namespace Node

variable {K : Kem} {node : Node} {heard : WrappedKey → Prop} {ρ : Type}

/-- A session of the node or its distributor has been given up. -/
def Failed (node : Node) : Prop :=
  node.distributor.aborted = true ∨ ∃ level s, node.session? level = some s ∧ s.state = .aborted

/-- Every role needs what has been given up. -/
theorem Coherent.keyless_of_failed (coherent : node.Coherent K heard) (failed : node.Failed) :
    node.clusterKey = none := by
  rcases failed with aborted | ⟨level, s, here, aborted⟩
  · exact (coherent.distributor.aborted aborted).2.2
  · have keyed : s.state = .established ↔ s.groupKey.isSome := (coherent.session level s here).keyed
    have fresh : s.groupKey = none := by
      rw [← Option.not_isSome_iff_eq_none, ← keyed, aborted]
      simp
    exact coherent.distributor.unset_of_fresh (coherent.unknown here fresh)
      (coherent.leading_of_session here)

/-- What has been given up is not taken up again. -/
theorem Failed.of_unfolds [RandomSource ρ] {later : Node} (failed : node.Failed)
    (unfolds : node.Unfolds K ρ later) : later.Failed := by
  rcases failed with aborted | ⟨level, s, here, aborted⟩
  · obtain ⟨calls, reached⟩ := unfolds.distributor
    rw [Distributor.after_of_aborted aborted] at reached
    exact .inl (by rw [reached, aborted])
  · obtain ⟨inputs, reached⟩ := unfolds.session level
    have ended := Session.after_of_unchanged (K := K)
      (fun event (source : ρ) => by rw [s.handle_aborted K aborted]) inputs
    rw [here, Option.map_some, ended] at reached
    exact .inr ⟨level, s, reached, aborted⟩

/-- Every failure of a step is fatal, and it leaves a failed node. -/
def Sound (outcome : NodeOutcome ρ) : Prop :=
  ∀ e ∈ outcome.failures, e.isFatal = true ∧ outcome.node.Failed

theorem sound_of_mild {result : Except SessionError (List NodeAction)} {source : ρ}
    (mild : (⟨result, node, source⟩ : NodeOutcome ρ).failures = []) :
    Sound (⟨result, node, source⟩ : NodeOutcome ρ) := by
  intro e member
  rw [mild] at member
  cases member

/-- The failures among the actions for an answer of a distributor. -/
theorem errors_distribute {level : Level} {key : GroupKey} {e : SessionError}
    (member : e ∈ (node.distribute level key).1.filterMap (·.error?)) :
    (node.distributor.record level key).1 = .error e := by
  rw [distribute_eq] at member
  dsimp only at member
  split at member
  next =>
    rw [errors_ofDistributor] at member
    cases member
  next error failed =>
    rw [failed]
    simpa [NodeAction.error?, eq_comm] using member

theorem Coherent.sound_applied {level : Level} {s : Session} {step : SessionOutcome ρ}
    {outcome : NodeOutcome ρ} (coherent : node.Coherent K heard)
    (here : node.session? level = some s) (applied : node.Applied level s step outcome)
    (aborts : ∀ e, step.result = .error e → e.isFatal = true → step.session.state = .aborted) :
    Sound outcome := by
  cases applied with
  | @failed error failed kept =>
    intro e member
    cases fatal : error.isFatal with
    | false => simp [NodeOutcome.failures, fatal] at member
    | true =>
      obtain rfl : e = error := by simpa [NodeOutcome.failures, fatal] using member
      refine ⟨fatal, .inr ⟨level, step.session, ?_, aborts e failed fatal⟩⟩
      dsimp only
      rw [session?_withSession, Function.update_self]
  | silent ok kept => exact sound_of_mild (errors_send level _)
  | @completed key early late distributed after ok fresh made mail told =>
    have recorded := Distributor.record_cases coherent.distributor (coherent.unknown here fresh)
      (coherent.leading_of_session here) key
    have reached := distribute_node (node.withSession level step.session) level key
    rw [told, distributor_withSession] at reached
    intro e member
    have listed : e ∈ distributed.filterMap (·.error?) := by
      simpa [NodeOutcome.failures, errors_send, NodeAction.error?] using member
    have reported : (node.distributor.record level key).1 = .error e := by
      rw [← distributor_withSession node level step.session]
      refine errors_distribute ?_
      rw [told]
      exact listed
    obtain ⟨fatal, aborted⟩ := recorded.aborted_of_error reported
    exact ⟨fatal, .inl ((congrArg (·.distributor.aborted) reached).trans aborted)⟩

/-! ## Messages of the cluster -/

theorem mild_of_clusterSender {level : Level} {e : Envelope} {error : SessionError}
    (refused : node.clusterSender level e = .error error) : error.isFatal = false := by
  rw [clusterSender] at refused
  split at refused
  · cases refused
    rfl
  · split at refused
    · cases refused
      rfl
    · split at refused
      · cases refused
      · cases refused

theorem failures_of_mild {error : SessionError} (mild : error.isFatal = false) (source : ρ) :
    (⟨.error error, node, source⟩ : NodeOutcome ρ).failures = [] := by
  simp [NodeOutcome.failures, mild]

theorem sound_receiveWrapped (node : Node) (wrapped : WrappedKey) (source : ρ) :
    Sound (⟨(node.receiveWrapped wrapped).1, (node.receiveWrapped wrapped).2, source⟩ :
      NodeOutcome ρ) := by
  have received := node.distributor.receiveWrapped_cases wrapped
  rw [Node.receiveWrapped]
  generalize node.distributor.receiveWrapped wrapped = outcome at received
  obtain ⟨result, d⟩ := outcome
  cases result with
  | ok actions => exact sound_of_mild (errors_ofDistributor actions)
  | error error =>
    obtain ⟨fatal, aborted⟩ := received.aborted_of_error rfl
    intro e member
    obtain rfl : e = error := by simpa [NodeOutcome.failures, Except.map, fatal] using member
    exact ⟨fatal, .inl aborted⟩

theorem sound_receiveClusterPayload (node : Node) (level : Level) (e : Envelope) (source : ρ) :
    Sound (⟨(node.receiveClusterPayload level e).1, (node.receiveClusterPayload level e).2,
      source⟩ : NodeOutcome ρ) := by
  rw [Node.receiveClusterPayload]
  split
  next refused => exact sound_of_mild (failures_of_mild (mild_of_clusterSender refused) source)
  next => exact sound_of_mild rfl
  next =>
    split
    next => exact sound_of_mild rfl
    next wrapped _ => exact sound_receiveWrapped node wrapped source
    next =>
      rw [openMessage]
      split
      next => exact sound_of_mild rfl
      next =>
        split
        next => exact sound_of_mild rfl
        next => exact sound_of_mild rfl
    next => exact sound_of_mild rfl

/-! ## Steps -/

variable [RandomSource ρ]

theorem Coherent.sound_handleSession (coherent : node.Coherent K heard) {level : Level}
    {s : Session} (here : node.session? level = some s) (event : SessionEvent) (source : ρ) :
    Sound (node.handleSession K level s event source) := by
  have s_coherent := coherent.session level s here
  exact coherent.sound_applied here (node.handleSession_cases s_coherent level event source)
    fun _ => s_coherent.aborted_of_fatal

theorem Coherent.sound_start (coherent : node.Coherent K heard) (source : ρ) :
    Sound (node.start K source) := by
  have own : node.session? .cluster = some node.cluster := rfl
  have first := coherent.sound_handleSession own .start source
  have kept := (coherent.handleSession own .start source).coherent
  rw [Node.start]
  dsimp only
  generalize node.handleSession K .cluster node.cluster .start source = outcome at first kept
  split
  next actions leader ok here =>
    have led : outcome.node.session? .leader = some leader := here
    have second := kept.sound_handleSession led .start outcome.source
    have unfolds := unfolds_handleSession (K := K) led .start outcome.source
    generalize outcome.node.handleSession K .leader leader .start outcome.source = last
      at second unfolds
    obtain ⟨result, after, source'⟩ := last
    cases result with
    | error => exact second
    | ok more =>
      intro e member
      have split : e ∈ actions.filterMap (·.error?) ∨ e ∈ more.filterMap (·.error?) := by
        rw [← List.mem_append, ← List.filterMap_append]
        exact member
      rcases split with early | late
      · -- What the first start has given up, the second one does not take up again.
        have failed := first e (by rw [NodeOutcome.failures, ok]; exact early)
        exact ⟨failed.1, failed.2.of_unfolds unfolds⟩
      · exact second e late
  next => exact first

theorem Coherent.sound_handle (coherent : node.Coherent K heard) (event : NodeEvent) (source : ρ) :
    Sound (node.handle K event source) := by
  cases event with
  | start => exact coherent.sound_start source
  | received level e =>
    rw [Node.handle]
    by_cases kind : e.kind = .wrappedKey ∨ e.kind = .appMessage
    · rw [receive_of_cluster_kind kind]
      exact sound_receiveClusterPayload node level e source
    · cases here : node.session? level with
      | none =>
        rw [receive_of_absent here (not_or.1 kind)]
        exact sound_of_mild rfl
      | some s =>
        rw [receive_of_ring_kind here (not_or.1 kind)]
        exact coherent.sound_handleSession here _ source

end Node

end RingAgreement
