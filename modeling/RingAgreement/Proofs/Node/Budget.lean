import RingAgreement.Proofs.Node.Sends
import RingAgreement.Proofs.Session.Sends
/-!
What a node may still send. Each of its sessions has a message of each of three kinds to send, and
its distributor has one wrapped key to broadcast; what is sent is taken from that, and nothing is
ever added to it.
-/

namespace RingAgreement

/-! ## Sessions -/

namespace Session

variable {K : Kem} {s : Session} {ρ : Type}

/-- How many messages a session has used up. -/
def usedUp (s : Session) : Nat :=
  s.used .akeInit + (s.used .akeRespond + s.used .shareBroadcast)

theorem usedUp_le (s : Session) : s.usedUp ≤ 3 := by
  have offer := s.used_le_one .akeInit
  have answer := s.used_le_one .akeRespond
  have share := s.used_le_one .shareBroadcast
  unfold usedUp
  omega

theorem number_cons (kind : MessageKind) (e : Envelope) (rest : List Envelope) :
    number kind (e :: rest) = number kind rest + if e.kind = kind then 1 else 0 := by
  simp [number, List.count_cons]

/-- Messages of the three kinds, counted kind by kind. -/
theorem length_eq_numbers {mail : List Envelope} (ours : ∀ e ∈ mail, e.kind = .akeInit ∨
    e.kind = .akeRespond ∨ e.kind = .shareBroadcast) : mail.length =
      number .akeInit mail + (number .akeRespond mail + number .shareBroadcast mail) := by
  induction mail with
  | nil => rfl
  | cons e rest ih =>
    have later := ih fun other member => ours other (List.mem_cons_of_mem e member)
    rw [List.length_cons, number_cons, number_cons, number_cons]
    rcases ours e List.mem_cons_self with kind | kind | kind
    all_goals
      simp only [kind, reduceCtorEq, if_true, if_false]
      omega

/-- What a session sends in a step is taken from what it has not used up. -/
theorem Coherent.usedUp_handle [RandomSource ρ] (coherent : s.Coherent K) (event : SessionEvent)
    (source : ρ) : s.usedUp + (s.handle K event source).sends.length ≤
      (s.handle K event source).session.usedUp := by
  have ours : ∀ e ∈ (s.handle K event source).sends, e.kind = .akeInit ∨
      e.kind = .akeRespond ∨ e.kind = .shareBroadcast := by
    intro e sent
    obtain ⟨p, rfl, emits⟩ := coherent.emits_of_sent sent
    exact emits.addressed.imp (·.1) (·.imp (·.1) (·.1))
  have offer := coherent.used_handle event source .akeInit
  have answer := coherent.used_handle event source .akeRespond
  have share := coherent.used_handle event source .shareBroadcast
  rw [length_eq_numbers ours]
  unfold usedUp
  omega

end Session

namespace Node

variable {K : Kem} {node : Node} {heard : WrappedKey → Prop} {ρ : Type} {level : Level}
  {s : Session}

/-! ## Nodes -/

/-- How many messages the session of a level has used up. -/
def spentOn (node : Node) (level : Level) : Nat := (node.session? level).elim 0 (·.usedUp)

/-- How many messages the sessions and the distributor of a node have used up. -/
def spent (node : Node) : Nat :=
  node.spentOn .cluster + node.spentOn .leader + node.distributor.broadcast.toList.length

/-- All the messages that a node can ever send of its own accord. -/
def allowance : Nat := 7

theorem spentOn_le (node : Node) (level : Level) : node.spentOn level ≤ 3 := by
  unfold spentOn
  cases node.session? level with
  | none => exact Nat.zero_le 3
  | some s => exact s.usedUp_le

theorem spent_le (node : Node) : node.spent ≤ allowance := by
  have cluster := node.spentOn_le .cluster
  have leader := node.spentOn_le .leader
  have broadcast : node.distributor.broadcast.toList.length ≤ 1 := Option.length_toList_le
  unfold spent allowance
  omega

/-- How many messages a node sends with its actions. -/
def mailed (actions : List NodeAction) : Nat := (actions.filterMap (·.sent?)).length

theorem mailed_append (actions more : List NodeAction) :
    mailed (actions ++ more) = mailed actions + mailed more := by
  rw [mailed, List.filterMap_append, List.length_append]
  rfl

theorem mailed_send (level : Level) (mail : List Envelope) :
    mailed (mail.map (.send level)) = mail.length := by
  induction mail with
  | nil => rfl
  | cons e rest ih => exact congrArg (· + 1) ih

/-- Of what its distributor decides, a node sends what is to be broadcast. -/
theorem mailed_ofDistributor (node : Node) (actions : List DistributorAction) :
    mailed (actions.map node.ofDistributor) = (actions.filterMap (·.broadcast?)).length := by
  induction actions with
  | nil => rfl
  | cons action rest ih =>
    cases action with
    | broadcastWrapped => exact congrArg (· + 1) ih
    | effectiveKey => exact ih

theorem mailed_distribute (node : Node) (level : Level) (key : GroupKey) :
    mailed (node.distribute level key).1 =
      ((node.distributor.record level key).actions.filterMap (·.broadcast?)).length := by
  rw [distribute_eq]
  generalize node.distributor.record level key = outcome
  obtain ⟨result, d⟩ := outcome
  cases result with
  | ok actions => exact mailed_ofDistributor _ actions
  | error => rfl

/-- The messages that a node has used up, after a step of one of its sessions. -/
theorem spent_of_session {after : Node} {s' : Session} (here : node.session? level = some s)
    (moved : after.session? = Function.update node.session? level (some s')) :
    after.spent + s.usedUp + node.distributor.broadcast.toList.length =
      node.spent + s'.usedUp + after.distributor.broadcast.toList.length := by
  have own : after.spentOn level = s'.usedUp := by rw [spentOn, moved, Function.update_self]; rfl
  have before : node.spentOn level = s.usedUp := by rw [spentOn, here]; rfl
  have apart : ∀ other, other ≠ level → after.spentOn other = node.spentOn other := by
    intro other different
    rw [spentOn, moved, Function.update_of_ne different, spentOn]
  unfold spent
  cases level with
  | cluster =>
    have leader := apart .leader (by decide)
    omega
  | leader =>
    have cluster := apart .cluster (by decide)
    omega

theorem Applied.spent {step : SessionOutcome ρ} {outcome : NodeOutcome ρ}
    (applied : node.Applied level s step outcome) (coherent : node.Coherent K heard)
    (here : node.session? level = some s) (budget : s.usedUp + step.sends.length ≤ step.session.usedUp) :
    node.spent + mailed outcome.actions ≤ outcome.node.spent := by
  have balance := spent_of_session here applied.session?_eq
  cases applied with
  | failed =>
    dsimp only at balance ⊢
    rw [distributor_withSession] at balance
    change node.spent + 0 ≤ _
    omega
  | silent =>
    have sent : mailed (relay level step.actions) = step.sends.length := mailed_send level _
    dsimp only at balance ⊢
    rw [distributor_withSession] at balance
    change node.spent + mailed (relay level step.actions) ≤ _
    omega
  | @completed key early late distributed after _ fresh made mail told =>
    have unknown := coherent.unknown here fresh
    have leading := coherent.leading_of_session here
    have recorded := Distributor.record_cases coherent.distributor unknown leading key
    have shown := congrArg List.length
      (recorded.shows (coherent.distributor.unset_of_fresh unknown leading)).broadcasts
    have answer := (node.withSession level step.session).mailed_distribute level key
    have parts := congrArg List.length mail
    have decided := congrArg (·.2.distributor) told
    simp only [distribute_node, distributor_withSession] at decided
    rw [told, distributor_withSession] at answer
    rw [List.length_append] at shown parts
    rw [decided] at shown
    dsimp only at balance answer ⊢
    have announced : mailed (early.map (.send level) ++ .sessionEstablished level key ::
        (distributed ++ late.map (.send level))) =
          early.length + (mailed distributed + late.length) := by
      rw [mailed_append, mailed_send]
      change early.length + mailed (distributed ++ late.map (.send level)) = _
      rw [mailed_append, mailed_send]
    change node.spent + mailed (early.map (.send level) ++ .sessionEstablished level key ::
      (distributed ++ late.map (.send level))) ≤ _
    rw [announced]
    omega

section Handle

variable [RandomSource ρ]

theorem Coherent.spent_handleSession (coherent : node.Coherent K heard)
    (here : node.session? level = some s) (event : SessionEvent) (source : ρ) :
    node.spent + mailed (node.handleSession K level s event source).actions ≤
      (node.handleSession K level s event source).node.spent := by
  have s_coherent := coherent.session level s here
  exact (node.handleSession_cases s_coherent level event source).spent coherent here
    (s_coherent.usedUp_handle event source)

theorem Coherent.spent_start (coherent : node.Coherent K heard) (source : ρ) :
    node.spent + mailed (node.start K source).actions ≤ (node.start K source).node.spent := by
  have own : node.session? .cluster = some node.cluster := rfl
  have first := coherent.spent_handleSession own .start source
  have still := (coherent.handleSession own .start source).coherent
  rw [Node.start]
  dsimp only
  generalize node.handleSession K .cluster node.cluster .start source = outcome at first still
  split
  next actions leader ok here =>
    have second := still.spent_handleSession (show outcome.node.session? .leader = some leader from
      here) .start outcome.source
    generalize outcome.node.handleSession K .leader leader .start outcome.source = last at second
    obtain ⟨result, after, source'⟩ := last
    rw [NodeOutcome.actions, ok] at first
    dsimp only at first
    cases result with
    | ok more =>
      change node.spent + mailed (actions ++ more) ≤ after.spent
      change outcome.node.spent + mailed more ≤ after.spent at second
      rw [mailed_append]
      omega
    | error e =>
      -- The messages of the first start are lost, but they are used up.
      change node.spent + 0 ≤ after.spent
      change outcome.node.spent + 0 ≤ after.spent at second
      omega
  next => exact first

omit [RandomSource ρ] in
theorem spent_receiveWrapped (node : Node) (wrapped : WrappedKey) (source : ρ) :
    let outcome : NodeOutcome ρ :=
      ⟨(node.receiveWrapped wrapped).1, (node.receiveWrapped wrapped).2, source⟩
    node.spent + mailed outcome.actions ≤ outcome.node.spent := by
  have shown := (node.distributor.receiveWrapped_cases wrapped).shows.broadcasts
  intro outcome
  simp only [outcome, Node.receiveWrapped]
  generalize node.distributor.receiveWrapped wrapped = answer at shown
  obtain ⟨result, d⟩ := answer
  have counted := congrArg List.length shown
  rw [List.length_append] at counted
  dsimp only at counted ⊢
  have same : (Node.mk node.cluster node.leader d).spent + node.distributor.broadcast.toList.length =
      node.spent + d.broadcast.toList.length := by
    unfold spent spentOn
    dsimp only [session?]
    omega
  cases result with
  | error e =>
    change node.spent + 0 ≤ _
    change _ + 0 = _ at counted
    omega
  | ok actions =>
    have sent := mailed_ofDistributor { node with distributor := d } actions
    change node.spent + mailed (actions.map (ofDistributor { node with distributor := d })) ≤ _
    change _ + (actions.filterMap (·.broadcast?)).length = _ at counted
    omega

theorem Coherent.spent_receive (coherent : node.Coherent K heard) (level : Level) (e : Envelope)
    (source : ρ) : node.spent + mailed (node.receive K level e source).actions ≤
      (node.receive K level e source).node.spent := by
  by_cases kind : e.kind = .wrappedKey ∨ e.kind = .appMessage
  · rw [receive_of_cluster_kind kind, Node.receiveClusterPayload]
    split
    next => exact Nat.le_refl _
    next => exact Nat.le_refl _
    next sender _ =>
      split
      next => exact Nat.le_refl _
      next wrapped _ => exact node.spent_receiveWrapped wrapped source
      next message _ =>
        rw [openMessage]
        split
        next => exact Nat.le_refl _
        next =>
          split
          next => exact Nat.le_refl _
          next => exact Nat.le_refl _
      next => exact Nat.le_refl _
  · cases here : node.session? level with
    | none =>
      rw [receive_of_absent here (not_or.1 kind)]
      exact Nat.le_refl _
    | some s =>
      rw [receive_of_ring_kind here (not_or.1 kind)]
      exact coherent.spent_handleSession here _ source

/-- What a node sends in a step is taken from what it has not used up, whatever the step is. -/
theorem Coherent.spent_handle (coherent : node.Coherent K heard) (event : NodeEvent) (source : ρ) :
    node.spent + mailed (node.handle K event source).actions ≤
      (node.handle K event source).node.spent := by
  cases event with
  | start => exact coherent.spent_start source
  | received level e => exact coherent.spent_receive level e source

end Handle

end Node

end RingAgreement
