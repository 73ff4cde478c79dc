import RingAgreement.Proofs.Node.Failure
import RingAgreement.Proofs.Node.Replay
import RingAgreement.Proofs.Service.Turn
/-!
What the owner of a station sees of the key. The status is written action by action, a key over
whatever stands there and a failure only over nothing; it agrees with the node all the same, since a
node that has failed never comes to a key, and one that has a key does not fail any more.
-/

namespace RingAgreement

variable {ρ : Type}

/-- The cluster keys that a step announces. -/
def NodeOutcome.announced (outcome : NodeOutcome ρ) : List ClusterKey :=
  outcome.actions.filterMap (·.clusterKey?)

namespace KeyStatus

/-- The status after the failures so far, for a node that has or lacks its key. -/
def of (key : Option ClusterKey) (failures : List SessionError) : KeyStatus :=
  match key, failures with
  | some key, _ => ready key
  | none, e :: _ => failed e
  | none, [] => pending

/-- The status after more failures. Only the first one counts, and none after the key. -/
def failAll (status : KeyStatus) (errors : List SessionError) : KeyStatus :=
  errors.foldl (fun status e => status.fail e) status

theorem failAll_ready (key : ClusterKey) (errors : List SessionError) :
    (ready key).failAll errors = ready key := by
  induction errors with
  | nil => rfl
  | cons e rest ih => exact ih

theorem fail_of (key : Option ClusterKey) (failures : List SessionError) (e : SessionError) :
    (of key failures).fail e = of key (failures ++ [e]) := by
  cases key with
  | some key => rfl
  | none => cases failures <;> rfl

theorem failAll_of (key : Option ClusterKey) (failures errors : List SessionError) :
    (of key failures).failAll errors = of key (failures ++ errors) := by
  induction errors generalizing failures with
  | nil => rw [List.append_nil]; rfl
  | cons e rest ih =>
    have first := ih (failures ++ [e])
    rw [← fail_of, List.append_assoc] at first
    exact first

/-- With the keys that a node has announced the status is that of the node after them. -/
theorem of_announced {before after : Option ClusterKey} {keys : List ClusterKey}
    (announced : before.toList ++ keys = after.toList) (failures : List SessionError) :
    (match keys.getLast? with
      | some key => ready key
      | none => of before failures) = of after failures := by
  cases before with
  | none =>
    obtain rfl : keys = after.toList := announced
    cases after <;> rfl
  | some held =>
    cases after with
    | none => cases announced
    | some key =>
      obtain ⟨rfl, rfl⟩ := List.cons.inj announced
      rfl

theorem of_eq_ready_iff {key : Option ClusterKey} {failures : List SessionError}
    {k : ClusterKey} : of key failures = ready k ↔ key = some k := by
  cases key with
  | some key => simp [of]
  | none => cases failures <;> simp [of]

/-- Failures show as long as there is no key. -/
theorem of_eq_failed_iff {key : Option ClusterKey} {failures : List SessionError}
    (keyless : failures ≠ [] → key = none) {e : SessionError} :
    of key failures = failed e ↔ failures.head? = some e := by
  cases failures with
  | nil => cases key <;> simp [of]
  | cons first rest => simp [keyless (by simp), of]

end KeyStatus

theorem Node.clusterKey_of_make {layout : NodeLayout} {secretKey : SecretKey} {node : Node}
    (made : Node.make layout secretKey = .ok node) : node.clusterKey = none := by
  obtain ⟨_, _, _, rfl⟩ := Node.make_success made
  rfl

namespace Station

/-! ## One event -/

/-- What a node answers changes its station, but not the node. -/
theorem node_record (s : Station ρ) (action : NodeAction) : (s.record action).node = s.node := by
  cases action <;> rfl

theorem node_foldl_record (s : Station ρ) (actions : List NodeAction) :
    (actions.foldl record s).node = s.node := by
  induction actions generalizing s with
  | nil => rfl
  | cons action rest ih => exact (ih (s.record action)).trans (s.node_record action)

/-- The last key that was announced stands, and without one the first failure. -/
theorem status_foldl_record (s : Station ρ) (actions : List NodeAction) :
    (actions.foldl record s).status =
      match (actions.filterMap (·.clusterKey?)).getLast? with
      | some key => .ready key
      | none => s.status.failAll (actions.filterMap (·.error?)) := by
  induction actions generalizing s with
  | nil => rfl
  | cons action rest ih =>
    rw [List.foldl_cons, ih]
    cases action with
    | clusterKeyReady key =>
      have first : (NodeAction.clusterKeyReady key :: rest).filterMap (·.clusterKey?) =
          key :: rest.filterMap (·.clusterKey?) := rfl
      rw [first, List.getLast?_cons]
      cases (rest.filterMap (·.clusterKey?)).getLast? with
      | none => exact KeyStatus.failAll_ready key _
      | some last => rfl
    | _ => rfl

variable (K : Kem) [RandomSource ρ]

/-- The station after an event with all that the node answers, whether there is room for it or
not. -/
def react (s : Station ρ) (event : NodeEvent) : Station ρ :=
  let (actions, after) := s.handle K event
  actions.foldl record after

theorem node_react (s : Station ρ) (event : NodeEvent) :
    (s.react K event).node = (s.node.handle K event s.source).node := by
  obtain ⟨status, handled⟩ := handle_eq K s event
  rw [react, handled]
  exact node_foldl_record _ _

theorem status_react (s : Station ρ) (event : NodeEvent) :
    (s.react K event).status =
      match (s.node.handle K event s.source).announced.getLast? with
      | some key => .ready key
      | none => s.status.failAll (s.node.handle K event s.source).failures := by
  rw [react, handle]
  generalize s.node.handle K event s.source = outcome
  obtain ⟨result, node, source⟩ := outcome
  cases result with
  | ok actions => exact status_foldl_record _ actions
  | error e =>
    cases fatal : e.isFatal <;> simp [NodeOutcome.announced, NodeOutcome.actions,
      NodeOutcome.failures, KeyStatus.failAll, fatal]

/-! ## Runs -/

/-- The station after events that its node takes one after the other, as in a turn of the node. -/
def follow (s : Station ρ) (events : List NodeEvent) : Station ρ :=
  events.foldl (fun s event => s.react K event) s

/-- Where all draws are alike, the node goes the same way in a run of its own. -/
theorem node_follow [Subsingleton ρ] (s : Station ρ) (inputs : List (NodeEvent × ρ)) :
    (s.follow K (inputs.map (·.1))).node = s.node.after K inputs := by
  induction inputs generalizing s with
  | nil => rfl
  | cons input rest ih =>
    refine (ih (s.react K input.1)).trans ?_
    rw [node_react, Subsingleton.elim s.source input.2]
    rfl

/-- What the node answers to the events. -/
def outcomes (s : Station ρ) : List NodeEvent → List (NodeOutcome ρ)
  | [] => []
  | event :: rest => s.node.handle K event s.source :: (s.react K event).outcomes rest

variable {K}

/-- The status of a station agrees with its node, and with the failures of the run so far. -/
structure Told (K : Kem) (failures : List SessionError) (s : Station ρ) : Prop where
  coherent : s.node.Coherent K fun _ => True
  status : s.status = .of s.node.clusterKey failures
  fatal : ∀ e ∈ failures, e.isFatal = true
  failed : failures ≠ [] → s.node.Failed

variable {s : Station ρ} {failures : List SessionError}

omit [RandomSource ρ] in
theorem Told.keyless (told : s.Told K failures) (failing : failures ≠ []) :
    s.node.clusterKey = none :=
  told.coherent.keyless_of_failed (told.failed failing)

theorem Told.keeps (told : s.Told K failures) (event : NodeEvent) :
    s.node.Keeps K (fun _ => True) (s.node.handle K event s.source) :=
  told.coherent.handle (fun _ _ => trivial) s.source

theorem Told.react (told : s.Told K failures) (event : NodeEvent) :
    (s.react K event).Told K (failures ++ (s.node.handle K event s.source).failures) := by
  have kept := told.keeps event
  have sound := told.coherent.sound_handle event s.source
  have announced : s.node.clusterKey.toList ++ (s.node.handle K event s.source).announced =
      (s.node.handle K event s.source).node.clusterKey.toList := kept.continues.clusterKey
  have unfolds := s.node.unfolds_handle (K := K) event s.source
  refine ⟨?_, ?_, fun e member => ?_, fun failing => ?_⟩
  · rw [node_react]
    exact kept.coherent
  · rw [status_react, node_react, told.status, KeyStatus.failAll_of]
    exact KeyStatus.of_announced announced _
  · rcases List.mem_append.1 member with old | new
    · exact told.fatal e old
    · exact (sound e new).1
  · rw [node_react]
    obtain ⟨e, member⟩ := List.exists_mem_of_ne_nil _ failing
    rcases List.mem_append.1 member with old | new
    · exact (told.failed (List.ne_nil_of_mem old)).of_unfolds unfolds
    · exact (sound e new).2

theorem Told.follow (told : s.Told K failures) (events : List NodeEvent) :
    (s.follow K events).Told K (failures ++ (s.outcomes K events).flatMap (·.failures)) := by
  induction events generalizing s failures with
  | nil => rwa [outcomes, List.flatMap_nil, List.append_nil]
  | cons event rest ih =>
    have later := ih (told.react event)
    rwa [List.append_assoc, ← List.flatMap_cons] at later

/-- What has been announced over a run is the key that has come to the node in it. -/
theorem Told.announced (told : s.Told K failures) (events : List NodeEvent) :
    s.node.clusterKey.toList ++ (s.outcomes K events).flatMap (·.announced) =
      (s.follow K events).node.clusterKey.toList := by
  induction events generalizing s failures with
  | nil => exact List.append_nil _
  | cons event rest ih =>
    have kept := told.keeps event
    have later := ih (told.react event)
    rw [node_react, ← kept.continues.clusterKey] at later
    rw [outcomes, List.flatMap_cons, ← List.append_assoc]
    exact later

/-- A status that is not pending is final. -/
theorem Told.final (told : s.Told K failures) (settled : s.status ≠ .pending)
    (events : List NodeEvent) : (s.follow K events).status = s.status := by
  have later := told.follow events
  rw [told.status] at settled ⊢
  rw [later.status]
  cases held : s.node.clusterKey with
  | some key =>
    have announced := told.announced events
    rw [Node.eq_some_of_toList_append announced held]
    rfl
  | none =>
    cases failures with
    | nil => simp [held, KeyStatus.of] at settled
    | cons first rest =>
      rw [later.keyless (by simp)]
      rfl

omit [RandomSource ρ] in
theorem told_of_make {layout : NodeLayout} {secretKey : SecretKey}
    (made : Node.make layout secretKey = .ok s.node) (pending : s.status = .pending) :
    s.Told K [] where
  coherent := (Node.make_coherent made).1
  status := by rw [pending, Node.clusterKey_of_make made]; rfl
  fatal := by simp
  failed := by simp

/-- Whatever events a new node is handed, its answers applied one after the other, the owner sees
the key exactly when the node has it, and otherwise the first failure, if there was one. All
failures are fatal errors, the key is announced once at most, and a status that is not pending stays
for good. -/
theorem status_follows_node (K : Kem) (layout : NodeLayout) (secretKey : SecretKey)
    (s : Station ρ) (made : Node.make layout secretKey = .ok s.node)
    (pending : s.status = .pending) (events : List NodeEvent) :
    let reached := s.follow K events
    let failures := (s.outcomes K events).flatMap (·.failures)
    (∀ key, reached.status = .ready key ↔ reached.node.clusterKey = some key) ∧
    (∀ e, reached.status = .failed e ↔ failures.head? = some e) ∧
    (∀ e ∈ failures, e.isFatal = true) ∧
    (s.outcomes K events).flatMap (·.announced) = reached.node.clusterKey.toList ∧
    (reached.status ≠ .pending →
      ∀ later, (reached.follow K later).status = reached.status) := by
  intro reached failures
  have new : s.Told K [] := told_of_make made pending
  have told : reached.Told K failures := new.follow events
  have announced := new.announced events
  rw [Node.clusterKey_of_make made] at announced
  refine ⟨fun key => ?_, fun e => ?_, told.fatal, announced, told.final⟩
  · rw [told.status]
    exact KeyStatus.of_eq_ready_iff
  · rw [told.status]
    exact KeyStatus.of_eq_failed_iff told.keyless

end Station

/-- A source of which all draws are zeros. -/
inductive StillSource where
  | still

namespace StillSource

instance : RandomSource StillSource := ⟨fun n source => (.zero n, source)⟩

instance : Subsingleton StillSource := ⟨fun .still .still => rfl⟩

end StillSource

namespace HonestRing.trio

/-- The owner of a standalone node sees the key once the run of its ring has ended, and whatever
comes later. -/
theorem owner_sees_key :
    let s : Station StillSource := .new (trio.seat .standalone first) .still .standard
    Node.make (layout .standalone) (trio.pair first).secretKey = .ok s.node ∧
      s.status = .pending ∧ ∃ events key, (s.follow .transparent events).status = .ready key ∧
        ∀ later, ((s.follow .transparent events).follow .transparent later).status =
          .ready key := by
  intro s
  have made : Node.make (layout .standalone) (trio.pair first).secretKey = .ok s.node :=
    trio.make_seat (by simp) first
  obtain ⟨inputs, key, keyed⟩ :=
    trio.exists_keyed Kem.transparent_correct first fun _ => StillSource.still
  obtain ⟨ready, -, -, -, final⟩ := Station.status_follows_node .transparent _ _ s made rfl
    (inputs.map (·.1))
  have shown : (s.follow .transparent (inputs.map (·.1))).status = .ready key := by
    rw [ready, Station.node_follow]
    exact keyed
  exact ⟨made, rfl, inputs.map (·.1), key, shown, fun later =>
    (final (by simp [shown]) later).trans shown⟩

end HonestRing.trio

/-! ## Over turns -/

namespace Station

variable {K : Kem} [RandomSource ρ] {s : Station ρ} {failures : List SessionError}

/-- The status that the owner sees when the node has seen to its duties. -/
def outlook (s : Station ρ) : KeyStatus :=
  (s.duties.foldl carryOut s).status

omit [RandomSource ρ] in
/-- The status after a duty hangs on nothing but the status before it. -/
theorem status_carryOut_congr {t : Station ρ} (same : t.status = s.status) (duty : Duty) :
    (t.carryOut duty).status = (s.carryOut duty).status := by
  cases duty with
  | submit message => exact same
  | act action =>
    cases action with
    | distributionFailed e => exact congrArg (·.fail e) same
    | clusterKeyReady key => rfl
    | _ => exact same

omit [RandomSource ρ] in
theorem status_foldl_carryOut_congr {t : Station ρ} (same : t.status = s.status)
    (duties : List Duty) :
    (duties.foldl carryOut t).status = (duties.foldl carryOut s).status := by
  induction duties generalizing s t with
  | nil => exact same
  | cons duty rest ih => exact ih (status_carryOut_congr same duty)

omit [RandomSource ρ] in
theorem outlook_of_idle (idle : s.duties = []) : s.outlook = s.status := by
  rw [outlook, idle]
  rfl

/-- The failures that a turn brings. -/
def failuresIn (K : Kem) (s : Station ρ) : Turn → List SessionError
  | .event =>
    if s.duties.isEmpty then
      match s.nextEvent? with
      | some (event, _) => (s.node.handle K event s.source).failures
      | none => []
    else []
  | _ => []

/-- The failures that turns bring. -/
def failuresOver (K : Kem) (s : Station ρ) : List Turn → List SessionError
  | [] => []
  | t :: rest => s.failuresIn K t ++ (s.turn K t).failuresOver K rest

omit [RandomSource ρ] in
/-- What has been told counts for every station with this node and this status. -/
theorem Told.of_eq (told : s.Told K failures) {t : Station ρ} (node : t.node = s.node)
    (status : t.status = s.status) : t.Told K failures := by
  obtain ⟨coherent, same, fatal, failed⟩ := told
  rw [← status, ← node] at same
  rw [← node] at coherent failed
  exact ⟨coherent, same, fatal, failed⟩

/-- A station whose owner will have been told everything when the duties are done. -/
def Informed (K : Kem) (failures : List SessionError) (s : Station ρ) : Prop :=
  Told K failures { s with status := s.outlook }

omit [RandomSource ρ] in
theorem Informed.of_eq (informed : s.Informed K failures) {t : Station ρ} (node : t.node = s.node)
    (outlook : t.outlook = s.outlook) : t.Informed K failures :=
  Told.of_eq informed node outlook

omit [RandomSource ρ] in
theorem Informed.frame (informed : s.Informed K failures) {t : Station ρ} (node : t.node = s.node)
    (duties : t.duties = s.duties) (status : t.status = s.status) : t.Informed K failures := by
  refine informed.of_eq node ?_
  rw [outlook, outlook, duties]
  exact status_foldl_carryOut_congr status s.duties

theorem turn_event (s : Station ρ) :
    s.turn K .event =
      if s.duties.isEmpty then
        match s.nextEvent? with
        | some (event, next) =>
          { (next.handle K event).2 with duties := (next.handle K event).1.map .act }
        | none => s
      else s := by
  change (((s.event? K).map (·, none)).map (·.1)).getD s = _
  unfold event?
  split
  · cases s.nextEvent? <;> rfl
  · rfl

omit [RandomSource ρ] in
theorem outlook_of_acts {actions : List NodeAction} (acts : s.duties = actions.map .act) :
    s.outlook =
      match (actions.filterMap (·.clusterKey?)).getLast? with
      | some key => .ready key
      | none => s.status.failAll (actions.filterMap (·.error?)) := by
  rw [outlook, acts, List.foldl_map]
  exact status_foldl_record s actions

theorem Informed.event (informed : s.Informed K failures) :
    (s.turn K .event).Informed K (failures ++ s.failuresIn K .event) := by
  rw [turn_event, failuresIn]
  split
  next idle =>
    cases found : s.nextEvent? with
    | none => rwa [List.append_nil]
    | some result =>
      obtain ⟨event, next⟩ := result
      obtain ⟨-, fresh, waiting, rfl, -⟩ := nextEvent?_eq_some found
      let next : Station ρ := { s with fresh, waiting }
      have told : next.Told K failures :=
        Told.of_eq informed rfl (outlook_of_idle (List.isEmpty_iff.1 idle)).symm
      change Informed K _
        { (next.handle K event).2 with duties := (next.handle K event).1.map .act }
      generalize heard : next.handle K event = answer
      obtain ⟨actions, after⟩ := answer
      have reacted : next.react K event = actions.foldl record after := by rw [react, heard]
      refine (told.react event).of_eq ?_ ?_
      · rw [reacted, node_foldl_record]
      · rw [reacted, status_foldl_record]
        exact outlook_of_acts rfl
  · rwa [List.append_nil]

/-- Only an event tells the owner anything new. -/
theorem Informed.turn (informed : s.Informed K failures) (t : Turn) :
    (s.turn K t).Informed K (failures ++ s.failuresIn K t) := by
  by_cases event : t = .event
  · subst event
    exact informed.event
  have silent : s.failuresIn K t = [] := by
    cases t with
    | event => exact absurd rfl event
    | _ => rfl
  rw [silent, List.append_nil, Station.turn]
  cases happened : s.turn? K t with
  | none => exact informed
  | some result =>
    obtain ⟨after, emission⟩ := result
    cases makes_of_turn? happened with
    | event => exact absurd rfl event
    | accept idle =>
      refine informed.of_eq rfl ?_
      rw [outlook_of_idle idle]
      rfl
    | @duty duty rest standing =>
      obtain ⟨status, made⟩ := carryOut_eq { s with duties := rest } duty
      have seen : (carryOut { s with duties := rest } duty).status = (s.carryOut duty).status :=
        status_carryOut_congr (by rfl) duty
      refine informed.of_eq ?_ ?_
      · change (carryOut _ duty).node = _
        rw [made]
      · change (List.foldl carryOut (carryOut _ duty) (carryOut _ duty).duties).status = _
        rw [made] at seen ⊢
        rw [outlook, standing]
        exact status_foldl_carryOut_congr seen rest
    | _ => exact informed.frame rfl rfl rfl

theorem Informed.run (informed : s.Informed K failures) (turns : List Turn) :
    (turns.foldl (Station.turn K) s).Informed K (failures ++ s.failuresOver K turns) := by
  induction turns generalizing s failures with
  | nil => rwa [failuresOver, List.append_nil]
  | cons t rest ih =>
    have later := ih (informed.turn t)
    rwa [List.append_assoc] at later

/-- Whatever turns there are at the station of a new node, its owner will have seen the key exactly
when the node has it, and otherwise the first failure, as soon as the node has seen to its
duties. -/
theorem outlook_follows_node (K : Kem) (layout : NodeLayout) (secretKey : SecretKey)
    (s : Station ρ) (made : Node.make layout secretKey = .ok s.node)
    (pending : s.status = .pending) (idle : s.duties = []) (turns : List Turn) :
    let reached := turns.foldl (Station.turn K) s
    let failures := s.failuresOver K turns
    (∀ key, reached.outlook = .ready key ↔ reached.node.clusterKey = some key) ∧
    (∀ e, reached.outlook = .failed e ↔ failures.head? = some e) ∧
    (∀ e ∈ failures, e.isFatal = true) ∧
    (reached.duties = [] → reached.status = reached.outlook) := by
  intro reached failures
  have new : s.Informed K [] := (told_of_make made pending).of_eq rfl (outlook_of_idle idle)
  have informed : Told K failures { reached with status := reached.outlook } := new.run turns
  have outlook : reached.outlook = .of reached.node.clusterKey failures := informed.status
  refine ⟨fun key => ?_, fun e => ?_, informed.fatal, fun idle => (outlook_of_idle idle).symm⟩
  · rw [outlook]
    exact KeyStatus.of_eq_ready_iff
  · rw [outlook]
    exact KeyStatus.of_eq_failed_iff informed.keyless

end Station

end RingAgreement
