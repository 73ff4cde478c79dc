import RingAgreement.Proofs.Node.Parts
import RingAgreement.Proofs.Session.Dropped
/-!
The start of a node. It starts the session of the cluster and then, for a leader, the one in the
leaders' ring. When the second one cannot make its offer, the first one has been started all the
same; in all other cases a start that fails leaves the node as it was.
-/

namespace RingAgreement

namespace Session

/-- A session that was started by a step: it has an offer to wait for the answer to. -/
inductive Begins (s : Session) : Session → Prop
  | mk {transcript : Handshake.Transcript} (fresh : s.progress.initiated = false) :
      Begins s (s.opened transcript).refreshed

theorem Begins.fresh {s s' : Session} (begins : s.Begins s') : s.progress.initiated = false := by
  cases begins
  assumption

theorem Begins.initiated {s s' : Session} (begins : s.Begins s') :
    s'.progress.initiated = true := by
  cases begins
  rfl

end Session

namespace Node

variable {K : Kem} {node : Node} {ρ : Type} [RandomSource ρ] {level : Level} {s s' : Session}
  {source source' : ρ}

/-- The ways a start of a node can end: the session of the cluster is not started; it is started and
the one in the leaders' ring is not; or all sessions of the node are started. -/
inductive Started (K : Kem) (ρ : Type) [RandomSource ρ] (node : Node) : NodeOutcome ρ → Prop
  | refused {error : SessionError} {rest : ρ} : Started K ρ node ⟨.error error, node, rest⟩
  | halved {s leader : Session} {error : SessionError} {source rest : ρ}
      (begins : node.cluster.Begins s) (led : node.leader = some leader)
      (failed : leader.Starts K source ⟨.error error, leader, rest⟩) :
      Started K ρ node ⟨.error error, node.withSession .cluster s, rest⟩
  | single {s : Session} {actions : List NodeAction} {rest : ρ} (begins : node.cluster.Begins s)
      (unled : node.leader = none) :
      Started K ρ node ⟨.ok actions, node.withSession .cluster s, rest⟩
  | both {s leader leader' : Session} {actions : List NodeAction} {rest : ρ}
      (begins : node.cluster.Begins s) (led : node.leader = some leader)
      (follows : leader.Begins leader') :
      Started K ρ node
        ⟨.ok actions, (node.withSession .cluster s).withSession .leader leader', rest⟩

/-- What comes of a start after the session of the cluster was started. -/
theorem started_of_first {s : Session} {e : Envelope} (begins : node.cluster.Begins s)
    (first : node.handleSession K .cluster node.cluster .start source =
      ⟨.ok [.send .cluster e], node.withSession .cluster s, source'⟩)
    (coherent : ∀ leader, node.leader = some leader → leader.Coherent K) :
    node.Started K ρ (node.start K source) := by
  cases led : node.leader with
  | none =>
    rw [start_eq_first first led]
    exact .single begins led
  | some leader =>
    have here : (node.withSession .cluster s).leader = some leader := led
    have starts := (coherent leader led).starts source'
    have failing := starts
    generalize handled : leader.handle K .start source' = outcome at starts failing
    cases starts with
    | opened fresh made =>
      rw [start_eq_second first rfl here (handleSession_of_sent handled) rfl]
      exact .both begins led (.mk fresh)
    | _ =>
      rw [start_eq_halved first rfl here (handleSession_of_refused handled here) rfl]
      exact .halved begins led failing

theorem start_cases (cluster : node.cluster.Coherent K)
    (coherent : ∀ leader, node.leader = some leader → leader.Coherent K) (source : ρ) :
    node.Started K ρ (node.start K source) := by
  have starts := cluster.starts source
  generalize handled : node.cluster.handle K .start source = outcome at starts
  cases starts with
  | opened fresh made =>
    exact started_of_first (.mk fresh) (handleSession_of_sent handled) coherent
  | _ =>
    have refused : node.handleSession K .cluster node.cluster .start source = _ :=
      handleSession_of_refused handled rfl
    rw [start, refused]
    exact .refused

/-! ## The order of the starts -/

/-- The session in the leaders' ring is not started before the one of the cluster. -/
def InOrder (node : Node) : Prop :=
  ∀ leader, node.leader = some leader → leader.progress.initiated = true →
    node.cluster.progress.initiated = true

theorem Started.inOrder {outcome : NodeOutcome ρ} (started : node.Started K ρ outcome)
    (inOrder : node.InOrder) : outcome.node.InOrder := by
  cases started with
  | refused => exact inOrder
  | halved begins => exact fun _ _ _ => begins.initiated
  | single begins => exact fun _ _ _ => begins.initiated
  | both begins => exact fun _ _ _ => begins.initiated

theorem InOrder.received (inOrder : node.InOrder) (here : node.session? level = some s)
    (K : Kem) (e : Envelope) (source : ρ) :
    (node.withSession level (s.handle K (.received e) source).session).InOrder := by
  have unchanged := (s.follows_received K e source).initiated
  intro leader led begun
  cases level with
  | cluster =>
    obtain rfl := Option.some.inj here
    exact unchanged.trans (inOrder leader led begun)
  | leader =>
    obtain rfl := Option.some.inj led
    exact inOrder s here (unchanged.symm.trans begun)

theorem Coherent.inOrder_handle {heard : WrappedKey → Prop} (coherent : node.Coherent K heard)
    (inOrder : node.InOrder) (event : NodeEvent) (source : ρ) :
    (node.handle K event source).node.InOrder := by
  cases event with
  | start =>
    have started := start_cases (coherent.session .cluster _ rfl) (coherent.session .leader) source
    exact started.inOrder inOrder
  | received level e =>
    rw [Node.handle]
    rcases node.receive_node level e source with ⟨calls, reached⟩ | ⟨s, here, reached⟩
    · rw [reached]
      exact inOrder
    · rw [reached, handleSession_node]
      exact inOrder.received here K e source

theorem Coherent.inOrder_after (coherent : node.Coherent K fun _ => True) (inOrder : node.InOrder)
    (inputs : List (NodeEvent × ρ)) : (node.after K inputs).InOrder := by
  induction inputs generalizing node with
  | nil => exact inOrder
  | cons input rest ih =>
    exact ih (coherent.handle (fun _ _ => trivial) input.2).coherent
      (coherent.inOrder_handle inOrder input.1 input.2)

/-- What a new node has in the leaders' ring has not begun. -/
theorem make_leader {layout : NodeLayout} {secretKey : SecretKey}
    (made : make layout secretKey = .ok node) (led : node.leader = some s) :
    ∃ roster own, s = .fresh roster own secretKey := by
  obtain ⟨leader, _, leads, rfl⟩ := make_success made
  exact (leaderSession_success leads).2 s led

/-- In the leaders' ring a session that has aborted was started. -/
theorem leader_initiated_of_aborted {layout : NodeLayout} {secretKey : SecretKey}
    (made : make layout secretKey = .ok node) (inputs : List (NodeEvent × ρ))
    (led : (node.after K inputs).leader = some s) (aborted : s.state = .aborted) :
    s.progress.initiated = true := by
  obtain ⟨events, reached⟩ := (node.unfolds_after (K := K) inputs).session .leader
  obtain ⟨first, here, rfl⟩ := Option.map_eq_some_iff.1 (reached.symm.trans led)
  obtain ⟨roster, own, rfl⟩ := make_leader made here
  have coherent : (Session.fresh roster own secretKey).Coherent K := Session.fresh_coherent _ _ _
  exact coherent.initiated_of_aborted_after (fun ended => by cases ended) events aborted

/-- Once the cluster's session was started, the node refuses every start. -/
theorem start_refused (coherent : node.cluster.Coherent K)
    (begun : node.cluster.progress.initiated = true) (source : ρ) :
    ∃ refusal, (node.start K source).result = .error refusal := by
  have starts := coherent.starts source
  generalize handled : node.cluster.handle K .start source = outcome at starts
  cases starts with
  | ended | again =>
    have refused : node.handleSession K .cluster node.cluster .start source = _ :=
      handleSession_of_refused handled rfl
    rw [start, refused]
    exact ⟨_, rfl⟩
  | unopened fresh | opened fresh =>
    rw [begun] at fresh
    cases fresh

/-- A start that fails after it has started the cluster's session: the mechanism refuses the key of
the right neighbour in the leaders' ring. -/
structure Halved (K : Kem) (node : Node) (error : SessionError) (later : Node) : Prop where
  unstarted : node.cluster.progress.initiated = false
  started : later.cluster.progress.initiated = true
  refused : ∃ leader fault seed, node.leader = some leader ∧ leader.progress.initiated = false ∧
    error = .crypto fault ∧ Handshake.initiate K
      (leader.roster.party (leader.roster.right leader.own)).publicKey seed = .error fault

theorem Started.keeps_of_failed {outcome : NodeOutcome ρ} {error : SessionError}
    (started : node.Started K ρ outcome) (failed : outcome.result = .error error)
    (inOrder : node.InOrder)
    (aborted : ∀ leader, node.leader = some leader → leader.state = .aborted →
      leader.progress.initiated = true) :
    outcome.node.distributor = node.distributor ∧ outcome.node.leader = node.leader ∧
      (outcome.node.cluster = node.cluster ∨ node.Halved K error outcome.node) := by
  cases started with
  | refused => exact ⟨rfl, rfl, .inl rfl⟩
  | @halved s leader _ _ _ begins led starts =>
    obtain rfl := Except.error.inj failed
    have fresh := begins.fresh
    have unbegun : leader.progress.initiated ≠ true := by
      intro begun
      rw [inOrder leader led begun] at fresh
      cases fresh
    refine ⟨rfl, rfl, .inr ⟨fresh, begins.initiated, ?_⟩⟩
    cases starts with
    | ended ended => exact absurd (aborted leader led ended) unbegun
    | again begun => exact absurd begun unbegun
    | unopened unstarted refused => exact ⟨leader, _, _, led, unstarted, rfl, refused⟩
  | single => cases failed
  | both => cases failed

/-- A start that fails leaves the distributor and the session in the leaders' ring as they were. It
leaves the cluster's session as it was, too, with one exception: when this start has started it and
the mechanism then refuses the key of the right neighbour in the leaders' ring, it stays started,
and every further start is refused. -/
theorem failed_start_keeps (K : Kem) (layout : NodeLayout) (secretKey : SecretKey) (node : Node)
    (made : make layout secretKey = .ok node) (inputs : List (NodeEvent × ρ)) (source : ρ)
    (error : SessionError)
    (failed : ((node.after K inputs).handle K .start source).result = .error error) :
    let reached := node.after K inputs
    let later := (reached.handle K .start source).node
    later.distributor = reached.distributor ∧ later.leader = reached.leader ∧
    (later.cluster = reached.cluster ∨ reached.Halved K error later ∧
      ∀ rest : ρ, ∃ refusal, (later.handle K .start rest).result = .error refusal) := by
  intro reached later
  have coherent : node.Coherent K fun _ => True := (make_coherent made).1
  have still : reached.Coherent K fun _ => True :=
    (coherent.after inputs fun _ _ _ _ => trivial).1
  have kept : later.Coherent K fun _ => True := (still.handle (fun _ _ => trivial) source).coherent
  have inOrder : reached.InOrder := by
    refine coherent.inOrder_after (fun leader led begun => ?_) inputs
    obtain ⟨roster, own, rfl⟩ := make_leader made led
    cases begun
  have started : reached.Started K ρ (reached.handle K .start source) :=
    start_cases (still.session .cluster _ rfl) (still.session .leader) source
  obtain ⟨distributor, leader, cluster⟩ := started.keeps_of_failed failed inOrder
    fun _ led aborted => leader_initiated_of_aborted made inputs led aborted
  refine ⟨distributor, leader, cluster.imp_right fun halved => ⟨halved, fun rest => ?_⟩⟩
  exact start_refused (kept.session .cluster _ rfl) halved.started rest

end Node

namespace Session.clouded

/-- The third party's session. Its right neighbour is listed with a key that the mechanism does not
take. -/
def last : Session := fresh clouded ⟨2, by decide⟩ (pair 2).secretKey

theorem right_last : clouded.right ⟨2, by decide⟩ = first := rfl

theorem initiate_refused (seed : Bytes 32) :
    Handshake.initiate .transparent (clouded.party first).publicKey seed =
      .error (.kem .parseEncapsulationKey .coefficientRange) := by
  simp only [Handshake.initiate, Kem.encapsulateFrom, encapsulate_refused]
  rfl

theorem last_start (source : DrawCounter) :
    last.handle .transparent .start source =
      ⟨.error (.crypto (.kem .parseEncapsulationKey .coefficientRange)), last,
        (RandomSource.draw 32 source).2⟩ := by
  have failed := initiate_refused (RandomSource.draw 32 source).1
  rw [← right_last] at failed
  exact start_unopened (by simp [last, fresh]) rfl failed

/-- The third party as a leader of a proper cluster. -/
def layout : NodeLayout := ⟨HonestRing.trio.roster, 2, some (clouded, 2), .leader⟩

def seated : Session := fresh HonestRing.trio.roster ⟨2, Nat.lt_succ_self 2⟩ (pair 2).secretKey

theorem seated_start (source : DrawCounter) :
    ∃ offer transcript, seated.handle .transparent .start source =
      ⟨.ok [.send (seated.envelope (.akeInit offer))], (seated.opened transcript).refreshed,
        (RandomSource.draw 32 source).2⟩ := by
  let trio := HonestRing.trio
  obtain ⟨offer, transcript, opened⟩ := Handshake.initiate_succeeds
    (trio.opens Kem.transparent_correct (trio.roster.right ⟨2, by decide⟩))
    (RandomSource.draw 32 source).1
  rw [← trio.party_publicKey] at opened
  have coherent : seated.Coherent .transparent := fresh_coherent _ _ _
  exact ⟨offer, transcript, coherent.start_opened (by simp [seated, fresh]) rfl opened⟩

def node : Node := ⟨seated, some last, .initial .leader⟩

theorem make_node : Node.make layout (pair 2).secretKey = .ok node := rfl

/-- The cluster's session makes its offer, and then the leaders' one cannot make its own. -/
theorem node_start (source : DrawCounter) :
    ∃ transcript rest, node.handle .transparent .start source =
      ⟨.error (.crypto (.kem .parseEncapsulationKey .coefficientRange)),
        node.withSession .cluster (seated.opened transcript).refreshed, rest⟩ := by
  obtain ⟨offer, transcript, started⟩ := seated_start source
  have first : node.handleSession .transparent .cluster seated .start source = _ :=
    Node.handleSession_of_sent started
  let halved := node.withSession .cluster (seated.opened transcript).refreshed
  have second : halved.handleSession .transparent .leader last .start _ = _ :=
    Node.handleSession_of_refused (last_start (RandomSource.draw 32 source).2) rfl
  have led : halved.leader = some last := rfl
  have ended := Node.start_eq_halved first rfl led second rfl
  exact ⟨transcript, _, ended⟩

theorem node_start_keeps :
    let inputs : List (NodeEvent × DrawCounter) := []
    let source : DrawCounter := ⟨0⟩
    let reached := node.after .transparent inputs
    let later := (reached.handle .transparent .start source).node
    let error := SessionError.crypto (.kem .parseEncapsulationKey .coefficientRange)
    Node.make layout (pair 2).secretKey = .ok node ∧
    (reached.handle .transparent .start source).result = .error error ∧
    later.distributor = reached.distributor ∧ later.leader = reached.leader ∧
    (later.cluster = reached.cluster ∨ reached.Halved .transparent error later ∧
      ∀ rest : DrawCounter, ∃ refusal,
        (later.handle .transparent .start rest).result = .error refusal) := by
  intro inputs source reached later error
  have failed : (reached.handle .transparent .start source).result = .error error := by
    obtain ⟨transcript, rest, started⟩ := node_start source
    rw [show reached = node from rfl, started]
  exact ⟨make_node, failed,
    Node.failed_start_keeps .transparent layout _ node make_node inputs source error failed⟩

/-- A new leader whose start fails can have started the session of its cluster: its offer is not
among the answer, and no further start makes one. -/
theorem start_halves :
    ∃ (layout : NodeLayout) (secretKey : SecretKey) (node : Node) (source : DrawCounter),
      layout.role = .leader ∧ Node.make layout secretKey = .ok node ∧
      let later := (node.handle .transparent .start source).node
      (∃ error, (node.handle .transparent .start source).result = .error error) ∧
      node.cluster.progress.initiated = false ∧ later.cluster.progress.initiated = true ∧
      later.cluster ≠ node.cluster ∧
      ∀ rest : DrawCounter, ∃ refusal,
        (later.handle .transparent .start rest).result = .error refusal := by
  let source : DrawCounter := ⟨0⟩
  have coherent : node.Coherent .transparent fun _ => True := (Node.make_coherent make_node).1
  have keeps : node.Keeps .transparent (fun _ => True) (node.handle .transparent .start source) :=
    coherent.handle (fun _ _ => trivial) source
  obtain ⟨transcript, rest, started⟩ := node_start source
  refine ⟨layout, (pair 2).secretKey, node, source, rfl, make_node, ?_⟩
  rw [started] at keeps ⊢
  have begun : (seated.opened transcript).refreshed.progress.initiated = true := rfl
  refine ⟨⟨_, rfl⟩, rfl, begun, fun same => ?_, fun rest => ?_⟩
  · have unbegun : false = true := (congrArg (·.progress.initiated) same).symm.trans begun
    cases unbegun
  · exact Node.start_refused (keeps.coherent.session .cluster _ rfl) begun rest

end Session.clouded

end RingAgreement
