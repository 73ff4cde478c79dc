import RingAgreement.Node.Distributor
import RingAgreement.Session.Basic
/-!
A node: its session in the ring of its cluster, for a leader also its session in the ring of the
leaders, and the distributor that turns established keys into the key of the cluster.
-/

namespace RingAgreement

inductive NodeEvent where
  | start
  | received (level : Level) (envelope : Envelope)
deriving DecidableEq, Repr

inductive NodeAction where
  | send (level : Level) (envelope : Envelope)
  | sessionEstablished (level : Level) (key : GroupKey)
  | clusterKeyReady (key : ClusterKey)
  | deliver (sender : UInt32) (plaintext : List UInt8)
  | distributionFailed (error : SessionError)
deriving DecidableEq, Repr

/-- The rings and positions that a node is set up with. -/
structure NodeLayout where
  cluster : Roster
  clusterIndex : Nat
  leader : Option (Roster × Nat)
  role : Role
deriving DecidableEq

structure Node where
  cluster : Session
  leader : Option Session
  distributor : Distributor
deriving DecidableEq

/-- What an event leads to: actions or an error, the node after it and what is left of the source
of randomness. -/
structure NodeOutcome (ρ : Type) where
  result : Except SessionError (List NodeAction)
  node : Node
  source : ρ

namespace Node

/-- The leader session that a layout asks for. Leaders have one, and nobody else. -/
def leaderSession (layout : NodeLayout) (secretKey : SecretKey) :
    Except SessionError (Option Session) :=
  match layout.role, layout.leader with
  | .leader, some (roster, index) => (Session.make roster index secretKey).map some
  | .leader, none => .error (.invalidRoster .leaderWithoutRing)
  | role, some _ => .error (.invalidRoster (.ringWithoutLeader role))
  | _, none => .ok none

def make (layout : NodeLayout) (secretKey : SecretKey) : Except SessionError Node := do
  let leader ← leaderSession layout secretKey
  let cluster ← Session.make layout.cluster layout.clusterIndex secretKey
  return ⟨cluster, leader, .initial layout.role⟩

variable (node : Node)

def role : Role := node.distributor.role

/-- The key for the application messages of the cluster. -/
def clusterKey : Option ClusterKey := node.distributor.effective

/-- The position in the cluster's ring, as it stands in envelopes. -/
def clusterIndex : UInt32 := node.cluster.ownIndex

/-- The actions of a node for one action of its distributor. -/
def ofDistributor : DistributorAction → NodeAction
  | .broadcastWrapped wrapped =>
    .send .cluster ((Payload.wrappedKey wrapped).toEnvelope node.clusterIndex .everyone)
  | .effectiveKey key => .clusterKeyReady key

/-- Tells the distributor about a key. A failure becomes an action, so the actions beside it are
not lost. -/
def distribute (level : Level) (key : GroupKey) : List NodeAction × Node :=
  let outcome :=
    match level with
    | .cluster => node.distributor.clusterEstablished key
    | .leader => node.distributor.leaderEstablished key
  let after := { node with distributor := outcome.2 }
  match outcome.1 with
  | .ok actions => (actions.map after.ofDistributor, after)
  | .error e => ([.distributionFailed e], after)

/-- The actions of a node for the actions of one of its sessions. -/
def applySession (level : Level) : Node → List SessionAction → List NodeAction × Node
  | node, [] => ([], node)
  | node, .send e :: rest =>
    let (actions, node) := applySession level node rest
    (.send level e :: actions, node)
  | node, .established key :: rest =>
    let (distributed, node) := node.distribute level key
    let (actions, node) := applySession level node rest
    (.sessionEstablished level key :: (distributed ++ actions), node)

/-- The sender of a message for the cluster, or none if it is not for this node. -/
def clusterSender (level : Level) (e : Envelope) : Except SessionError (Option UInt32) :=
  if level ≠ .cluster then .error (.unexpectedKind e.kind .leaderRing)
  else if node.cluster.roster.size ≤ e.sender.toNat then
    .error (.decode (.invalidIndex e.sender.toNat))
  else if e.sender = node.clusterIndex ∨ !e.recipient.includes node.clusterIndex then .ok none
  else .ok (some e.sender)

/-- Takes a wrapped key from the cluster. -/
def receiveWrapped (wrapped : WrappedKey) : Except SessionError (List NodeAction) × Node :=
  let (result, distributor) := node.distributor.receiveWrapped wrapped
  let after := { node with distributor }
  (result.map fun actions => actions.map after.ofDistributor, after)

/-- Opens an application message from the cluster. -/
def openMessage (sender : UInt32) (message : SealedMessage) :
    Except SessionError (List NodeAction) :=
  match node.clusterKey with
  | none => .error .noKeyAvailable
  | some key =>
    match message.openWith key sender with
    | .ok plaintext => .ok [.deliver sender plaintext]
    | .error e => .error (.crypto e)

/-- Takes a message that is not part of a ring's run. -/
def receiveClusterPayload (level : Level) (e : Envelope) :
    Except SessionError (List NodeAction) × Node :=
  match node.clusterSender level e with
  | .error error => (.error error, node)
  | .ok none => (.ok [], node)
  | .ok (some sender) =>
    match Payload.ofEnvelope e with
    | .error error => (.error (.decode error), node)
    | .ok (.wrappedKey wrapped) => node.receiveWrapped wrapped
    | .ok (.appMessage message) => (node.openMessage sender message, node)
    | .ok _ => (.error (.decode (.unknownKind e.kind.code)), node)

variable (K : Kem) {ρ : Type} [RandomSource ρ]

/-- The session of a level. -/
def session? : Level → Option Session
  | .cluster => some node.cluster
  | .leader => node.leader

def withSession (level : Level) (session : Session) : Node :=
  match level with
  | .cluster => { node with cluster := session }
  | .leader => { node with leader := some session }

/-- Hands an event to one session and applies its actions. -/
def handleSession (level : Level) (session : Session) (event : SessionEvent) (source : ρ) :
    NodeOutcome ρ :=
  let outcome := session.handle K event source
  let after := node.withSession level outcome.session
  match outcome.result with
  | .error e => ⟨.error e, after, outcome.source⟩
  | .ok actions =>
    let (actions, after) := applySession level after actions
    ⟨.ok actions, after, outcome.source⟩

/-- Starts the sessions, the cluster's first. -/
def start (source : ρ) : NodeOutcome ρ :=
  let first := node.handleSession K .cluster node.cluster .start source
  match first.result, first.node.leader with
  | .ok actions, some leader =>
    let second := first.node.handleSession K .leader leader .start first.source
    { second with result := second.result.map (actions ++ ·) }
  | _, _ => first

/-- Takes an envelope from the ring of a level. -/
def receive (level : Level) (e : Envelope) (source : ρ) : NodeOutcome ρ :=
  match e.kind with
  | .akeInit | .akeRespond | .shareBroadcast =>
    match node.session? level with
    | none => ⟨.error (.unexpectedKind e.kind .nodeWithoutLeaderRing), node, source⟩
    | some session => node.handleSession K level session (.received e) source
  | .wrappedKey | .appMessage =>
    let (result, after) := node.receiveClusterPayload level e
    ⟨result, after, source⟩

def handle (event : NodeEvent) (source : ρ) : NodeOutcome ρ :=
  match event with
  | .start => node.start K source
  | .received level e => node.receive K level e source

/-- The envelope of an application message, with a fresh nonce. -/
def sealMessage (plaintext : List UInt8) (source : ρ) : Except SessionError Envelope × ρ :=
  match node.clusterKey with
  | none => (.error .noKeyAvailable, source)
  | some key =>
    let (nonce, source) := RandomSource.draw 24 source
    let message := SealedMessage.make key node.clusterIndex plaintext nonce
    (.ok ((Payload.appMessage message).toEnvelope node.clusterIndex .everyone), source)

end Node

end RingAgreement
