import RingAgreement.Simulation.Network
import RingAgreement.Simulation.Snapshot
/-!
Whole deployments in simulation: a flat ring of standalone nodes, or a ring of leaders with a
ring for every cluster. All randomness comes from one seed.
-/

namespace RingAgreement.Simulation

/-- What has happened at a node so far. -/
structure NodeLog where
  established : List (Level × GroupKey)
  clusterKeys : List ClusterKey
  delivered : List (UInt32 × List UInt8)
  errors : List SessionError

namespace NodeLog

def empty : NodeLog := ⟨[], [], [], []⟩

def hasFatalError (log : NodeLog) : Bool := log.errors.any (·.isFatal)

/-- Writes down one action. -/
def record (log : NodeLog) : NodeAction → NodeLog
  | .send _ _ => log
  | .sessionEstablished level key => { log with established := log.established ++ [(level, key)] }
  | .clusterKeyReady key => { log with clusterKeys := log.clusterKeys ++ [key] }
  | .deliver sender plaintext => { log with delivered := log.delivered ++ [(sender, plaintext)] }
  | .distributionFailed e => { log with errors := log.errors ++ [e] }

def completions (log : NodeLog) (level : Level) : Nat := log.established.countP (·.1 = level)

end NodeLog

structure SimNode where
  name : String
  place : Place
  node : Node
  source : StreamSource
  log : NodeLog

structure RingLayout where
  roster : Roster
  members : List Nat

/-- A node that is still to be made. -/
structure NodePlan where
  name : String
  role : Role
  place : Place

structure World where
  nodes : List SimNode
  rings : List RingLayout
  network : Network

namespace World

variable (K : Kem)

/-- A key pair for each of a number of nodes. -/
def drawKeypairs : Nat → StreamSource → List Keypair × StreamSource
  | 0, source => ([], source)
  | count + 1, source =>
    let (seed, source) := source.draw 32
    let (rest, source) := drawKeypairs count source
    (K.keypair seed :: rest, source)

/-- The party of a node in its rings. -/
def partyOf (plans : List (NodePlan × Keypair)) (id : Nat) : Except SessionError (List Party) :=
  match plans[id]? with
  | none => .ok []
  | some (plan, keys) =>
    match PartyId.ofName plan.name with
    | .ok party => .ok [⟨party, keys.publicKey⟩]
    | .error e => .error (.crypto e)

/-- The ring with a name and members. -/
def makeRing (plans : List (NodePlan × Keypair)) (name : String) (members : List Nat) :
    Except SessionError RingLayout := do
  let parties ← members.mapM (partyOf plans)
  return ⟨← Roster.make name parties.flatten, members⟩

/-- Roster and position of a node in a ring. -/
def positionIn (rings : List RingLayout) (id : Nat) (name : String) (ring : Nat) :
    Except SessionError (Roster × Nat) :=
  let found := do
    let layout ← rings[ring]?
    return (layout.roster, ← layout.members.findIdx? (· = id))
  match found with
  | some position => .ok position
  | none => .error (.invalidRoster (.notInRing name ring))

/-- Makes the planned nodes in order, each with a generator split off from the common one. -/
def makeNodes (rings : List RingLayout) :
    List ((NodePlan × Keypair) × Nat) → StreamSource → Except SessionError (List SimNode × StreamSource)
  | [], source => .ok ([], source)
  | ((plan, keys), id) :: rest, source => do
    let (cluster, clusterIndex) ← positionIn rings id plan.name plan.place.clusterRing
    let leader ← plan.place.leaderRing.mapM (positionIn rings id plan.name)
    let (own, source) := source.fork
    let node ← Node.make ⟨cluster, clusterIndex, leader, plan.role⟩ keys.secretKey
    let (nodes, source) ← makeNodes rings rest source
    return (⟨plan.name, plan.place, node, own, .empty⟩ :: nodes, source)

/-- The world with the planned nodes and rings. -/
def build (seed : UInt64) (config : NetworkConfig) (plans : List NodePlan)
    (members : List (List Nat)) (title : String) : Except SessionError World := do
  let (keypairs, source) := drawKeypairs K plans.length (.ofNumber seed)
  let plans := plans.zip keypairs
  let rings ← members.zipIdx.mapM fun (members, r) =>
    makeRing plans (title ++ "-ring" ++ toString r) members
  let (nodes, source) ← makeNodes rings plans.zipIdx source
  let (networkSeed, _) := source.draw 8
  return ⟨nodes, rings, .ofSeed (.ofNat (Bytes.ofBigEndian networkSeed.toList)) config⟩

/-- One ring of standalone nodes. -/
def flat (seed : UInt64) (size : Nat) (config : NetworkConfig) : Except SessionError World :=
  let plans := (List.range size).map fun i => ⟨"n" ++ toString i, .standalone, ⟨0, none⟩⟩
  build K seed config plans [List.range size] "flat"

/-- The plan of the leader numbered `l`; without a cluster of its own it uses the leaders' ring
as its cluster. -/
def leaderPlan (clusters l : Nat) : NodePlan :=
  let name := "leader" ++ toString l
  if l < clusters then ⟨name, .leader, ⟨1 + l, some 0⟩⟩ else ⟨name, .standalone, ⟨0, none⟩⟩

/-- The plans of the other members of cluster `c`. -/
def memberPlans (c size : Nat) : List NodePlan :=
  (List.range (size - 1)).map fun m =>
    ⟨"c" ++ toString c ++ "m" ++ toString (m + 1), .member, ⟨1 + c, none⟩⟩

/-- The members of the clusters from `c` on, when the next free node has a given number. -/
def clusterMembers : Nat → Nat → List Nat → List (List Nat)
  | _, _, [] => []
  | c, next, size :: sizes =>
    (c :: (List.range (size - 1)).map (next + ·)) :: clusterMembers (c + 1) (next + (size - 1)) sizes

/-- A ring of leaders, the first of which lead clusters of the given sizes. -/
def hierarchical (seed : UInt64) (leaders : Nat) (sizes : List Nat) (config : NetworkConfig) :
    Except SessionError World :=
  if sizes.length > leaders then
    .error (.invalidRoster (.moreClustersThanLeaders sizes.length leaders))
  else
    let plans := (List.range leaders).map (leaderPlan sizes.length) ++
      (sizes.zipIdx.flatMap fun (size, c) => memberPlans c size)
    build K seed config plans (List.range leaders :: clusterMembers 0 leaders sizes) "hier"

variable (w : World)

def topology : Topology := ⟨w.nodes.map (·.place), w.rings.map (·.members)⟩

def find? (name : String) : Option Nat := w.nodes.findIdx? (·.name = name)

def send (origin : Nat) (level : Level) (e : Envelope) : World :=
  { w with network := w.network.send ⟨origin, level, e⟩ }

/-- Writes down what a node did and sends its envelopes. -/
def apply (id : Nat) (result : Except SessionError (List NodeAction)) : World :=
  let logged (write : NodeLog → NodeLog) : List SimNode :=
    w.nodes.modify id fun n => { n with log := write n.log }
  match result with
  | .error e => { w with nodes := logged fun log => { log with errors := log.errors ++ [e] } }
  | .ok actions =>
    let sent := actions.filterMap fun
      | .send level e => some (Packet.mk id level e)
      | _ => none
    { w with
      nodes := logged fun log => actions.foldl NodeLog.record log
      network := sent.foldl Network.send w.network }

/-- Hands an event to a node. -/
def hand (id : Nat) (event : NodeEvent) : World :=
  match w.nodes[id]? with
  | none => w
  | some n =>
    let outcome := n.node.handle K event n.source
    let after := { n with node := outcome.node, source := outcome.source }
    apply { w with nodes := w.nodes.set id after } id outcome.result

def start (id : Nat) : World := w.hand K id .start

def startAll : World := (List.range w.nodes.length).foldl (fun w id => w.start K id) w

/-- Hands a packet to all who hear it. -/
def deliver (p : Packet) : World :=
  (w.topology.hearers p.origin p.level).foldl
    (fun w hearer => w.hand K hearer.1 (.received hearer.2 p.envelope)) w

/-- Delivers the next packet as the hook passes it on, unless nothing is in flight. -/
def step (hook : Packet → Packet) : Option World :=
  match w.network.take with
  | none => none
  | some (flight, network) => some (deliver K { w with network } (hook flight.packet))

/-- Delivers packets, at most so many, and counts them. -/
def run (hook : Packet → Packet) : Nat → World → World × Nat
  | 0, w => (w, 0)
  | max + 1, w =>
    match w.step K hook with
    | none => (w, 0)
    | some w =>
      let (w, count) := run hook max w
      (w, count + 1)

/-- Sends an application message from a node to its cluster. -/
def sendMessage (id : Nat) (plaintext : List UInt8) : Except SessionError Unit × World :=
  match w.nodes[id]? with
  | none => (.error .noKeyAvailable, w)
  | some n =>
    let (result, source) := n.node.sealMessage plaintext n.source
    let w := { w with nodes := w.nodes.set id { n with source } }
    match result with
    | .error e => (.error e, w)
    | .ok e => (.ok (), w.send id .cluster e)

/-- Removes the packets of a choice, and counts them. -/
def dropPackets (filter : Filter) : World × Nat :=
  let (dropped, kept) := w.network.inFlight.partition fun flight => filter.matches flight.packet
  ({ w with network := { w.network with inFlight := kept } }, dropped.length)

def nodeSnapshot (n : SimNode) (id : Nat) : NodeSnapshot :=
  let session (ring : Nat) (level : Level) (s : Session) : SessionSnapshot :=
    ⟨ring, level, s.state, s.groupKey, n.log.completions level⟩
  let leader := match n.place.leaderRing, n.node.leader with
    | some ring, some s => [session ring .leader s]
    | _, _ => []
  { id
    name := n.name
    role := n.node.role
    sessions := session n.place.clusterRing .cluster n.node.cluster :: leader
    effectiveKey := n.node.clusterKey
    keyAnnouncements := n.log.clusterKeys.length
    distributorAborted := n.node.distributor.aborted }

def snapshot : Snapshot where
  nodes := w.nodes.zipIdx.map fun (n, id) => nodeSnapshot n id
  rings := w.rings.map fun ring => ⟨ring.roster.name, ring.members⟩

end World

end RingAgreement.Simulation
