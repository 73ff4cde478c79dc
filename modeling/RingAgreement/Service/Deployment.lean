import RingAgreement.Service.Station
import RingAgreement.Transport.Hub
/-!
Stations that talk through the relays of their rings. All of it goes on in small moves: a turn at a
station, or a relay that sees to one of its connections. Settling makes moves until none is left. It
lets one after the other do all that it can, in the order in which they come to have something to
do.
-/

namespace RingAgreement

/-- Someone with work of its own: a relay at one of its connections, a link, a node. -/
inductive Worker where
  | relay (ring connection : Nat)
  | link (station : Nat) (level : Level)
  | node (station : Nat)
deriving DecidableEq, Repr

/-- The agenda has the workers that have been called up since everything was settled, in their
order. -/
structure Deployment (ρ : Type) where
  stations : List (Option (Station ρ))
  hubs : List Hub
  agenda : List Worker

/-- What a node needs to go into operation. -/
structure Launch (ρ : Type) where
  node : Node
  source : ρ
  limits : Limits
  clusterRing : Nat
  leaderRing : Option Nat

/-- The rings that the node takes part in. Without a leader session it keeps to its cluster. -/
def Launch.rings {ρ : Type} (l : Launch ρ) : List (Level × Nat) :=
  (.cluster, l.clusterRing) ::
    (if l.node.leader.isSome then l.leaderRing.toList.map (Level.leader, ·) else [])

namespace Deployment

variable {ρ : Type}

/-- A deployment with all its nodes out of operation. -/
def idle (nodes rings : Nat) : Deployment ρ :=
  ⟨List.replicate nodes none, List.replicate rings (.new .standard), []⟩

variable (d : Deployment ρ)

def station? (i : Nat) : Option (Station ρ) := (d.stations[i]?).join

def withStation (i : Nat) (s : Option (Station ρ)) : Deployment ρ :=
  { d with stations := d.stations.set i s }

/-- Connects to the relay of a ring. -/
def connect (ring : Nat) : Option Relay.Admission × Deployment ρ :=
  match d.hubs[ring]? with
  | none => (none, d)
  | some hub =>
    let (admission, hub) := hub.connect
    (some admission, { d with hubs := d.hubs.set ring hub })

/-- Lets something arrive at the relay's end of a connection. -/
def put (ring connection : Nat) (change : Inflow → Inflow) : Deployment ρ :=
  { d with hubs := d.hubs.modify ring (·.put connection change) }

def emit : Option Emission → Deployment ρ
  | none => d
  | some e => d.put e.ring e.connection e.signal.apply

/-- The station and level at the other end of a connection. -/
def receiver? (ring connection : Nat) : Option (Nat × Level) :=
  d.stations.zipIdx.findSome? fun (station, i) => do
    let (level, _) ←
      (← station).links.find? fun l => l.2.ring = ring ∧ l.2.connection = connection
    return (i, level)

/-- Lets something arrive at a station. -/
def arrive (i : Nat) (level : Level) (change : Inflow → Inflow) : Deployment ρ :=
  d.withStation i ((d.station? i).map (·.arrive level change))

/-- The relay's end of a connection: publishes the lines that have arrived, and writes the lines
of the others. Where the relay gives a connection up, the stream at the other end ends. -/
def serve (ring connection : Nat) : Deployment ρ :=
  match d.hubs[ring]? with
  | none => d
  | some hub =>
    let (lines, hub) := hub.serve connection
    let d := { d with hubs := d.hubs.set ring hub }
    match d.receiver? ring connection with
    | none => d
    | some (i, level) =>
      if hub.isOpen connection then
        if lines.isEmpty then d else d.arrive i level (.push (Link.stream lines))
      else d.arrive i level .close

/-- An outsider connects to the relay of a ring and sends one envelope. -/
def intrude (ring : Nat) (e : Envelope) : Deployment ρ :=
  match d.connect ring, e.toLine with
  | (some a, d), .ok line => d.put ring a.id (.push (Text.utf8 line))
  | (_, d), _ => d

/-! ## Moves -/

/-- What can happen while nodes are in operation. -/
inductive Move where
  | turn (station : Nat) (turn : Station.Turn)
  | relay (ring connection : Nat)
  | intrude (ring : Nat) (e : Envelope)
deriving DecidableEq, Repr

/-- The moves of a worker, those that come first in front. -/
def movesOf : Worker → List Move
  | .relay ring connection => [.relay ring connection]
  | .link i level => (Station.Turn.ofLink level).map (.turn i)
  | .node i => Station.Turn.ofNode.map (.turn i)

def workers : List Worker :=
  d.hubs.zipIdx.flatMap (fun (hub, ring) => hub.connections.map fun c => .relay ring c.id) ++
    (List.range d.stations.length).flatMap (fun i => [.link i .cluster, .link i .leader]) ++
    (List.range d.stations.length).map .node

/-- Whether a worker has something to do, even if it has to wait for room. -/
def isBusy : Worker → Bool
  | .relay ring connection => !(d.hubs[ring]?).all (·.isQuiet connection)
  | .link i level => ((d.station? i).bind (·.link? level)).any (·.isBusy)
  | .node i => (d.station? i).any (·.isBusy)

/-- Puts those that have come to have something to do at the end of an agenda. -/
def callUp (agenda : List Worker) : List Worker :=
  agenda ++ d.workers.filter fun w => d.isBusy w && w ∉ agenda

/-- Puts workers at the end of the agenda. -/
def enlist (workers : List Worker) : Deployment ρ :=
  { d with agenda := d.agenda.filter (· ∉ workers) ++ workers }

section

variable (K : Kem) [RandomSource ρ]

/-- The deployment after a move, or none if there is nothing to do or it has to wait. -/
def move? : Move → Option (Deployment ρ)
  | .turn i turn => (d.station? i).bind fun s =>
      (s.turn? K turn).map fun (after, emission) => (d.withStation i (some after)).emit emission
  | .relay ring connection =>
    if (d.hubs[ring]?).all (·.isQuiet connection) then none else some (d.serve ring connection)
  | .intrude ring e => some (d.intrude ring e)

def move (m : Move) : Deployment ρ := (d.move? K m).getD d

def run (moves : List Move) : Deployment ρ := moves.foldl (fun d m => d.move K m) d

/-- Makes moves as long as a worker on the agenda has one, at most a number of them. The first
worker that has one stays in front until it has none left. -/
def work (d : Deployment ρ) : Nat → List Worker → Deployment ρ
  | 0, _ => d
  | fuel + 1, agenda =>
    match agenda.findSome? fun w => ((movesOf w).findSome? (d.move? K)).map (w, ·) with
    | none => d
    | some (w, after) => after.work fuel (after.callUp (agenda.dropWhile (· ≠ w)))

/-- More moves than can follow. A node sends at most seven envelopes on its own, three in each ring
and one wrapped key. Besides these there is what is on its way. An item takes a few moves until it
is on the stream of its sender, and a few at every other connection. -/
def workBound : Nat :=
  let connections := d.hubs.flatMap (·.connections)
  let stations := d.stations.flatMap (·.toList)
  let links := stations.flatMap fun s => s.links.map (·.2)
  let pieces := connections.flatMap (·.inflow.pieces) ++ links.flatMap (·.inflow.pieces)
  let calls := stations.flatMap fun s => s.callers ++ s.commands
  let envelopes := links.flatMap fun l => l.held.toList ++ l.outbox
  let standing := calls.length + envelopes.length + (stations.flatMap (·.duties)).length +
    (stations.flatMap (·.waiting)).length
  (pieces.length + LineReader.unread pieces + standing + 8 * d.stations.length + 1) *
    (16 * (connections.length + 1))

/-- Lets everything go on until nothing is left to do. -/
def settle : Deployment ρ :=
  { d.work K d.workBound (d.callUp d.agenda) with agenda := [] }

end

/-! ## What the owners do -/

/-- Takes a node out of operation. -/
def stop (i : Nat) : Deployment ρ :=
  let links := ((d.station? i).map (·.links)).getD []
  links.foldl
    (fun d (_, link) => (d.put link.ring link.connection .close).enlist
      [.relay link.ring link.connection])
    (d.withStation i none)

/-- Connects a node to the relays of its rings. -/
def join (launch : Launch ρ) : List (Level × Link) × Deployment ρ :=
  launch.rings.foldl
    (fun (links, d) (level, ring) =>
      match d.connect ring with
      | (none, d) => (links, d)
      | (some a, d) => (links ++ [(level, .new ring launch.limits.maxLineBytes a)], d))
    ([], d)

/-- Sets up the station of a node in place of an earlier one. Its links look at their streams before
it starts. -/
def install (d : Deployment ρ) (i : Nat) (launch : Launch ρ) (links : List (Level × Link)) :
    Deployment ρ :=
  let station := links.foldl (fun s (level, link) => s.withLink level (some link))
    (Station.new launch.node launch.source launch.limits)
  ((d.stop i).withStation i (some station)).enlist (links.map (.link i ·.1) ++ [.node i])

/-- Puts nodes into operation. All of them are connected before one is set up, so a run lasts from
the old station of a node to the new one. Of two launches of a node the later counts. -/
def launch (launches : List (Nat × Launch ρ)) : Deployment ρ :=
  let (joined, d) := launches.foldl
    (fun (joined, d) (i, launch) =>
      let (links, d) := d.join launch
      (joined ++ [(i, launch, links)], d))
    (([] : List (Nat × Launch ρ × List (Level × Link))), d)
  joined.foldl (fun d (i, launch, links) => d.install i launch links) d

/-- The relay of a ring breaks all its connections off. -/
def cut (ring : Nat) : Deployment ρ :=
  { d with
    stations := d.stations.map (·.map fun s => s.links.foldl
      (fun s l => if l.2.ring = ring then s.arrive l.1 .close else s) s)
    hubs := d.hubs.modify ring Hub.sever }

/-- Sends an application message from a node to its cluster. -/
def sendMessage [RandomSource ρ] (i : Nat) (plaintext : List UInt8) :
    Except ServiceError Receipt × Deployment ρ :=
  match d.station? i with
  | none => (.error .stopped, d)
  | some s =>
    let (receipt, s) := s.send plaintext
    (receipt, d.withStation i (some s))

/-- The key of a node's cluster as its owner waits for it; none while it is still pending. -/
def awaitKey (i : Nat) : Except ServiceError (Option ClusterKey) :=
  match d.station? i with
  | none => .error .stopped
  | some s =>
    match s.status with
    | .failed e => .error (.session e)
    | status => .ok status.key?

/-- Takes the messages out of all inboxes. -/
def collect : List (Nat × List (UInt32 × List UInt8)) × Deployment ρ :=
  (d.stations.zipIdx.filterMap fun (station, i) => do
      let s ← station
      if s.inbox.isEmpty then none else some (i, s.inbox),
    { d with stations := d.stations.map (·.map ({ · with inbox := [] })) })

end Deployment

end RingAgreement
