import RingAgreement.Node.Basic
/-!
Packets on their way, and which nodes hear them.
-/

namespace RingAgreement.Simulation

/-- An envelope with the node that sent it and the ring level it was sent on. -/
structure Packet where
  origin : Nat
  level : Level
  envelope : Envelope
deriving DecidableEq, Repr

/-- The packet with a mask added to one content byte, counted around the content. -/
def Packet.corrupted (p : Packet) (position : Nat) (mask : UInt8) : Packet :=
  let content := p.envelope.content
  { p with
    envelope :=
      { p.envelope with content := content.modify (position % content.length) (· ^^^ mask) } }

/-- A choice of packets: by sender, by kind, by level, or by several of them. -/
structure Filter where
  origin : Option Nat
  kind : Option MessageKind
  level : Option Level
deriving DecidableEq, Repr

def Filter.matches (f : Filter) (p : Packet) : Bool :=
  f.origin.all (· = p.origin) && f.kind.all (· = p.envelope.kind) && f.level.all (· = p.level)

/-- The rings a node takes part in. -/
structure Place where
  clusterRing : Nat
  leaderRing : Option Nat
deriving DecidableEq, Repr

namespace Place

def ringOf (place : Place) : Level → Option Nat
  | .cluster => some place.clusterRing
  | .leader => place.leaderRing

/-- The level on which a node hears a ring. -/
def levelFor (place : Place) (ring : Nat) : Option Level :=
  if place.clusterRing = ring then some .cluster
  else if place.leaderRing = some ring then some .leader
  else none

end Place

/-- The places of all nodes and the members of all rings, in ring order. -/
structure Topology where
  places : List Place
  members : List (List Nat)
deriving DecidableEq, Repr

/-- The nodes that hear what a node sends on a level, each with the level it hears it on. -/
def Topology.hearers (t : Topology) (origin : Nat) (level : Level) : List (Nat × Level) :=
  let ring? := do (← t.places[origin]?).ringOf level
  match ring? with
  | none => []
  | some ring =>
    (t.members.getD ring []).filterMap fun member =>
      if member = origin then none
      else do
        let place ← t.places[member]?
        let level ← place.levelFor ring
        return (member, level)

end RingAgreement.Simulation
