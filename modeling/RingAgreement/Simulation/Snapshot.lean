import RingAgreement.Cluster.SealedMessage
import RingAgreement.Ring.GroupKey
import RingAgreement.Session.Error
/-!
What can be seen of a whole deployment at one moment.
-/

namespace RingAgreement.Simulation

structure SessionSnapshot where
  ring : Nat
  level : Level
  state : SessionState
  groupKey : Option GroupKey
  completions : Nat
deriving DecidableEq, Repr

structure NodeSnapshot where
  id : Nat
  name : String
  role : Role
  sessions : List SessionSnapshot
  effectiveKey : Option ClusterKey
  keyAnnouncements : Nat
  distributorAborted : Bool
deriving DecidableEq, Repr

structure RingSnapshot where
  name : String
  members : List Nat
deriving DecidableEq, Repr

structure Snapshot where
  nodes : List NodeSnapshot
  rings : List RingSnapshot
deriving DecidableEq, Repr

/-- The first session of a node on a level. -/
def NodeSnapshot.session? (node : NodeSnapshot) (level : Level) : Option SessionSnapshot :=
  node.sessions.find? (·.level = level)

/-- All group keys in a ring, each with the node that holds it. -/
def Snapshot.groupKeys (s : Snapshot) (ring : Nat) : List (NodeSnapshot × GroupKey) :=
  s.nodes.flatMap fun node =>
    (node.sessions.filter (·.ring = ring)).filterMap fun session =>
      session.groupKey.map fun key => (node, key)

/-- All effective keys, each with the node that holds it. -/
def Snapshot.effectiveKeys (s : Snapshot) : List (NodeSnapshot × ClusterKey) :=
  s.nodes.filterMap fun node => node.effectiveKey.map fun key => (node, key)

end RingAgreement.Simulation
