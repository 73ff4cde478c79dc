import RingAgreement.Cluster.SealedMessage
import RingAgreement.Cluster.WrappedKey
import RingAgreement.Session.Error
/-!
How a node comes to the key of its cluster. A standalone node uses the key of its own ring; a
leader uses the key of the leaders' ring and broadcasts it, wrapped, in its cluster; a member
unwraps what its leader sends. The first decision stays.
-/

namespace RingAgreement

inductive DistributorAction where
  | broadcastWrapped (wrapped : WrappedKey)
  | effectiveKey (key : ClusterKey)
deriving DecidableEq, Repr

structure Distributor where
  role : Role
  clusterKey : Option GroupKey
  leaderKey : Option GroupKey
  /-- The last wrapped key that came before the cluster key. -/
  pending : Option WrappedKey
  effective : Option ClusterKey
  aborted : Bool
deriving DecidableEq, Repr

/-- Actions or an error, and the distributor after it. -/
abbrev DistributorOutcome := Except SessionError (List DistributorAction) × Distributor

namespace Distributor

def initial (role : Role) : Distributor := ⟨role, none, none, none, none, false⟩

variable (d : Distributor)

/-- Makes a key the effective one unless there is one. -/
def install (key : ClusterKey) : List DistributorAction × Distributor :=
  if d.effective.isSome then ([], d) else ([.effectiveKey key], { d with effective := some key })

/-- Wraps the leaders' key for the cluster once both keys are there. -/
def tryWrap : List DistributorAction × Distributor :=
  match d.effective, d.clusterKey, d.leaderKey with
  | none, some cluster, some leader =>
    let wrapped := (WrappingKey.derive cluster).wrap leader.key
    let (actions, d) := d.install ⟨leader.key⟩
    (.broadcastWrapped wrapped :: actions, d)
  | _, _, _ => ([], d)

/-- Unwraps a key with the cluster key. A wrong tag ends the distribution. -/
def unwrapWith (cluster : GroupKey) (wrapped : WrappedKey) : DistributorOutcome :=
  match (WrappingKey.derive cluster).unwrap wrapped with
  | .ok key =>
    let (actions, d) := d.install ⟨key⟩
    (.ok actions, d)
  | .error _ => (.error (.verification .wrappedKeyTag), { d with aborted := true, pending := none })

/-- The cluster's ring has established its key. -/
def clusterEstablished (key : GroupKey) : DistributorOutcome :=
  if d.aborted then (.error .aborted, d)
  else if d.clusterKey.isSome then (.ok [], d)
  else
    let d := { d with clusterKey := some key }
    match d.role with
    | .standalone =>
      let (actions, d) := d.install ⟨key.key⟩
      (.ok actions, d)
    | .leader =>
      let (actions, d) := d.tryWrap
      (.ok actions, d)
    | .member =>
      match d.pending with
      | some wrapped => unwrapWith { d with pending := none } key wrapped
      | none => (.ok [], d)

/-- The leaders' ring has established its key. -/
def leaderEstablished (key : GroupKey) : DistributorOutcome :=
  if d.aborted then (.error .aborted, d)
  else if d.role ≠ .leader then (.error (.invalidRoster (.keyWithoutLeader d.role)), d)
  else if d.leaderKey.isSome then (.ok [], d)
  else
    let (actions, d) := tryWrap { d with leaderKey := some key }
    (.ok actions, d)

/-- A wrapped key has arrived. Before the cluster key is there, the last one is kept. -/
def receiveWrapped (wrapped : WrappedKey) : DistributorOutcome :=
  if d.aborted then (.error .aborted, d)
  else if d.role ≠ .member ∨ d.effective.isSome then (.ok [], d)
  else
    match d.clusterKey with
    | none => (.ok [], { d with pending := some wrapped })
    | some cluster => d.unwrapWith cluster wrapped

end Distributor

end RingAgreement
