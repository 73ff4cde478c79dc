/-!
Places in the hierarchy of rings.
-/

namespace RingAgreement

/-- What a node does in the hierarchy: nothing, belong to a cluster with a leader, or lead one. -/
inductive Role where
  | standalone
  | member
  | leader
deriving DecidableEq, Repr

def Role.name : Role → String
  | standalone => "Standalone"
  | member => "Member"
  | leader => "Leader"

/-- The two rings a node can take part in. -/
inductive Level where
  | cluster
  | leader
deriving DecidableEq, Repr

def Level.name : Level → String
  | cluster => "Cluster"
  | leader => "Leader"

end RingAgreement
