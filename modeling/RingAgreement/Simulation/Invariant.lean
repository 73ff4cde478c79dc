import RingAgreement.Simulation.Snapshot
/-!
Invariants of a deployment. A check gives the first violation it meets, in words.
-/

namespace RingAgreement.Simulation

inductive Invariant where
  | ringKeyAgreement
  | clusterKeyConvergence
  | effectiveKeySource
  | singleCompletion
  | abortedHoldsNoKey
deriving DecidableEq, Repr

/-- An invariant that does not hold, and how. -/
structure Violation where
  invariant : Invariant
  message : String
deriving DecidableEq, Repr

namespace Invariant

def name : Invariant → String
  | ringKeyAgreement => "ring_key_agreement"
  | clusterKeyConvergence => "cluster_key_convergence"
  | effectiveKeySource => "effective_key_source"
  | singleCompletion => "single_completion"
  | abortedHoldsNoKey => "aborted_holds_no_key"

/-- The invariants that every deployment is checked for. -/
def standard : List Invariant :=
  [ringKeyAgreement, clusterKeyConvergence, effectiveKeySource, singleCompletion,
    abortedHoldsNoKey]

/-- The first entry whose key differs from that of the first entry, with the first entry. -/
def firstDisagreement {κ ν : Type} [DecidableEq κ] : List (ν × κ) → Option ((ν × κ) × (ν × κ))
  | [] => none
  | first :: rest => (rest.find? (·.2 ≠ first.2)).map fun other => (first, other)

/-- Two nodes of a ring that hold different group keys. -/
def checkRing (s : Snapshot) (ring : RingSnapshot × Nat) : Option String :=
  (firstDisagreement (s.groupKeys ring.2)).map fun ((a, aKey), (b, bKey)) =>
    "ring " ++ ring.1.name ++ ": " ++ a.name ++ " holds " ++ aKey.summary ++ ", " ++ b.name ++
      " holds " ++ bKey.summary

/-- Two nodes that hold different effective keys. -/
def checkConvergence (s : Snapshot) : Option String :=
  (firstDisagreement s.effectiveKeys).map fun ((a, _), (b, _)) =>
    a.name ++ " and " ++ b.name ++ " installed different effective keys"

/-- An effective key that the node cannot have from where its role takes it. -/
def checkSource (node : NodeSnapshot) : Option String :=
  match node.effectiveKey with
  | none => none
  | some key =>
    let comesFrom (level : Level) : Option String :=
      let source := (node.session? level).bind (·.groupKey)
      if source.any (·.key = key.bytes) then none
      else
        some (node.role.name ++ " " ++ node.name ++
          " installed a key its source ring did not establish")
    match node.role with
    | .standalone => comesFrom .cluster
    | .leader => comesFrom .leader
    | .member =>
      if (node.session? .cluster).any (·.state = .established) then none
      else some ("member " ++ node.name ++ " installed a key before its cluster ring finished")

/-- A session that completed more than once. -/
def checkSessionCompletion (node : NodeSnapshot) (session : SessionSnapshot) : Option String :=
  if session.completions > 1 then
    some (node.name ++ " " ++ session.level.name ++ " session completed " ++
      toString session.completions ++ " times")
  else none

/-- A key announced, or a session completed, more than once. -/
def checkCompletion (node : NodeSnapshot) : Option String :=
  if node.keyAnnouncements > 1 then
    some (node.name ++ " announced its effective key " ++ toString node.keyAnnouncements ++
      " times")
  else node.sessions.findSome? (checkSessionCompletion node)

/-- An aborted session that holds a key. -/
def checkAbortedSession (node : NodeSnapshot) (session : SessionSnapshot) : Option String :=
  if session.state = .aborted ∧ session.groupKey.isSome then
    some (node.name ++ " " ++ session.level.name ++ " session aborted but kept its key")
  else none

/-- An aborted session or distributor that holds a key. -/
def checkAborted (node : NodeSnapshot) : Option String :=
  match node.sessions.findSome? (checkAbortedSession node) with
  | some message => some message
  | none =>
    if node.distributorAborted ∧ node.effectiveKey.isSome then
      some (node.name ++ " rejected a wrapped key but holds a key")
    else none

/-- The first violation of an invariant. -/
def check (s : Snapshot) : Invariant → Option String
  | ringKeyAgreement => s.rings.zipIdx.findSome? (checkRing s)
  | clusterKeyConvergence => checkConvergence s
  | effectiveKeySource => s.nodes.findSome? checkSource
  | singleCompletion => s.nodes.findSome? checkCompletion
  | abortedHoldsNoKey => s.nodes.findSome? checkAborted

end Invariant

def Violation.text (v : Violation) : String := "[" ++ v.invariant.name ++ "] " ++ v.message

/-- One violation for every invariant that does not hold, in order. -/
def violations (s : Snapshot) (invariants : List Invariant) : List Violation :=
  invariants.filterMap fun invariant => (invariant.check s).map (⟨invariant, ·⟩)

/-- The report on violations that end a run, named by its context. -/
def violationReport (context : String) (found : List Violation) : String :=
  "invariants violated " ++ context ++ ":\n  " ++ "\n  ".intercalate (found.map Violation.text)

end RingAgreement.Simulation
