import RingAgreement.Proofs.Medium.Steady
import RingAgreement.Proofs.Node.Mail
import RingAgreement.Proofs.Node.Relay
/-!
A board in the middle of a cluster. What a node sends stands in its outbox until it is published, in
the order of sending, and everything that is published stands on the board in one sequence. Each
node reads what the others have published, from the beginning and at its own pace.
-/

namespace RingAgreement

/-- The role at a position of a cluster that has a leader, or of one without. -/
def Role.within {n : Nat} (leader : Option (Fin n)) (i : Fin n) : Role :=
  match leader with
  | none => .standalone
  | some l => if i = l then .leader else .member

/-- The envelope for the cluster that an action sends. -/
def NodeAction.clusterMail? : NodeAction → Option Envelope
  | .send .cluster e => some e
  | _ => none

/-- What a node sends to its cluster. -/
def NodeOutcome.mail {ρ : Type} (outcome : NodeOutcome ρ) : List Envelope :=
  outcome.actions.filterMap (·.clusterMail?)

theorem NodeOutcome.mem_mail {ρ : Type} {outcome : NodeOutcome ρ} {e : Envelope} :
    e ∈ outcome.mail ↔ .send .cluster e ∈ outcome.actions := by
  rw [mail, List.mem_filterMap]
  constructor
  · rintro ⟨action, member, shown⟩
    unfold NodeAction.clusterMail? at shown
    split at shown
    · obtain rfl := Option.some.inj shown
      exact member
    · cases shown
  · exact fun member => ⟨_, member, rfl⟩

/-- An envelope for the board. One with an application message comes with the key and the plaintext
that the message was made from. -/
structure Notice where
  envelope : Envelope
  secret : Option (ClusterKey × List UInt8)

/-- The nodes of a cluster, what each of them has sent and not yet published, the published notices
with their authors, and how many of them each node has read. -/
structure Board (n : Nat) (ρ : Type) where
  node : Fin n → Node
  source : Fin n → ρ
  outbox : Fin n → List Notice
  log : List (Fin n × Notice)
  cursor : Fin n → Nat

namespace Board

/-- What can happen next: a node is started, meets with something in the ring of the leaders, seals
a message, publishes its first notice, or comes to the next one on the board. -/
inductive Move (n : Nat) where
  | start (i : Fin n)
  | aside (i : Fin n) (e : Envelope)
  | say (i : Fin n) (plaintext : List UInt8)
  | publish (i : Fin n)
  | read (i : Fin n)

variable {n : Nat} {ρ : Type}

def start (node : Fin n → Node) (source : Fin n → ρ) : Board n ρ :=
  ⟨node, source, fun _ => [], [], fun _ => 0⟩

section

variable (b : Board n ρ)

/-- The notice that a node comes to next, with its author. -/
def next (i : Fin n) : Option (Fin n × Notice) := b.log[b.cursor i]?

/-- Puts notices into the outbox of a node. -/
def send (i : Fin n) (notices : List Notice) : Board n ρ :=
  { b with outbox := Function.update b.outbox i (b.outbox i ++ notices) }

def publish (i : Fin n) : Board n ρ :=
  match b.outbox i with
  | [] => b
  | m :: rest => { b with outbox := Function.update b.outbox i rest, log := b.log ++ [(i, m)] }

def advance (i : Fin n) : Board n ρ :=
  { b with cursor := Function.update b.cursor i (b.cursor i + 1) }

end

variable (K : Kem) [RandomSource ρ] (b : Board n ρ)

def outcome (i : Fin n) (event : NodeEvent) : NodeOutcome ρ :=
  (b.node i).handle K event (b.source i)

/-- An event for one node: what the node sends to its cluster goes into its outbox. -/
def hand (i : Fin n) (event : NodeEvent) : Board n ρ :=
  { b with
    node := Function.update b.node i (b.outcome K i event).node
    source := Function.update b.source i (b.outcome K i event).source
    outbox := Function.update b.outbox i
      (b.outbox i ++ (b.outcome K i event).mail.map fun e => ⟨e, none⟩) }

/-- A node seals a message, if it has a key. -/
def say (i : Fin n) (plaintext : List UInt8) : Board n ρ :=
  let (result, source) := (b.node i).sealMessage plaintext (b.source i)
  let b := { b with source := Function.update b.source i source }
  match result with
  | .ok e => b.send i [⟨e, (b.node i).clusterKey.map (·, plaintext)⟩]
  | .error _ => b

/-- A node comes to the next notice. It is handed it unless the notice is its own. -/
def read (i : Fin n) : Board n ρ :=
  match b.next i with
  | none => b
  | some (author, m) =>
    if author = i then b.advance i else (b.hand K i (.received .cluster m.envelope)).advance i

def play : Move n → Board n ρ
  | .start i => b.hand K i .start
  | .aside i e => b.hand K i (.received .leader e)
  | .say i plaintext => b.say i plaintext
  | .publish i => b.publish i
  | .read i => b.read K i

def run (moves : List (Move n)) : Board n ρ := moves.foldl (play K) b

end Board

end RingAgreement
