import RingAgreement.Simulation.Packet
/-!
A bench on which sessions or nodes run under full control of the medium between them: their
packets wait in a queue, from which commands deliver, repeat, copy, drop, delay or alter them.
-/

namespace RingAgreement.Simulation

/-- How a group of machines in a state `σ`, whose actions are in `α`, connects to the bench. -/
structure Machines (σ α : Type) where
  count : σ → Nat
  handle : σ → Nat → NodeEvent → Except SessionError (List α) × σ
  sealMessage : σ → Nat → List UInt8 → Except SessionError Envelope × σ
  /-- The level and envelope that an action sends. -/
  sent? : α → Option (Level × Envelope)
  hearers : σ → Packet → List (Nat × Level)

/-- What a machine did about an event. -/
inductive Report (α : Type) where
  | acted (machine : Nat) (actions : List α)
  | failed (machine : Nat) (error : SessionError)

/-- A packet of the queue: by its number, counted around the queue, or the first that fits. -/
inductive Pick where
  | number (n : Nat)
  | first (filter : Filter)

/-- Fields of an envelope to replace. -/
structure Edit where
  sender : Option UInt32
  recipient : Option Recipient
  kind : Option MessageKind
  content : Option (List UInt8)

def Edit.apply (edit : Edit) (e : Envelope) : Envelope :=
  ⟨edit.sender.getD e.sender, edit.recipient.getD e.recipient, edit.kind.getD e.kind,
    edit.content.getD e.content⟩

inductive Command where
  | start (machine : Nat)
  | startAll
  | run (max : Nat)
  | inject (machine : Nat) (level : Level) (envelope : Envelope)
  | sealText (machine : Nat) (plaintext : List UInt8)
  | deliver (pick : Pick)
  | duplicate (pick : Pick)
  | copyTo (pick : Pick) (machine : Nat) (level : Option Level)
  | drop (pick : Pick)
  | defer (pick : Pick)
  | corrupt (pick : Pick) (position : Nat) (mask : UInt8)
  | edit (pick : Pick) (change : Edit)

/-- What a command has to tell beside the reports. -/
inductive Note where
  | delivered (count : Nat)
  | noPacket
  | sealed (envelope : Except SessionError Envelope)

/-- The machines, the waiting packets and the reports of the current command. -/
structure Bench (σ α : Type) where
  machines : σ
  queue : List Packet
  reports : List (Report α)

namespace Bench

variable {σ α : Type} (m : Machines σ α) (b : Bench σ α)

/-- Hands an event to one machine; what it sends goes to the end of the queue. -/
def hand (machine : Nat) (event : NodeEvent) : Bench σ α :=
  let (result, machines) := m.handle b.machines machine event
  match result with
  | .error e => { b with machines, reports := b.reports ++ [.failed machine e] }
  | .ok actions =>
    let packets := (actions.filterMap m.sent?).map fun s => ⟨machine, s.1, s.2⟩
    let reports := if actions.isEmpty then [] else [Report.acted machine actions]
    { machines, queue := b.queue ++ packets, reports := b.reports ++ reports }

/-- Hands a packet to all who hear it. -/
def deliverPacket (p : Packet) : Bench σ α :=
  (m.hearers b.machines p).foldl
    (fun b hearer => b.hand m hearer.1 (.received hearer.2 p.envelope)) b

/-- Delivers packets from the front of the queue, at most so many, and counts them. -/
def runFor : Nat → Bench σ α → Bench σ α × Nat
  | 0, b => (b, 0)
  | max + 1, b =>
    match b.queue with
    | [] => (b, 0)
    | p :: rest =>
      let (b, count) := runFor max (deliverPacket m { b with queue := rest } p)
      (b, count + 1)

/-- The number in the queue and the packet that a pick means. -/
def find? : Pick → Option (Nat × Packet)
  | .number n => do
    let i := n % b.queue.length
    return (i, ← b.queue[i]?)
  | .first filter => do
    let i ← b.queue.findIdx? filter.matches
    return (i, ← b.queue[i]?)

/-- Does something with the picked packet, if there is one. -/
def withPacket (pick : Pick) (act : Nat → Packet → Bench σ α) : Bench σ α × Option Note :=
  match b.find? pick with
  | some (i, p) => (act i p, none)
  | none => (b, some .noPacket)

def without (i : Nat) : Bench σ α := { b with queue := b.queue.eraseIdx i }

def append (p : Packet) : Bench σ α := { b with queue := b.queue ++ [p] }

def replace (i : Nat) (p : Packet) : Bench σ α := { b with queue := b.queue.set i p }

/-- Carries out a command. -/
def apply (command : Command) : Bench σ α × Option Note :=
  match command with
  | .start machine => (b.hand m machine .start, none)
  | .startAll =>
    ((List.range (m.count b.machines)).foldl (fun b machine => b.hand m machine .start) b, none)
  | .run max =>
    let (b, count) := runFor m max b
    (b, some (.delivered count))
  | .inject machine level e => (b.hand m machine (.received level e), none)
  | .sealText machine plaintext =>
    let (result, machines) := m.sealMessage b.machines machine plaintext
    let packets := match result with
      | .ok e => [⟨machine, .cluster, e⟩]
      | .error _ => []
    ({ b with machines, queue := b.queue ++ packets }, some (.sealed result))
  | .deliver pick => b.withPacket pick fun i p => (b.without i).deliverPacket m p
  | .duplicate pick => b.withPacket pick fun i p => ((b.without i).deliverPacket m p).append p
  | .copyTo pick machine level => b.withPacket pick fun _ p =>
    b.hand m machine (.received (level.getD p.level) p.envelope)
  | .drop pick => b.withPacket pick fun i _ => b.without i
  | .defer pick => b.withPacket pick fun i p => (b.without i).append p
  | .corrupt pick position mask => b.withPacket pick fun i p => b.replace i (p.corrupted position mask)
  | .edit pick change => b.withPacket pick fun i p =>
    b.replace i { p with envelope := change.apply p.envelope }

end Bench

/-! ## Machines for the bench -/

variable (K : Kem) {ρ : Type} [RandomSource ρ]

/-- Sessions of one ring, each with its own source of randomness. Everybody hears everybody. -/
def sessionMachines : Machines (List (Session × ρ)) SessionAction where
  count sessions := sessions.length
  handle sessions i event :=
    match sessions[i]? with
    | none => (.ok [], sessions)
    | some (session, source) =>
      let event := match event with
        | .start => SessionEvent.start
        | .received _ e => .received e
      let outcome := session.handle K event source
      (outcome.result, sessions.set i (outcome.session, outcome.source))
  sealMessage sessions _ _ := (.error .noKeyAvailable, sessions)
  sent?
    | .send e => some (.cluster, e)
    | .established _ => none
  hearers sessions p :=
    ((List.range sessions.length).filter (· ≠ p.origin)).map fun i => (i, .cluster)

/-- Nodes with their sources of randomness, in a topology of rings. -/
def nodeMachines (topology : Topology) : Machines (List (Node × ρ)) NodeAction where
  count nodes := nodes.length
  handle nodes i event :=
    match nodes[i]? with
    | none => (.ok [], nodes)
    | some (node, source) =>
      let outcome := node.handle K event source
      (outcome.result, nodes.set i (outcome.node, outcome.source))
  sealMessage nodes i plaintext :=
    match nodes[i]? with
    | none => (.error .noKeyAvailable, nodes)
    | some (node, source) =>
      let (result, source) := node.sealMessage plaintext source
      (result, nodes.set i (node, source))
  sent?
    | .send level e => some (level, e)
    | _ => none
  hearers _ p := topology.hearers p.origin p.level

end RingAgreement.Simulation
