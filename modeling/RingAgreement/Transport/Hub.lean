import RingAgreement.Transport.LineReader
import RingAgreement.Transport.Relay
/-!
A relay with its open connections. A step takes something from one connection and then brings
every connection up to date, so between the steps nothing is on its way. A relay can also serve
its connections one by one; the others then have to catch up.
-/

namespace RingAgreement

/-- The relay's side of an open connection. -/
structure Connection where
  id : Nat
  reader : LineReader
  inflow : Inflow
  position : Nat
deriving DecidableEq, Repr

structure Hub where
  relay : Relay
  connections : List Connection
deriving DecidableEq, Repr

namespace Hub

/-- How the relay's side of a connection ends. -/
abbrev Ending := Except TransportFault Unit

/-- What a step leads to: the lines for each connection that gets some, and the connections that
end. -/
structure Traffic where
  received : List (Nat × List String)
  ended : List (Nat × Ending)

def Traffic.none : Traffic := ⟨[], []⟩

def new (limits : Limits) : Hub := ⟨.new limits, []⟩

/-- Brings the connections up to date. -/
def flush (h : Hub) : List (Nat × List String) × Hub :=
  let received := h.connections.map fun c => (c.id, h.relay.linesFor c.id c.position)
  (received.filter (!·.2.isEmpty),
    { h with connections := h.connections.map ({ · with position := h.relay.channel.tip }) })

/-- Opens a connection, which receives the lines of the run so far. -/
def connect (h : Hub) : Relay.Admission × Hub :=
  let (admission, relay) := h.relay.join
  let connection : Connection :=
    ⟨admission.id, .new relay.limits.maxLineBytes, .empty, admission.position⟩
  (admission, ⟨relay, h.connections ++ [connection]⟩)

/-- Opens a connection as a step. -/
def connectLive (h : Hub) : Traffic × Hub :=
  let (admission, h) := h.connect
  let received := if admission.backlog.isEmpty then [] else [(admission.id, admission.backlog)]
  (⟨received, []⟩, h)

/-- Removes a connection. -/
def drop (h : Hub) (id : Nat) : Hub :=
  ⟨h.relay.leave, h.connections.filter (·.id ≠ id)⟩

/-- Takes what a connection's reader finds. -/
def take (h : Hub) (c : Connection) : List (Nat × Ending) × Hub :=
  let intake := c.reader.readAll c.inflow
  let published : Hub := { h with relay := intake.lines.foldl (Relay.publish c.id) h.relay }
  match intake.pause with
  | .waiting =>
    let after := { c with reader := intake.reader, inflow := intake.rest }
    ([], { published with
      connections := h.connections.map fun other => if other.id = c.id then after else other })
  | .ended => ([(c.id, .ok ())], published.drop c.id)
  | .failed fault => ([(c.id, .error fault)], published.drop c.id)

/-- Changes what has arrived on a connection and lets the relay see to it. Nothing happens to a
connection that is not open. -/
def arrive (h : Hub) (id : Nat) (change : Inflow → Inflow) : Traffic × Hub :=
  match h.connections.find? (·.id = id) with
  | none => (.none, h)
  | some c =>
    let (ended, h) := h.take { c with inflow := change c.inflow }
    let (received, h) := h.flush
    (⟨received, ended⟩, h)

/-- Bytes from the other side of a connection. -/
def write (h : Hub) (id : Nat) (bytes : List UInt8) : Traffic × Hub := h.arrive id (.push bytes)

/-- The line of an envelope from the other side of a connection. -/
def sendEnvelope (h : Hub) (id : Nat) (e : Envelope) : Traffic × Hub :=
  match e.toLine with
  | .ok line => h.write id (Text.utf8 line)
  | .error _ => (.none, h)

/-- The other side of a connection closes it. -/
def close (h : Hub) (id : Nat) : Traffic × Hub := h.arrive id .close

/-- Changes what has arrived on a connection. -/
def put (h : Hub) (id : Nat) (change : Inflow → Inflow) : Hub :=
  { h with connections := h.connections.map fun c =>
      if c.id = id then { c with inflow := change c.inflow } else c }

/-- Brings one connection up to date, and puts it behind the others. -/
def fetch (h : Hub) (id : Nat) : List String × Hub :=
  match h.connections.find? (·.id = id) with
  | none => ([], h)
  | some c =>
    (h.relay.linesFor id c.position,
      { h with connections :=
          h.connections.filter (·.id ≠ id) ++ [{ c with position := h.relay.channel.tip }] })

/-- Serves one connection: takes what has arrived on it and gives the lines for it. -/
def serve (h : Hub) (id : Nat) : List String × Hub :=
  match h.connections.find? (·.id = id) with
  | none => ([], h)
  | some c => (h.take c).2.fetch id

def isOpen (h : Hub) (id : Nat) : Bool := h.connections.any (·.id = id)

/-- Whether nothing has arrived on a connection and it has caught up. -/
def isQuiet (h : Hub) (id : Nat) : Bool :=
  (h.connections.find? (·.id = id)).all fun c =>
    c.inflow.pieces.isEmpty && !c.inflow.closed && c.position = h.relay.channel.tip

/-- Breaks all connections off. None of them leaves, so the run goes on. -/
def sever (h : Hub) : Hub := { h with connections := [] }

end Hub

end RingAgreement
