import RingAgreement.Node.Basic
import RingAgreement.Transport.LineReader
import RingAgreement.Transport.Relay
/-!
A node in operation: the node, its source of randomness, a link to the relay of each of its rings,
and the queues between these and the owner. Every queue takes a limited number of items, and who
finds one full waits there until it has room. So a link that has read an envelope does not go on
before the events of the node have room for it, and the node does not take the next event or call
before all that the last one has led to has found its place. A link that fails is lost; the node
goes on without it.
-/

namespace RingAgreement

/-- The owner's view of the way to the key of the cluster. -/
inductive KeyStatus where
  | pending
  | ready (key : ClusterKey)
  | failed (error : SessionError)
deriving DecidableEq, Repr

namespace KeyStatus

/-- A failure counts only while the key is pending. -/
def fail (error : SessionError) : KeyStatus → KeyStatus
  | pending => failed error
  | status => status

def key? : KeyStatus → Option ClusterKey
  | ready key => some key
  | _ => none

end KeyStatus

/-- The node's side of a connection to the relay of a ring, with an envelope that has been read and
waits for room at the node, and the envelopes that are still to be written. What is written goes to
the relay's end at once. -/
structure Link where
  ring : Nat
  connection : Nat
  reader : LineReader
  inflow : Inflow
  held : Option Envelope
  outbox : List Envelope
deriving DecidableEq, Repr

namespace Link

variable (l : Link)

/-- The bytes of lines as a relay writes them. -/
def stream (lines : List String) : List UInt8 :=
  lines.flatMap fun line => Text.utf8 line ++ [newline]

/-- The link of a new connection. The lines of the run so far arrive first. -/
def new (ring limit : Nat) (a : Relay.Admission) : Link :=
  ⟨ring, a.id, .new limit, Inflow.empty.push (stream a.backlog), none, []⟩

/-- A look at what has arrived: the link after it, or none if it is lost at the end of the stream or
at a line that cannot be read. Lines that are no envelopes are passed over. -/
def read? : Option (Option Link) :=
  if l.held.isSome then none
  else
    match l.reader.next l.inflow with
    | (.line text, reader, inflow) =>
      some (some { l with reader, inflow, held := (Envelope.ofJson text).toOption })
    | (.paused .waiting, reader, inflow) =>
      if l.inflow.pieces.isEmpty then none else some (some { l with reader, inflow })
    | (.paused _, _, _) => some none

/-- Writes an envelope: its line, and the link after it. -/
def write? : Option (Except WireError (String × Link)) :=
  match l.held, l.outbox with
  | none, e :: rest => some (e.toLine.map fun line => (line, { l with outbox := rest }))
  | _, _ => none

/-- Whether something is on its way through the link. -/
def isBusy : Bool :=
  l.held.isSome || !l.inflow.pieces.isEmpty || l.inflow.closed || !l.outbox.isEmpty

end Link

/-- What a station does to the relay's end of a connection. -/
inductive Signal where
  | line (text : String)
  | close
deriving DecidableEq, Repr

def Signal.apply : Signal → Inflow → Inflow
  | line text => .push (Text.utf8 text)
  | close => .close

structure Emission where
  ring : Nat
  connection : Nat
  signal : Signal
deriving DecidableEq, Repr

/-- What an event or a call has led to and the node has still to see to. -/
inductive Duty where
  | act (action : NodeAction)
  | submit (message : Envelope)
deriving DecidableEq, Repr

/-- The message of the owner that a duty is about. -/
def Duty.message? : Duty → Option Envelope
  | act _ => none
  | submit message => some message

/-- What the owner knows of a message right after handing it over. -/
inductive Receipt where
  | sent
  | waiting
deriving DecidableEq, Repr

/-- What the answer to a call, if there is one, means to the owner. -/
def Receipt.ofAnswer : Option (Except ServiceError Unit) → Except ServiceError Receipt
  | some (.ok ()) => .ok sent
  | some (.error e) => .error e
  | none => .ok waiting

/-- The calls of the owner stand in the queue `commands`, and those that it has no room for wait
behind it in `callers`. The answers stand in the order of the calls. -/
structure Station (ρ : Type) where
  node : Node
  source : ρ
  limits : Limits
  fresh : Bool
  duties : List Duty
  callers : List (List UInt8)
  commands : List (List UInt8)
  answers : List (Except ServiceError Unit)
  waiting : List NodeEvent
  clusterLink : Option Link
  leaderLink : Option Link
  status : KeyStatus
  inbox : List (UInt32 × List UInt8)

namespace Station

variable {ρ : Type} (s : Station ρ)

/-- The station of a node that is about to start. -/
def new (node : Node) (source : ρ) (limits : Limits) : Station ρ :=
  ⟨node, source, limits, true, [], [], [], [], [], none, none, .pending, []⟩

/-- How many items each queue takes. -/
def room : Nat := s.limits.queueRoom

def link? : Level → Option Link
  | .cluster => s.clusterLink
  | .leader => s.leaderLink

def withLink (level : Level) (link : Option Link) : Station ρ :=
  { s with
    clusterLink := match level with
      | .cluster => link
      | .leader => s.clusterLink
    leaderLink := match level with
      | .cluster => s.leaderLink
      | .leader => link }

def links : List (Level × Link) :=
  (s.clusterLink.map (Level.cluster, ·)).toList ++ (s.leaderLink.map (Level.leader, ·)).toList

/-! ## The node -/

/-- Puts an envelope into the outbox of a level. Without a link it is lost. -/
def post (level : Level) (e : Envelope) : Station ρ :=
  s.withLink level ((s.link? level).map fun l => { l with outbox := l.outbox ++ [e] })

/-- Carries out an action of the node. -/
def record : NodeAction → Station ρ
  | .send level e => s.post level e
  | .sessionEstablished _ _ => s
  | .clusterKeyReady key => { s with status := .ready key }
  | .deliver sender plaintext => { s with inbox := s.inbox ++ [(sender, plaintext)] }
  | .distributionFailed e => { s with status := s.status.fail e }

/-- Hands an event to the node: the actions that follow from it, and the station. An error matters
to the owner only if it is fatal. -/
def handle (K : Kem) [RandomSource ρ] (event : NodeEvent) : List NodeAction × Station ρ :=
  let outcome := s.node.handle K event s.source
  let after := { s with node := outcome.node, source := outcome.source }
  match outcome.result with
  | .ok actions => (actions, after)
  | .error e => ([], if e.isFatal then { after with status := after.status.fail e } else after)

/-- The envelope of an application message. -/
def sealMessage [RandomSource ρ] (plaintext : List UInt8) :
    Except ServiceError Envelope × Station ρ :=
  let (result, source) := s.node.sealMessage plaintext s.source
  (result.mapError .session, { s with source })

/-- Whether an envelope can go out at a level. Without a link nothing holds it up. -/
def canPost (level : Level) : Bool := (s.link? level).all (·.outbox.length < s.room)

/-- Whether what a duty asks for has room. -/
def admits : Duty → Bool
  | .act (.send level _) => s.canPost level
  | .act (.deliver _ _) => s.inbox.length < s.room
  | .act _ => true
  | .submit _ => s.canPost .cluster

/-- Sees to a duty. A call is answered when its message is in the outbox. -/
def carryOut : Duty → Station ρ
  | .act action => s.record action
  | .submit message => { s.post .cluster message with answers := s.answers ++ [.ok ()] }

/-- The event that the node takes next, and the station without it. -/
def nextEvent? : Option (NodeEvent × Station ρ) :=
  match s.fresh, s.waiting with
  | true, _ => some (.start, { s with fresh := false })
  | false, event :: rest => some (event, { s with waiting := rest })
  | false, [] => none

/-- Whether the node has something to do. -/
def isBusy : Bool :=
  s.fresh || !s.duties.isEmpty || !s.callers.isEmpty || !s.commands.isEmpty || !s.waiting.isEmpty

/-! ## Turns -/

/-- What happens at a station: its owner calls or takes a message, a stream brings bytes or ends, a
caller gets into the queue, a link reads, hands over what it has read or writes, and the node takes
an event or a call or sees to a duty. -/
inductive Turn where
  | call (plaintext : List UInt8)
  | take
  | arrive (level : Level) (bytes : List UInt8)
  | finish (level : Level)
  | enter
  | read (level : Level)
  | pass (level : Level)
  | write (level : Level)
  | event
  | accept
  | duty
deriving DecidableEq, Repr

/-- The turns of the link of a level. It reads before it writes. -/
def Turn.ofLink (level : Level) : List Turn := [.read level, .pass level, .write level]

def Turn.ofNode : List Turn := [.enter, .duty, .event, .accept]

/-- The turns that do not come from outside. -/
def Turn.own : List Turn := ofLink .cluster ++ ofLink .leader ++ ofNode

def call (plaintext : List UInt8) : Station ρ := { s with callers := s.callers ++ [plaintext] }

/-- The owner takes a message. -/
def take? : Option (Station ρ) :=
  match s.inbox with
  | [] => none
  | _ :: rest => some { s with inbox := rest }

/-- Something arrives on the stream of a level. -/
def arrive (level : Level) (change : Inflow → Inflow) : Station ρ :=
  s.withLink level ((s.link? level).map fun l => { l with inflow := change l.inflow })

def enter? : Option (Station ρ) :=
  match s.callers with
  | [] => none
  | plaintext :: rest =>
    if s.commands.length < s.room then
      some { s with callers := rest, commands := s.commands ++ [plaintext] }
    else none

def read? (level : Level) : Option (Station ρ × Option Emission) :=
  (s.link? level).bind fun link => link.read?.map fun
    | some after => (s.withLink level (some after), none)
    | none => (s.withLink level none, some ⟨link.ring, link.connection, .close⟩)

/-- The envelope in the hands of a link becomes an event. -/
def pass? (level : Level) : Option (Station ρ) :=
  (s.link? level).bind fun link => link.held.bind fun e =>
    let after := s.withLink level (some { link with held := none })
    if s.waiting.length < s.room then
      some { after with waiting := s.waiting ++ [.received level e] }
    else none

/-- The link is lost at an envelope that does not fit in a line. -/
def write? (level : Level) : Option (Station ρ × Option Emission) :=
  (s.link? level).bind fun link => link.write?.map fun
    | .ok (line, after) =>
      (s.withLink level (some after), some ⟨link.ring, link.connection, .line line⟩)
    | .error _ => (s.withLink level none, some ⟨link.ring, link.connection, .close⟩)

def duty? : Option (Station ρ) :=
  match s.duties with
  | [] => none
  | duty :: rest => if s.admits duty then some ({ s with duties := rest }.carryOut duty) else none

variable [RandomSource ρ]

def event? (K : Kem) : Option (Station ρ) :=
  if s.duties.isEmpty then
    s.nextEvent?.map fun (event, s) =>
      let (actions, after) := s.handle K event
      { after with duties := actions.map .act }
  else none

/-- The node takes a call. It answers itself if the message cannot be sealed. -/
def accept? : Option (Station ρ) :=
  match s.fresh, s.duties, s.commands with
  | false, [], plaintext :: rest =>
    some <| match { s with commands := rest }.sealMessage plaintext with
      | (.ok message, after) => { after with duties := [.submit message] }
      | (.error e, after) => { after with answers := s.answers ++ [.error e] }
  | _, _, _ => none

/-- The station after a turn, with what it does at the relay's end of a connection, or none if there
is nothing to do or it has to wait. -/
def turn? (K : Kem) : Turn → Option (Station ρ × Option Emission)
  | .call plaintext => some (s.call plaintext, none)
  | .take => s.take?.map (·, none)
  | .arrive level bytes => some (s.arrive level (.push bytes), none)
  | .finish level => some (s.arrive level .close, none)
  | .enter => s.enter?.map (·, none)
  | .read level => s.read? level
  | .pass level => (s.pass? level).map (·, none)
  | .write level => s.write? level
  | .event => (s.event? K).map (·, none)
  | .accept => s.accept?.map (·, none)
  | .duty => s.duty?.map (·, none)

/-- The messages that have been sealed and do not stand in the outbox yet. -/
def submits : List Envelope := s.duties.filterMap (·.message?)

/-- How many calls there have been. -/
def calls : Nat :=
  s.answers.length + s.submits.length + s.commands.length + s.callers.length

/-- Hands over an application message and lets the node see to it, if nothing is in its way. -/
def send (plaintext : List UInt8) : Except ServiceError Receipt × Station ρ :=
  let called := s.call plaintext
  let entered := called.enter?.getD called
  let accepted := entered.accept?.getD entered
  let after := accepted.duty?.getD accepted
  (Receipt.ofAnswer after.answers[s.calls]?, after)

end Station

end RingAgreement
