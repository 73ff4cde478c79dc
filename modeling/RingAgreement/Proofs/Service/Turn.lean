import RingAgreement.Proofs.Service.Writing
import RingAgreement.Service.Station
/-!
What a turn of a station needs and what it leads to. A turn that comes from the station itself needs
an item to work on, and room for what it makes of it.
-/

namespace RingAgreement

namespace Link

/-- A link that reads has nothing in hand, and goes on where it was. -/
theorem read?_eq_some {l : Link} {result : Option Link} (read : l.read? = some result) :
    l.held = none ∧ ∀ next, result = some next →
      next.ring = l.ring ∧ next.connection = l.connection ∧ next.outbox = l.outbox := by
  unfold read? at read
  split at read
  · cases read
  next empty =>
    refine ⟨Option.not_isSome_iff_eq_none.1 empty, fun next same => ?_⟩
    subst same
    split at read
    · cases read
      exact ⟨rfl, rfl, rfl⟩
    · split at read
      · cases read
      · cases read
        exact ⟨rfl, rfl, rfl⟩
    · cases read

theorem write?_eq_some {l : Link} {result : Except WireError (String × Link)}
    (write : l.write? = some result) :
    l.held = none ∧ ∃ e rest, l.outbox = e :: rest ∧
      result = e.toLine.map fun line => (line, { l with outbox := rest }) := by
  unfold write? at write
  split at write
  next e rest free standing =>
    cases write
    exact ⟨free, e, rest, standing, rfl⟩
  next => cases write

end Link

namespace Duty

/-- The envelope that a duty puts into the outbox of a level. -/
def mail? (level : Level) : Duty → Option Envelope
  | act (.send other e) => if other = level then some e else none
  | act _ => none
  | submit message => if level = .cluster then some message else none

/-- The message that a duty puts into the inbox of the owner. -/
def delivery? : Duty → Option (UInt32 × List UInt8)
  | act (.deliver sender plaintext) => some (sender, plaintext)
  | _ => none

end Duty

namespace Station

variable {ρ : Type}

theorem room_pos (s : Station ρ) : 0 < s.room := s.limits.queueRoom_pos

/-! ## Links -/

section

variable (s : Station ρ) {level other : Level} {link : Option Link}

theorem link?_withLink : (s.withLink level link).link? level = link := by cases level <;> rfl

theorem link?_withLink_of_ne (apart : level ≠ other) :
    (s.withLink level link).link? other = s.link? other := by
  cases level <;> cases other <;> first | rfl | exact absurd rfl apart

theorem withLink_self {s : Station ρ} (here : s.link? level = link) :
    s.withLink level link = s := by
  subst here
  cases level <;> rfl

end

/-! ## The node -/

/-- The events that the node has still to take. -/
def pending (s : Station ρ) : List NodeEvent := (if s.fresh then [.start] else []) ++ s.waiting

theorem nextEvent?_eq_some {s next : Station ρ} {event : NodeEvent}
    (found : s.nextEvent? = some (event, next)) :
    s.pending = event :: next.pending ∧ ∃ fresh waiting, next = { s with fresh, waiting } ∧
      waiting.length ≤ s.waiting.length := by
  unfold nextEvent? at found
  unfold pending
  split at found
  next fresh =>
    cases found
    rw [fresh]
    exact ⟨rfl, _, _, rfl, Nat.le_refl _⟩
  next event' rest fresh standing =>
    cases found
    rw [fresh, standing]
    exact ⟨rfl, _, _, rfl, Nat.le_succ _⟩
  next => cases found

/-- What seeing to a duty does to a station. -/
theorem carryOut_eq (s : Station ρ) (duty : Duty) :
    ∃ status, s.carryOut duty =
      { s with
        status
        clusterLink := s.clusterLink.map fun k =>
          { k with outbox := k.outbox ++ (duty.mail? .cluster).toList }
        leaderLink := s.leaderLink.map fun k =>
          { k with outbox := k.outbox ++ (duty.mail? .leader).toList }
        inbox := s.inbox ++ duty.delivery?.toList
        answers := s.answers ++ duty.message?.toList.map fun _ => .ok () } := by
  cases duty with
  | submit message =>
    exact ⟨s.status, by simp [carryOut, post, withLink, link?, Duty.mail?, Duty.delivery?,
      Duty.message?]⟩
  | act action =>
    refine ⟨(s.record action).status, ?_⟩
    cases action with
    | send level e =>
      cases level <;>
        simp [carryOut, record, post, withLink, link?, Duty.mail?, Duty.delivery?, Duty.message?]
    | _ => simp [carryOut, record, Duty.mail?, Duty.delivery?, Duty.message?]

theorem link?_carryOut (s : Station ρ) (duty : Duty) (level : Level) :
    (s.carryOut duty).link? level = (s.link? level).map fun k =>
      { k with outbox := k.outbox ++ (duty.mail? level).toList } := by
  obtain ⟨status, made⟩ := s.carryOut_eq duty
  rw [made]
  cases level <;> rfl

/-- A duty has room if what it puts somewhere has. -/
theorem admits_iff (s : Station ρ) (duty : Duty) :
    s.admits duty = true ↔ (∀ level, duty.mail? level ≠ none → s.canPost level = true) ∧
      (duty.delivery? ≠ none → s.inbox.length < s.room) := by
  cases duty with
  | submit message => simp [admits, Duty.mail?, Duty.delivery?]
  | act action =>
    cases action with
    | send level e => simp [admits, Duty.mail?, Duty.delivery?]
    | _ => simp [admits, Duty.mail?, Duty.delivery?]

section

variable [RandomSource ρ]

/-- What handing an event to the node does to a station. -/
theorem handle_eq (K : Kem) (s : Station ρ) (event : NodeEvent) :
    ∃ status, s.handle K event =
      ((s.node.handle K event s.source).actions,
        { s with
          node := (s.node.handle K event s.source).node
          source := (s.node.handle K event s.source).source
          status }) := by
  unfold handle
  generalize s.node.handle K event s.source = outcome
  obtain ⟨result, node, source⟩ := outcome
  cases result with
  | ok actions => exact ⟨s.status, rfl⟩
  | error error =>
    dsimp only
    split
    · exact ⟨s.status.fail error, rfl⟩
    · exact ⟨s.status, rfl⟩

theorem sealMessage_of_known {s : Station ρ} {key : ClusterKey}
    (known : s.node.clusterKey = some key) (plaintext : List UInt8) :
    s.sealMessage plaintext =
      (.ok ((Payload.appMessage (.make key s.node.clusterIndex plaintext
          (RandomSource.draw 24 s.source).1)).toEnvelope s.node.clusterIndex .everyone),
        { s with source := (RandomSource.draw 24 s.source).2 }) := by
  unfold sealMessage Node.sealMessage
  rw [known]
  rfl

theorem sealMessage_of_unknown {s : Station ρ} (unknown : s.node.clusterKey = none)
    (plaintext : List UInt8) :
    s.sealMessage plaintext = (.error (.session .noKeyAvailable), s) := by
  unfold sealMessage Node.sealMessage
  rw [unknown]
  rfl

end

/-! ## Turns -/

/-- What a turn with something to do needs, and what it leads to. A link is lost at the end of its
stream, at a line that it cannot read, and over an envelope that is too long. A call is refused as
long as there is no key. -/
inductive Makes (K : Kem) [RandomSource ρ] (s : Station ρ) :
    Turn → Station ρ → Option Emission → Prop where
  | call (plaintext : List UInt8) :
      Makes K s (.call plaintext) { s with callers := s.callers ++ [plaintext] } none
  | take {message : UInt32 × List UInt8} {rest : List (UInt32 × List UInt8)}
      (standing : s.inbox = message :: rest) : Makes K s .take { s with inbox := rest } none
  | arrive (level : Level) (bytes : List UInt8) :
      Makes K s (.arrive level bytes) (s.arrive level (.push bytes)) none
  | finish (level : Level) : Makes K s (.finish level) (s.arrive level .close) none
  | enter {plaintext : List UInt8} {rest : List (List UInt8)}
      (standing : s.callers = plaintext :: rest) (room : s.commands.length < s.room) :
      Makes K s .enter { s with callers := rest, commands := s.commands ++ [plaintext] } none
  | read {level : Level} {link next : Link} (here : s.link? level = some link)
      (free : link.held = none) (looked : link.read? = some (some next)) :
      Makes K s (.read level) (s.withLink level (some next)) none
  | lose {level : Level} {link : Link} (here : s.link? level = some link)
      (free : link.held = none) (looked : link.read? = some none) :
      Makes K s (.read level) (s.withLink level none)
        (some ⟨link.ring, link.connection, .close⟩)
  | pass {level : Level} {link : Link} {e : Envelope} (here : s.link? level = some link)
      (held : link.held = some e) (room : s.waiting.length < s.room) :
      Makes K s (.pass level)
        { s.withLink level (some { link with held := none }) with
          waiting := s.waiting ++ [.received level e] } none
  | write {level : Level} {link : Link} {e : Envelope} {rest : List Envelope} {line : String}
      (here : s.link? level = some link) (free : link.held = none)
      (standing : link.outbox = e :: rest) (fit : e.toLine = .ok line) :
      Makes K s (.write level) (s.withLink level (some { link with outbox := rest }))
        (some ⟨link.ring, link.connection, .line line⟩)
  | overflow {level : Level} {link : Link} {e : Envelope} {rest : List Envelope}
      (here : s.link? level = some link) (free : link.held = none)
      (standing : link.outbox = e :: rest) (long : Envelope.maxLineSize < e.lineSize) :
      Makes K s (.write level) (s.withLink level none)
        (some ⟨link.ring, link.connection, .close⟩)
  | event {event : NodeEvent} {fresh : Bool} {waiting : List NodeEvent} (status : KeyStatus)
      (idle : s.duties = []) (found : s.nextEvent? = some (event, { s with fresh, waiting })) :
      Makes K s .event
        { s with
          fresh, waiting, status
          node := (s.node.handle K event s.source).node
          source := (s.node.handle K event s.source).source
          duties := (s.node.handle K event s.source).actions.map .act } none
  | accept {plaintext : List UInt8} {rest : List (List UInt8)} {e : Envelope} {key : ClusterKey}
      {nonce : Bytes 24} {source : ρ} (idle : s.duties = [])
      (standing : s.commands = plaintext :: rest) (known : s.node.clusterKey = some key)
      (made : e = (Payload.appMessage (.make key s.node.clusterIndex plaintext nonce)).toEnvelope
        s.node.clusterIndex .everyone)
      (sealed : (s.sealMessage plaintext).1 = .ok e) :
      Makes K s .accept { s with commands := rest, source, duties := [.submit e] } none
  | refuse {plaintext : List UInt8} {rest : List (List UInt8)} (idle : s.duties = [])
      (standing : s.commands = plaintext :: rest) (unknown : s.node.clusterKey = none)
      (refused : (s.sealMessage plaintext).1 = .error (.session .noKeyAvailable)) :
      Makes K s .accept
        { s with
          commands := rest
          answers := s.answers ++ [.error (.session .noKeyAvailable)] } none
  | duty {duty : Duty} {rest : List Duty} (standing : s.duties = duty :: rest)
      (admitted : s.admits duty = true) :
      Makes K s .duty ({ s with duties := rest }.carryOut duty) none

def Turn.called : Turn → List (List UInt8)
  | .call plaintext => [plaintext]
  | _ => []

/-- The station after a turn. Where there is nothing to do or no room, it stays as it is. -/
def turn (K : Kem) [RandomSource ρ] (s : Station ρ) (t : Turn) : Station ρ :=
  ((s.turn? K t).map (·.1)).getD s

variable {K : Kem} [RandomSource ρ] {s after : Station ρ} {emission : Option Emission}

theorem makes_of_read? {level : Level} (read : s.read? level = some (after, emission)) :
    s.Makes K (.read level) after emission := by
  obtain ⟨link, here, read⟩ := Option.bind_eq_some_iff.1 read
  obtain ⟨result, looked, made⟩ := Option.map_eq_some_iff.1 read
  have free := (Link.read?_eq_some looked).1
  cases result with
  | some next =>
    cases made
    exact .read here free looked
  | none =>
    cases made
    exact .lose here free looked

theorem makes_of_pass? {level : Level} (pass : s.pass? level = some after) :
    s.Makes K (.pass level) after none := by
  obtain ⟨link, here, pass⟩ := Option.bind_eq_some_iff.1 pass
  obtain ⟨e, held, made⟩ := Option.bind_eq_some_iff.1 pass
  dsimp only at made
  split at made
  next room =>
    cases made
    exact .pass here held room
  next => cases made

theorem makes_of_write? {level : Level} (write : s.write? level = some (after, emission)) :
    s.Makes K (.write level) after emission := by
  obtain ⟨link, here, write⟩ := Option.bind_eq_some_iff.1 write
  obtain ⟨result, written, made⟩ := Option.map_eq_some_iff.1 write
  obtain ⟨free, e, rest, standing, rfl⟩ := Link.write?_eq_some written
  cases fit : e.toLine with
  | ok line =>
    rw [fit] at made
    cases made
    exact .write here free standing fit
  | error error =>
    rw [fit] at made
    cases made
    rw [Envelope.toLine_eq] at fit
    split at fit
    · cases fit
    next long => exact .overflow here free standing (Nat.not_le.1 long)

theorem makes_of_event? (taken : s.event? K = some after) : s.Makes K .event after none := by
  unfold event? at taken
  split at taken
  next idle =>
    obtain ⟨⟨event, next⟩, found, made⟩ := Option.map_eq_some_iff.1 taken
    obtain ⟨-, fresh, waiting, rfl, -⟩ := nextEvent?_eq_some found
    obtain ⟨status, handled⟩ := handle_eq K { s with fresh, waiting } event
    dsimp only at made
    rw [handled] at made
    cases made
    exact .event status (List.isEmpty_iff.1 idle) found
  next => cases taken

theorem makes_of_accept? (taken : s.accept? = some after) : s.Makes K .accept after none := by
  unfold accept? at taken
  split at taken
  next plaintext rest _ idle standing =>
    cases known : s.node.clusterKey with
    | some key =>
      rw [sealMessage_of_known (s := { s with commands := rest }) known] at taken
      cases taken
      exact .accept idle standing known rfl (by rw [sealMessage_of_known known])
    | none =>
      rw [sealMessage_of_unknown (s := { s with commands := rest }) known] at taken
      cases taken
      exact .refuse idle standing known (by rw [sealMessage_of_unknown known])
  next => cases taken

theorem makes_of_take? (took : s.take? = some after) : s.Makes K .take after none := by
  unfold take? at took
  split at took
  · cases took
  next standing =>
    cases took
    exact .take standing

theorem makes_of_enter? (entered : s.enter? = some after) : s.Makes K .enter after none := by
  unfold enter? at entered
  split at entered
  · cases entered
  next standing =>
    split at entered
    next room =>
      cases entered
      exact .enter standing room
    next => cases entered

theorem makes_of_duty? (seen : s.duty? = some after) : s.Makes K .duty after none := by
  unfold duty? at seen
  split at seen
  · cases seen
  next standing =>
    split at seen
    next admitted =>
      cases seen
      exact .duty standing admitted
    next => cases seen

/-- A turn that does nothing at the relay's end of a connection. -/
theorem makes_of_silent {t : Turn} {x : Option (Station ρ)}
    (makes : ∀ {after}, x = some after → s.Makes K t after none)
    (made : x.map (·, none) = some (after, emission)) : s.Makes K t after emission := by
  obtain ⟨_, found, same⟩ := Option.map_eq_some_iff.1 made
  cases same
  exact makes found

/-- A turn that has something to do is one of these. -/
theorem makes_of_turn? {t : Turn} (made : s.turn? K t = some (after, emission)) :
    s.Makes K t after emission := by
  cases t with
  | call plaintext =>
    cases made
    exact .call plaintext
  | arrive level bytes =>
    cases made
    exact .arrive level bytes
  | finish level =>
    cases made
    exact .finish level
  | read level => exact makes_of_read? made
  | write level => exact makes_of_write? made
  | take => exact makes_of_silent makes_of_take? made
  | enter => exact makes_of_silent makes_of_enter? made
  | pass level => exact makes_of_silent makes_of_pass? made
  | event => exact makes_of_silent makes_of_event? made
  | accept => exact makes_of_silent makes_of_accept? made
  | duty => exact makes_of_silent makes_of_duty? made

/-! A call with nothing in its way. -/

theorem exists_turn?_accept {plaintext : List UInt8} {rest : List (List UInt8)} {key : ClusterKey}
    (started : s.fresh = false) (idle : s.duties = []) (standing : s.commands = plaintext :: rest)
    (known : s.node.clusterKey = some key) :
    ∃ nonce source e,
      e = (Payload.appMessage (.make key s.node.clusterIndex plaintext nonce)).toEnvelope
        s.node.clusterIndex .everyone ∧
      s.sealMessage plaintext = (.ok e, { s with source }) ∧
      s.turn? K .accept =
        some ({ s with commands := rest, source, duties := [.submit e] }, none) := by
  have sealed := sealMessage_of_known (s := { s with commands := rest }) known plaintext
  refine ⟨_, _, _, rfl, sealMessage_of_known known plaintext, ?_⟩
  refine (congrArg (Option.map (·, none)) (?_ : s.accept? = some _)).trans rfl
  unfold accept?
  split
  next same =>
    obtain ⟨rfl, rfl⟩ := List.cons.inj (standing.symm.trans same)
    rw [sealed]
  next other => exact absurd standing (other plaintext rest started idle)

end Station

end RingAgreement
