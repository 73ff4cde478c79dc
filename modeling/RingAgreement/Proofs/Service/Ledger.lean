import RingAgreement.Proofs.Node.Mail
import RingAgreement.Proofs.Service.Turn
/-!
What becomes of the calls of a station's owner, and of what its links bring, over any turns in any
order. A call is taken by the node, its message goes into the outbox of the cluster, and from there
it is written, all in the order of the calls; any of these steps can be held up by a queue that is
full. A message that does not fit in a line is answered like the others and costs the connection.
-/

namespace RingAgreement

/-- Envelopes that carry application messages. -/
def Envelope.messages (es : List Envelope) : List Envelope := es.filter (·.kind = .appMessage)

theorem Envelope.messages_append (es more : List Envelope) :
    messages (es ++ more) = messages es ++ messages more := List.filter_append ..

theorem Envelope.messages_single {e : Envelope} (message : e.kind = .appMessage) :
    messages [e] = [e] := List.filter_cons_of_pos (decide_eq_true message)

theorem Envelope.Routine.messages {e : Envelope} (routine : e.Routine) : messages [e] = [] := by
  obtain ⟨kind, sender, recipient⟩ := routine
  exact List.filter_cons_of_neg fun message => kind (of_decide_eq_true message)

def Emission.line? (e : Emission) : Option String :=
  match e.signal with
  | .line text => some text
  | .close => none

namespace NodeEvent

def isFrom (level : Level) : NodeEvent → Bool
  | received other _ => other = level
  | start => false

end NodeEvent

namespace Station

variable {ρ : Type}

/-- What a link has read and not handed over yet, as an event. -/
def inHand (s : Station ρ) (level : Level) : List NodeEvent :=
  ((s.link? level).bind (·.held)).toList.map (.received level)

/-- A station with a record of what it has done. -/
structure Ledger (ρ : Type) where
  station : Station ρ
  /-- The calls that the node has taken, with the envelope or the refusal. -/
  taken : List (List UInt8 × Except ServiceError Envelope)
  /-- What has been put into the outbox of the cluster, as long as there was a link. -/
  posted : List Envelope
  /-- The lines that the link of the cluster has written. -/
  lines : List String
  /-- What the links have read. -/
  heard : List NodeEvent
  /-- What the links have handed over to the node. -/
  passed : List NodeEvent
  /-- The events that the node has taken. -/
  handled : List NodeEvent
  /-- Whether the stream of the cluster has ended or brought something that cannot be read. -/
  unreadable : Bool

namespace Ledger

def start (s : Station ρ) : Ledger ρ := ⟨s, [], [], [], [], [], [], false⟩

/-- The envelopes of the calls that were not refused. -/
def accepted (l : Ledger ρ) : List Envelope := l.taken.filterMap (·.2.toOption)

section

variable [RandomSource ρ]

/-- Writes down what a turn has led to. -/
def note (l : Ledger ρ) (after : Station ρ) (emission : Option Emission) : Turn → Ledger ρ
  | .accept => { l with
      station := after
      taken := l.taken ++
        l.station.commands.head?.toList.map fun p => (p, (l.station.sealMessage p).1) }
  | .duty => { l with
      station := after
      posted := l.posted ++ if l.station.clusterLink.isSome
        then (l.station.duties.head?.bind (·.mail? .cluster)).toList else [] }
  | .write .cluster => { l with
      station := after
      lines := l.lines ++ (emission.bind (·.line?)).toList }
  | .read level => { l with
      station := after
      heard := l.heard ++ after.inHand level
      unreadable := l.unreadable || (level = .cluster && after.clusterLink.isNone) }
  | .pass level => { l with station := after, passed := l.passed ++ l.station.inHand level }
  | .event => { l with
      station := after
      handled := l.handled ++ (l.station.nextEvent?.map (·.1)).toList }
  | _ => { l with station := after }

def step (K : Kem) (l : Ledger ρ) (t : Turn) : Ledger ρ :=
  match l.station.turn? K t with
  | none => l
  | some (after, emission) => l.note after emission t

def run (K : Kem) (l : Ledger ρ) (turns : List Turn) : Ledger ρ := turns.foldl (step K) l

variable (K : Kem)

/-- What every turn keeps, a run keeps. -/
theorem run_induction {P : Ledger ρ → Prop} (kept : ∀ l t, P l → P (l.step K t)) {l : Ledger ρ}
    (first : P l) (turns : List Turn) : P (l.run K turns) := by
  induction turns generalizing l with
  | nil => exact first
  | cons t rest ih => exact ih (kept l t first)

end

/-! ## The books -/

/-- The duties of a node: one message of its owner, or actions, of which every envelope fits in a
line. -/
def Orderly (duties : List Duty) : Prop :=
  (∃ message, duties = [.submit message] ∧ message.kind = .appMessage) ∨
    ∃ actions : List NodeAction, duties = actions.map .act ∧
      ∀ level e, .send level e ∈ actions → e.Routine

/-- The books of a station that has been taken over at `s`, with its link to the cluster. What was
posted stands in the lines and in the outbox, in its order. If the link is gone, then over something
that it could not read, or over an application message that is too long. -/
structure Kept (s : Station ρ) (link : Link) (l : Ledger ρ) : Prop where
  seated : l.station.node.clusterIndex = s.node.clusterIndex
  sealed : ∀ plaintext e, (plaintext, .ok e) ∈ l.taken → ∃ key nonce,
    l.station.node.clusterKey = some key ∧
      e = (Payload.appMessage (.make key s.node.clusterIndex plaintext nonce)).toEnvelope
        s.node.clusterIndex .everyone
  refused : ∀ plaintext error, (plaintext, .error error) ∈ l.taken →
    error = .session .noKeyAvailable
  answered : l.station.answers ++ l.station.submits.map (fun _ => .ok ()) =
    s.answers ++ l.taken.map fun m => m.2.map fun _ => ()
  duties : Orderly l.station.duties
  origin : ∀ e ∈ l.posted, e.kind = .appMessage ∨ e.Routine
  messages : Envelope.messages l.posted <+: l.accepted
  linked : ∀ after, l.station.clusterLink = some after →
    (after.ring = link.ring ∧ after.connection = link.connection) ∧
      Envelope.messages l.posted ++ l.station.submits = l.accepted ∧
      ∃ done, l.posted = done ++ after.outbox ∧ done.map Envelope.toLine = l.lines.map .ok
  lost : l.station.clusterLink = none → l.unreadable = true ∨
    ∃ front e rest, l.posted = front ++ e :: rest ∧ e.kind = .appMessage ∧
      front.map Envelope.toLine = l.lines.map .ok ∧ Envelope.maxLineSize < e.lineSize

variable {s : Station ρ} {link : Link} {l l' : Ledger ρ}

theorem Kept.start (idle : s.duties = []) (linked : s.clusterLink = some link)
    (empty : link.outbox = []) : Kept s link (.start s) where
  seated := rfl
  sealed _ _ member := absurd member List.not_mem_nil
  refused _ _ member := absurd member List.not_mem_nil
  answered := by
    change s.answers ++ s.submits.map _ = _
    rw [submits, idle]
    rfl
  duties := .inr ⟨[], idle, fun _ _ member => absurd member List.not_mem_nil⟩
  origin _ member := absurd member List.not_mem_nil
  messages := List.nil_prefix
  linked after there := by
    obtain rfl := Option.some.inj (linked.symm.trans there)
    refine ⟨⟨rfl, rfl⟩, ?_, [], empty.symm, rfl⟩
    change [] ++ s.submits = []
    rw [submits, idle]
    rfl
  lost gone := by
    rw [Ledger.start, linked] at gone
    cases gone

/-- A turn that leaves the node, its duties and the outbox of the cluster alone. -/
theorem Kept.frame (kept : l.Kept s link) (node : l'.station.node = l.station.node)
    (duties : l'.station.duties = l.station.duties)
    (answers : l'.station.answers = l.station.answers) (taken : l'.taken = l.taken)
    (posted : l'.posted = l.posted) (lines : l'.lines = l.lines)
    (unreadable : l.unreadable = true → l'.unreadable = true)
    (linked : ∀ after, l'.station.clusterLink = some after → ∃ before,
      l.station.clusterLink = some before ∧ after.ring = before.ring ∧
        after.connection = before.connection ∧ after.outbox = before.outbox)
    (lost : l'.station.clusterLink = none →
      l.station.clusterLink = none ∨ l'.unreadable = true) : l'.Kept s link := by
  have submits : l'.station.submits = l.station.submits := by rw [submits, duties, submits]
  have accepted : l'.accepted = l.accepted := congrArg (List.filterMap _) taken
  refine ⟨?_, ?_, ?_, ?_, ?_, ?_, ?_, fun after there => ?_, fun gone => ?_⟩
  · rw [node]
    exact kept.seated
  · rw [taken, node]
    exact kept.sealed
  · rw [taken]
    exact kept.refused
  · rw [answers, submits, taken]
    exact kept.answered
  · rw [duties]
    exact kept.duties
  · rw [posted]
    exact kept.origin
  · rw [posted, accepted]
    exact kept.messages
  · obtain ⟨before, here, ring, connection, outbox⟩ := linked after there
    rw [ring, connection, outbox, posted, submits, accepted, lines]
    exact kept.linked before here
  · rw [posted, lines]
    rcases lost gone with already | now
    · exact (kept.lost already).imp_left unreadable
    · exact .inl now

/-- A turn that has nothing to do with the link of the cluster either. -/
theorem Kept.aside (kept : l.Kept s link) (node : l'.station.node = l.station.node)
    (duties : l'.station.duties = l.station.duties)
    (answers : l'.station.answers = l.station.answers)
    (same : l'.station.clusterLink = l.station.clusterLink) (taken : l'.taken = l.taken)
    (posted : l'.posted = l.posted) (lines : l'.lines = l.lines)
    (unreadable : l.unreadable = true → l'.unreadable = true) : l'.Kept s link :=
  kept.frame node duties answers taken posted lines unreadable
    (fun after there => ⟨after, same ▸ there, rfl, rfl, rfl⟩) fun gone => .inl (same ▸ gone)

/-- A link that keeps its place and its outbox. -/
theorem exists_linked_of_withLink {before next after : Link} {level : Level} {t : Station ρ}
    (there : (t.withLink level (some next)).clusterLink = some after)
    (here : t.link? level = some before) (ring : next.ring = before.ring)
    (connection : next.connection = before.connection) (outbox : next.outbox = before.outbox) :
    ∃ before, t.clusterLink = some before ∧ after.ring = before.ring ∧
      after.connection = before.connection ∧ after.outbox = before.outbox := by
  cases level with
  | cluster =>
    obtain rfl := Option.some.inj there
    exact ⟨before, here, ring, connection, outbox⟩
  | leader => exact ⟨after, there, rfl, rfl, rfl⟩

theorem gone_of_withLink {next : Link} {level : Level} {t : Station ρ}
    (gone : (t.withLink level (some next)).clusterLink = none) : t.clusterLink = none := by
  cases level with
  | cluster => cases gone
  | leader => exact gone

theorem Kept.arrive (kept : l.Kept s link) (level : Level) (change : Inflow → Inflow) :
    Kept s link { l with station := l.station.arrive level change } := by
  cases here : l.station.link? level with
  | none =>
    have same : l.station.arrive level change = l.station := by
      rw [Station.arrive, here]
      exact withLink_self here
    rw [same]
    exact kept
  | some before =>
    rw [Station.arrive, here]
    exact kept.frame rfl rfl rfl rfl rfl rfl id
      (fun after there => exists_linked_of_withLink there here rfl rfl rfl)
      fun gone => .inl (gone_of_withLink gone)

/-- The link of the cluster writes an envelope. -/
theorem Kept.write (kept : l.Kept s link) {before : Link} {e : Envelope} {rest : List Envelope}
    {line : String} (here : l.station.clusterLink = some before)
    (standing : before.outbox = e :: rest) (fit : e.toLine = .ok line) :
    Kept s link { l with
      station := l.station.withLink .cluster (some { before with outbox := rest })
      lines := l.lines ++ [line] } := by
  obtain ⟨place, listed, done, parts, written⟩ := kept.linked before here
  refine ⟨kept.seated, kept.sealed, kept.refused, kept.answered, kept.duties, kept.origin,
    kept.messages, fun after there => ?_, fun gone => by cases gone⟩
  obtain rfl := Option.some.inj there
  refine ⟨place, listed, done ++ [e], ?_, ?_⟩
  · rw [List.append_assoc]
    exact parts.trans (congrArg (done ++ ·) standing)
  · rw [List.map_append, List.map_append, written, List.map_singleton, List.map_singleton, fit]

/-- The link of the cluster is lost over an envelope that is too long. Only a message of the owner
can be. -/
theorem Kept.overflow (kept : l.Kept s link) {before : Link} {e : Envelope} {rest : List Envelope}
    (here : l.station.clusterLink = some before) (standing : before.outbox = e :: rest)
    (long : Envelope.maxLineSize < e.lineSize) :
    Kept s link { l with station := l.station.withLink .cluster none } := by
  obtain ⟨-, -, done, parts, written⟩ := kept.linked before here
  rw [standing] at parts
  have posted : e ∈ l.posted := by rw [parts]; simp
  have message : e.kind = .appMessage :=
    (kept.origin e posted).resolve_right fun routine => Nat.not_le.2 long routine.fits
  exact ⟨kept.seated, kept.sealed, kept.refused, kept.answered, kept.duties, kept.origin,
    kept.messages, fun after there => (by cases there),
    fun _ => .inr ⟨done, e, rest, parts, message, written, long⟩⟩

/-- A node with its duties done has no message on the way to the outbox. -/
theorem submits_of_idle {t : Station ρ} (idle : t.duties = []) : t.submits = [] := by
  rw [submits, idle]
  rfl

theorem submits_of_acts {t : Station ρ} {actions : List NodeAction}
    (acts : t.duties = actions.map .act) : t.submits = [] := by
  rw [submits, acts, List.filterMap_map]
  exact List.filterMap_eq_nil_iff.2 fun _ _ => rfl

/-- The node takes an event: new duties, and a node that keeps its place and its key. -/
theorem Kept.event [RandomSource ρ] (kept : l.Kept s link) (K : Kem) (event : NodeEvent)
    (status : KeyStatus) (fresh : Bool) (waiting handled : List NodeEvent)
    (idle : l.station.duties = []) :
    let outcome := l.station.node.handle K event l.station.source
    Kept s link { l with
      station := { l.station with
        fresh, waiting, status
        node := outcome.node
        source := outcome.source
        duties := outcome.actions.map .act }
      handled } := by
  intro outcome
  have ordinary : l.station.node.Ordinary outcome := l.station.node.ordinary_handle K event _
  have before := submits_of_idle idle
  refine ⟨ordinary.index.trans kept.seated, fun plaintext e member => ?_, kept.refused, ?_,
    .inr ⟨_, rfl, ordinary.mails⟩, kept.origin, kept.messages, fun after there => ?_, kept.lost⟩
  · obtain ⟨key, nonce, known, made⟩ := kept.sealed plaintext e member
    exact ⟨key, nonce, ordinary.keeps key known, made⟩
  · have answered := kept.answered
    rw [before] at answered
    exact (congrArg (_ ++ List.map _ ·) (submits_of_acts rfl)).trans answered
  · obtain ⟨place, listed, rest⟩ := kept.linked after there
    rw [before] at listed
    exact ⟨place, (congrArg (_ ++ ·) (submits_of_acts rfl)).trans listed, rest⟩

/-- The node takes a call, and either the message goes on its way to the outbox or the answer to the
owner. -/
theorem Kept.taken (kept : l.Kept s link) (idle : l.station.duties = []) {t : Station ρ}
    {plaintext : List UInt8} {result : Except ServiceError Envelope}
    (node : t.node = l.station.node) (clusterLink : t.clusterLink = l.station.clusterLink)
    (sealed : ∀ e, result = .ok e → ∃ key nonce, l.station.node.clusterKey = some key ∧
      e = (Payload.appMessage (.make key l.station.node.clusterIndex plaintext nonce)).toEnvelope
        l.station.node.clusterIndex .everyone)
    (refused : ∀ error, result = .error error → error = .session .noKeyAvailable)
    (duties : Orderly t.duties) (submits : t.submits = result.toOption.toList)
    (answers : t.answers ++ t.submits.map (fun _ => .ok ()) =
      l.station.answers ++ [result.map fun _ => ()]) :
    Kept s link { l with station := t, taken := l.taken ++ [(plaintext, result)] } := by
  have grown : accepted { l with station := t, taken := l.taken ++ [(plaintext, result)] } =
      l.accepted ++ result.toOption.toList := by
    rw [accepted, List.filterMap_append]
    cases result <;> rfl
  have before := submits_of_idle idle
  refine ⟨?_, fun text e member => ?_, fun text error member => ?_, ?_, duties, kept.origin, ?_,
    fun after there => ?_, fun gone => ?_⟩
  · rw [node]
    exact kept.seated
  · rw [node]
    rcases List.mem_append.1 member with old | new
    · exact kept.sealed text e old
    · obtain ⟨rfl, rfl⟩ := Prod.mk.inj (List.mem_singleton.1 new)
      rw [← kept.seated]
      exact sealed e rfl
  · rcases List.mem_append.1 member with old | new
    · exact kept.refused text error old
    · obtain ⟨rfl, rfl⟩ := Prod.mk.inj (List.mem_singleton.1 new)
      exact refused error rfl
  · have answered := kept.answered
    rw [before, List.map_nil, List.append_nil] at answered
    rw [List.map_append, ← List.append_assoc, ← answered]
    exact answers
  · rw [grown]
    exact kept.messages.trans (List.prefix_append _ _)
  · rw [clusterLink] at there
    obtain ⟨place, listed, parts⟩ := kept.linked after there
    rw [before, List.append_nil] at listed
    exact ⟨place, by rw [grown, submits, listed], parts⟩
  · rw [clusterLink] at gone
    exact kept.lost gone

theorem Orderly.head {duty : Duty} {rest : List Duty} (orderly : Orderly (duty :: rest)) :
    (∀ e, duty.mail? .cluster = some e → e.kind = .appMessage ∨ e.Routine) ∧
      Envelope.messages (duty.mail? .cluster).toList = duty.message?.toList ∧ Orderly rest := by
  rcases orderly with ⟨message, single, kind⟩ | ⟨actions, acts, routine⟩
  · obtain ⟨rfl, rfl⟩ := List.cons.inj single
    refine ⟨fun e same => .inl ?_, Envelope.messages_single kind, .inr ⟨[], rfl, by simp⟩⟩
    obtain rfl := Option.some.inj same
    exact kind
  · cases actions with
    | nil => cases acts
    | cons action actions =>
      obtain ⟨rfl, rfl⟩ := List.cons.inj acts
      have later : Orderly (actions.map .act) :=
        .inr ⟨actions, rfl, fun level e member => routine level e (List.mem_cons_of_mem _ member)⟩
      cases action with
      | send level e =>
        cases level with
        | cluster =>
          have fits := routine .cluster e List.mem_cons_self
          refine ⟨fun e' same => .inr ?_, fits.messages, later⟩
          obtain rfl := Option.some.inj same
          exact fits
        | leader => exact ⟨fun _ same => (by cases same), rfl, later⟩
      | _ => exact ⟨fun _ same => (by cases same), rfl, later⟩

/-- The node sees to a duty. -/
theorem Kept.duty (kept : l.Kept s link) {duty : Duty} {rest : List Duty}
    (standing : l.station.duties = duty :: rest) :
    Kept s link { l with
      station := { l.station with duties := rest }.carryOut duty
      posted := l.posted ++
        if l.station.clusterLink.isSome then (duty.mail? .cluster).toList else [] } := by
  obtain ⟨status, made⟩ := carryOut_eq { l.station with duties := rest } duty
  obtain ⟨origin, messages, orderly⟩ := Orderly.head (standing ▸ kept.duties)
  have before : l.station.submits = duty.message?.toList ++ rest.filterMap (·.message?) := by
    rw [submits, standing]
    cases duty <;> rfl
  have answered := kept.answered
  rw [before, List.map_append, ← List.append_assoc] at answered
  rw [made]
  cases here : l.station.clusterLink with
  | none =>
    rw [Option.isSome_none, if_neg Bool.false_ne_true, List.append_nil]
    exact ⟨kept.seated, kept.sealed, kept.refused, answered, orderly, kept.origin, kept.messages,
      fun after there => (by cases there), fun _ => kept.lost here⟩
  | some old =>
    obtain ⟨place, listed, done, parts, written⟩ := kept.linked old here
    rw [before, ← List.append_assoc, ← messages, ← Envelope.messages_append] at listed
    rw [Option.isSome_some, if_pos rfl]
    refine ⟨kept.seated, kept.sealed, kept.refused, answered, orderly, fun e member => ?_,
      ⟨_, listed⟩, fun after there => ?_, fun gone => (by cases gone)⟩
    · rcases List.mem_append.1 member with old | new
      · exact kept.origin e old
      · exact origin e (Option.mem_toList.1 new)
    · obtain rfl := Option.some.inj there
      exact ⟨place, listed, done, by rw [parts, List.append_assoc], written⟩

variable [RandomSource ρ] (K : Kem)

theorem Kept.step (kept : l.Kept s link) (t : Turn) : (l.step K t).Kept s link := by
  unfold Ledger.step
  split
  · exact kept
  next after emission happened =>
    cases makes_of_turn? happened with
    | call => exact kept.aside rfl rfl rfl rfl rfl rfl rfl id
    | take => exact kept.aside rfl rfl rfl rfl rfl rfl rfl id
    | arrive level bytes => exact kept.arrive level _
    | finish level => exact kept.arrive level _
    | enter => exact kept.aside rfl rfl rfl rfl rfl rfl rfl id
    | read here free looked =>
      obtain ⟨ring, connection, outbox⟩ := (Link.read?_eq_some looked).2 _ rfl
      exact kept.frame rfl rfl rfl rfl rfl rfl (Bool.or_eq_true_iff.2 <| .inl ·)
        (fun after there => exists_linked_of_withLink there here ring connection outbox)
        fun gone => .inl (gone_of_withLink gone)
    | @lose level =>
      cases level with
      | cluster =>
        exact kept.frame rfl rfl rfl rfl rfl rfl (Bool.or_eq_true_iff.2 <| .inl ·)
          (fun after there => (by cases there)) fun _ => .inr (Bool.or_true _)
      | leader => exact kept.aside rfl rfl rfl rfl rfl rfl rfl (Bool.or_eq_true_iff.2 <| .inl ·)
    | pass here =>
      exact kept.frame rfl rfl rfl rfl rfl rfl id
        (fun after there => exists_linked_of_withLink there here rfl rfl rfl)
        fun gone => .inl (gone_of_withLink gone)
    | @write level link e rest line here free standing fit =>
      cases level with
      | cluster => exact kept.write here standing fit
      | leader => exact kept.aside rfl rfl rfl rfl rfl rfl rfl id
    | @overflow level link e rest here free standing long =>
      cases level with
      | cluster =>
        have lost := kept.overflow here standing long
        rw [← List.append_nil l.lines] at lost
        exact lost
      | leader => exact kept.aside rfl rfl rfl rfl rfl rfl rfl id
    | event status idle found => exact kept.event K _ status _ _ _ idle
    | @accept plaintext rest e key nonce source idle standing known made sealed =>
      have message : e.kind = .appMessage := congrArg Envelope.kind made
      rw [note, standing, List.head?_cons, Option.toList_some, List.map_singleton, sealed]
      refine kept.taken idle rfl rfl (fun e same => ?_) (fun error same => (by cases same))
        (.inl ⟨e, rfl, message⟩) rfl rfl
      obtain rfl := Except.ok.inj same
      exact ⟨key, nonce, known, made⟩
    | refuse idle standing unknown refused =>
      have silent := submits_of_idle idle
      rw [note, standing, List.head?_cons, Option.toList_some, List.map_singleton, refused]
      refine kept.taken idle rfl rfl (fun e same => (by cases same))
        (fun error same => (Except.error.inj same).symm) kept.duties silent ?_
      exact (congrArg (_ ++ List.map _ ·) silent).trans (List.append_nil _)
    | duty standing admitted =>
      have seen := kept.duty standing
      rw [note, standing]
      exact seen

theorem Kept.run (kept : l.Kept s link) (turns : List Turn) : (l.run K turns).Kept s link :=
  run_induction K (fun _ t kept => kept.step K t) kept turns

end Ledger

end Station

end RingAgreement
