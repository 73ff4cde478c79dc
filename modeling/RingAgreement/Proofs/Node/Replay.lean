import RingAgreement.Proofs.Node.Relay
import RingAgreement.Proofs.Node.Seat
import RingAgreement.Proofs.Session.Replay
/-!
Messages that come to a node again. Once a node has taken a message without an error, the message
adds nothing when it comes again, at whatever time. Only a member that still lacks its cluster key
goes back from a later wrapped key to an earlier one, and an application message may be delivered
once more.
-/

namespace RingAgreement

namespace Node

variable {K : Kem} {node : Node} {ρ : Type} {level : Level} {e : Envelope}

/-- The one that a message is for has come to a bad end: the session in its ring or, for a wrapped
key, the distributor. -/
inductive Ended (node : Node) (level : Level) (e : Envelope) : Prop
  | session {s : Session} (kind : e.kind ≠ .wrappedKey ∧ e.kind ≠ .appMessage)
      (here : node.session? level = some s) (aborted : s.state = .aborted) : Ended node level e
  | distributor {sender : UInt32} (kind : e.kind = .wrappedKey)
      (admitted : node.clusterSender level e = .ok (some sender))
      (aborted : node.distributor.aborted = true) : Ended node level e

/-- A wrapped key for a member that still lacks the key of its cluster. -/
structure Early (node : Node) (level : Level) (e : Envelope) : Prop where
  kind : e.kind = .wrappedKey
  admitted : ∃ sender, node.clusterSender level e = .ok (some sender)
  member : node.role = .member
  keyless : node.distributor.clusterKey = none

/-- What can come of a message that was taken before, with some actions. -/
inductive Replayed (node : Node) (level : Level) (e : Envelope) (actions : List NodeAction)
    (source : ρ) : NodeOutcome ρ → Prop
  | refused (ended : node.Ended level e) :
      Replayed node level e actions source ⟨.error .aborted, node, source⟩
  | passed (going : ¬ node.Ended level e) (timely : ¬ node.Early level e) :
      Replayed node level e actions source ⟨.ok [], node, source⟩
  | buffered {wrapped : WrappedKey} (going : ¬ node.Ended level e) (early : node.Early level e)
      (decoded : Payload.ofEnvelope e = .ok (.wrappedKey wrapped)) :
      Replayed node level e actions source
        ⟨.ok [], { node with distributor.pending := some wrapped }, source⟩
  | delivered {sender : UInt32} {plaintext : List UInt8} (going : ¬ node.Ended level e)
      (kind : e.kind = .appMessage) (same : actions = [.deliver sender plaintext]) :
      Replayed node level e actions source ⟨.ok actions, node, source⟩

theorem Ended.state_of_ring {s : Session} (ended : node.Ended level e)
    (kind : e.kind ≠ .wrappedKey ∧ e.kind ≠ .appMessage) (here : node.session? level = some s) :
    s.state = .aborted := by
  cases ended with
  | session _ found aborted =>
    obtain rfl := Option.some.inj (here.symm.trans found)
    exact aborted
  | distributor wrapped => exact absurd wrapped kind.1

theorem Ended.wrapped_of_aside (ended : node.Ended level e)
    (kind : e.kind = .wrappedKey ∨ e.kind = .appMessage) :
    e.kind = .wrappedKey ∧ node.distributor.aborted = true ∧
      ∃ sender, node.clusterSender level e = .ok (some sender) := by
  cases ended with
  | session ring => exact absurd kind (not_or.2 ring)
  | distributor wrapped admitted aborted => exact ⟨wrapped, aborted, _, admitted⟩

theorem clusterSender_of_sameParty {later : Node} (member : node.cluster.SameParty later.cluster) :
    later.clusterSender level e = node.clusterSender level e := by
  obtain ⟨state, progress, same⟩ := member
  rw [clusterSender, clusterSender, clusterIndex, clusterIndex, same]
  rfl

section Receive

variable [RandomSource ρ] {s : Session} {source : ρ}

theorem Replayed.of_ring (kind : e.kind ≠ .wrappedKey ∧ e.kind ≠ .appMessage)
    (here : node.session? level = some s) (past : s.Past e) (actions : List NodeAction)
    (source : ρ) : node.Replayed level e actions source (node.receive K level e source) := by
  rw [receive_of_ring_kind here kind]
  by_cases aborted : s.state = .aborted
  · rw [handleSession_of_refused (s.handle_aborted K aborted _ _) here]
    exact .refused (.session kind here aborted)
  · have ignores := past.resolve_left aborted
    rw [handleSession_of_passed (ignores.handle_eq aborted source) here]
    exact .passed (fun ended => aborted (ended.state_of_ring kind here))
      fun early => kind.1 early.kind

theorem Replayed.of_unconcerned (kind : e.kind = .wrappedKey ∨ e.kind = .appMessage)
    (unconcerned : node.clusterSender level e = .ok none) (actions : List NodeAction)
    (source : ρ) : node.Replayed level e actions source (node.receive K level e source) := by
  rw [receive_of_cluster_kind kind, receiveClusterPayload, unconcerned]
  have foreign : ∀ sender, node.clusterSender level e ≠ .ok (some sender) := by
    intro sender admitted
    rw [unconcerned] at admitted
    cases admitted
  refine .passed (fun ended => ?_) fun early => ?_
  · obtain ⟨_, _, sender, admitted⟩ := ended.wrapped_of_aside kind
    exact foreign sender admitted
  · obtain ⟨sender, admitted⟩ := early.admitted
    exact foreign sender admitted

variable {role : Role} {calls : List DistributorCall}

/-- A wrapped key comes again. Only a member that has its cluster key and neither an effective key
nor given up would open it, and after the first time none is left in that state. -/
theorem Replayed.of_wrapped {sender : UInt32} {wrapped : WrappedKey} (kind : e.kind = .wrappedKey)
    (admitted : node.clusterSender level e = .ok (some sender))
    (decoded : Payload.ofEnvelope e = .ok (.wrappedKey wrapped))
    (follows : Distributor.Follows role calls node.distributor)
    (came : .received wrapped ∈ calls) (actions : List NodeAction) (source : ρ) :
    node.Replayed level e actions source (node.receive K level e source) := by
  rw [receive_of_cluster_kind (.inl kind), receiveClusterPayload, admitted]
  simp only [decoded, receiveWrapped]
  by_cases aborted : node.distributor.aborted = true
  · rw [Distributor.receiveWrapped, if_pos aborted]
    exact .refused (.distributor kind admitted aborted)
  have going : ¬ node.Ended level e := fun ended => aborted (ended.wrapped_of_aside (.inl kind)).2.1
  have received := node.distributor.receiveWrapped_cases wrapped
  generalize node.distributor.receiveWrapped wrapped = outcome at received
  cases received with
  | ended gone => exact absurd gone aborted
  | unneeded needless =>
    refine .passed going fun early => ?_
    have unset := follows.coherent.unset_of_member early.member early.keyless
    rcases needless with other | installed
    · exact other early.member
    · rw [unset] at installed
      cases installed
  | buffered member keyless =>
    exact .buffered going ⟨kind, ⟨sender, admitted⟩, member, keyless⟩ decoded
  | supplied member alive unset keyed =>
    rcases follows.over_of_received (follows.role_eq.symm.trans member) keyed came with
      gone | installed
    · exact absurd gone aborted
    · rw [unset] at installed
      cases installed

theorem Replayed.of_application {sender : UInt32} {message : SealedMessage} {key : ClusterKey}
    {plaintext : List UInt8} (kind : e.kind = .appMessage)
    (admitted : node.clusterSender level e = .ok (some sender))
    (decoded : Payload.ofEnvelope e = .ok (.appMessage message))
    (installed : node.clusterKey = some key) (opened : message.openWith key sender = .ok plaintext)
    (source : ρ) :
    node.Replayed level e [.deliver sender plaintext] source (node.receive K level e source) := by
  rw [receive_of_cluster_kind (.inr kind), receiveClusterPayload, admitted]
  simp only [decoded, openMessage, installed, opened]
  refine .delivered (fun ended => ?_) kind rfl
  have wrapped := (ended.wrapped_of_aside (.inr kind)).1
  rw [kind] at wrapped
  cases wrapped

/-! ## Messages that were taken -/

/-- How a node takes a message that is not part of a ring's run, with the actions and the node that
come of it. -/
inductive TakenAside (node : Node) (level : Level) (e : Envelope) :
    List NodeAction → Node → Prop
  | unconcerned (unconcerned : node.clusterSender level e = .ok none) :
      TakenAside node level e [] node
  | wrapped {sender : UInt32} {wrapped : WrappedKey} {actions : List NodeAction}
      (kind : e.kind = .wrappedKey) (admitted : node.clusterSender level e = .ok (some sender))
      (decoded : Payload.ofEnvelope e = .ok (.wrappedKey wrapped)) :
      TakenAside node level e actions (node.told [.received wrapped])
  | application {sender : UInt32} {message : SealedMessage} {key : ClusterKey}
      {plaintext : List UInt8} (kind : e.kind = .appMessage)
      (admitted : node.clusterSender level e = .ok (some sender))
      (decoded : Payload.ofEnvelope e = .ok (.appMessage message))
      (installed : node.clusterKey = some key)
      (opened : message.openWith key sender = .ok plaintext) :
      TakenAside node level e [.deliver sender plaintext] node

theorem openMessage_success {sender : UInt32} {message : SealedMessage} {actions : List NodeAction}
    (ok : node.openMessage sender message = .ok actions) :
    ∃ key plaintext, node.clusterKey = some key ∧ message.openWith key sender = .ok plaintext ∧
      actions = [.deliver sender plaintext] := by
  rw [openMessage] at ok
  split at ok
  next => cases ok
  next key installed =>
    split at ok
    next plaintext opened => exact ⟨key, plaintext, installed, opened, (Except.ok.inj ok).symm⟩
    next => cases ok

theorem takenAside_of_ok {actions : List NodeAction}
    (ok : (node.receiveClusterPayload level e).1 = .ok actions) :
    node.TakenAside level e actions (node.receiveClusterPayload level e).2 := by
  generalize taken : node.receiveClusterPayload level e = outcome at ok
  rw [receiveClusterPayload] at taken
  split at taken
  next =>
    subst taken
    cases ok
  next unconcerned =>
    subst taken
    obtain rfl := Except.ok.inj ok
    exact .unconcerned unconcerned
  next sender admitted =>
    split at taken
    next =>
      subst taken
      cases ok
    next wrapped decoded =>
      subst taken
      have kind : MessageKind.wrappedKey = e.kind := Payload.kind_of_ofEnvelope decoded
      exact .wrapped kind.symm admitted decoded
    next message decoded =>
      subst taken
      have kind : MessageKind.appMessage = e.kind := Payload.kind_of_ofEnvelope decoded
      obtain ⟨key, plaintext, installed, opened, rfl⟩ := openMessage_success ok
      exact .application kind.symm admitted decoded installed opened
    next =>
      subst taken
      cases ok

theorem session_ok_of_handleSession {event : SessionEvent} {actions : List NodeAction}
    (ok : (node.handleSession K level s event source).result = .ok actions) :
    ∃ actions, (s.handle K event source).result = .ok actions := by
  rw [handleSession] at ok
  cases ended : (s.handle K event source).result with
  | ok actions => exact ⟨actions, rfl⟩
  | error => simp [ended] at ok

theorem Unfolds.clusterSender_eq {later : Node} (unfolds : node.Unfolds K ρ later) (level : Level)
    (e : Envelope) : later.clusterSender level e = node.clusterSender level e := by
  obtain ⟨inputs, reached⟩ := unfolds.session .cluster
  have same : later.cluster = node.cluster.after K inputs := Option.some.inj reached
  refine clusterSender_of_sameParty ?_
  rw [same]
  exact node.cluster.sameParty_after K inputs

variable {actions : List NodeAction} {later : Node}

theorem Unfolds.follows (unfolds : node.Unfolds K ρ later)
    (follows : Distributor.Follows role calls node.distributor) :
    ∃ more, Distributor.Follows role (calls ++ more) later.distributor := by
  obtain ⟨more, reached⟩ := unfolds.distributor
  rw [reached]
  exact ⟨more, follows.after more⟩

/-- A message that is not part of a ring's run comes again. -/
theorem TakenAside.replayed {first : Node} (taken : node.TakenAside level e actions first)
    (kind : e.kind = .wrappedKey ∨ e.kind = .appMessage)
    (follows : Distributor.Follows role calls node.distributor)
    (unfolds : first.Unfolds K ρ later) (source : ρ) :
    later.Replayed level e actions source (later.receive K level e source) := by
  have sender := unfolds.clusterSender_eq level e
  cases taken with
  | unconcerned unconcerned => exact .of_unconcerned kind (sender.trans unconcerned) _ source
  | @wrapped _ wrapped _ wraps admitted decoded =>
    -- The distributor was told about the wrapped key, so with a cluster key it has decided.
    obtain ⟨more, reached⟩ := unfolds.follows (follows.take (.received wrapped))
    have came : .received wrapped ∈ calls ++ [.received wrapped] ++ more := by simp
    exact .of_wrapped wraps (sender.trans admitted) decoded reached came _ source
  | @application _ _ key _ applies admitted decoded installed opened =>
    obtain ⟨more, reached⟩ := unfolds.distributor
    have still : later.clusterKey = some key := by
      rw [clusterKey, reached]
      exact follows.effective_after installed more
    exact .of_application applies (sender.trans admitted) decoded still opened source

theorem replayed_of_aside (follows : Distributor.Follows role calls node.distributor)
    (kind : e.kind = .wrappedKey ∨ e.kind = .appMessage)
    (taken : (node.receive K level e source).result = .ok actions)
    (unfolds : (node.receive K level e source).node.Unfolds K ρ later) (source' : ρ) :
    later.Replayed level e actions source' (later.receive K level e source') := by
  rw [receive_of_cluster_kind kind] at taken unfolds
  exact (takenAside_of_ok taken).replayed kind follows unfolds source'

/-- A message of a ring's run comes again. -/
theorem Coherent.replayed_of_ring {heard : WrappedKey → Prop} (coherent : node.Coherent K heard)
    (kind : e.kind ≠ .wrappedKey ∧ e.kind ≠ .appMessage)
    (taken : (node.receive K level e source).result = .ok actions)
    (unfolds : (node.receive K level e source).node.Unfolds K ρ later) (source' : ρ) :
    later.Replayed level e actions source' (later.receive K level e source') := by
  cases here : node.session? level with
  | none =>
    rw [receive_of_absent here kind] at taken
    cases taken
  | some s =>
    rw [receive_of_ring_kind here kind] at taken unfolds
    have sound := coherent.session level s here
    obtain ⟨answer, ok⟩ := session_ok_of_handleSession taken
    obtain ⟨inputs, reached⟩ := unfolds.session level
    rw [handleSession_node, session?_told, session?_withSession, Function.update_self] at reached
    refine .of_ring kind reached ?_ actions source'
    exact (sound.handle (.received e) source).past_after (sound.past_of_ok ok) inputs

/-- A message that a node has taken without an error adds nothing when it comes again on the same
level, whatever has happened to the node in between. It is refused when the one that it is for has
come to a bad end. Otherwise there is no error, and nothing is drawn; the node stays as it is, but
that a member without a cluster key goes back to the wrapped key of the message; and there is no
action, but that an application message may be delivered as it was. -/
theorem taken_message_adds_nothing (K : Kem) (layout : NodeLayout) (secretKey : SecretKey)
    (node : Node) (made : make layout secretKey = .ok node) (inputs : List (NodeEvent × ρ))
    (level : Level) (e : Envelope) (source : ρ) (actions : List NodeAction)
    (taken : ((node.after K inputs).handle K (.received level e) source).result = .ok actions)
    (later : List (NodeEvent × ρ)) (source' : ρ) :
    let first := (node.after K inputs).handle K (.received level e) source
    let reached := first.node.after K later
    reached.Replayed level e actions source' (reached.handle K (.received level e) source') := by
  intro first reached
  have unfolds : first.node.Unfolds K ρ reached := unfolds_after first.node later
  by_cases kind : e.kind = .wrappedKey ∨ e.kind = .appMessage
  · have initially : Distributor.Follows layout.role [] node.distributor := by
      obtain ⟨leader, _, _, rfl⟩ := make_success made
      exact Distributor.initial_follows layout.role
    obtain ⟨calls, follows⟩ := (node.unfolds_after (K := K) inputs).follows initially
    exact replayed_of_aside follows kind taken unfolds source'
  · have coherent : (node.after K inputs).Coherent K fun _ => True :=
      ((make_coherent made).1.after inputs fun _ _ _ _ => trivial).1
    exact coherent.replayed_of_ring (not_or.1 kind) taken unfolds source'

end Receive

end Node

namespace HonestRing.trio

/-- The first of three seats, to which the second party writes. -/
def first : Fin trio.roster.size := ⟨0, by decide⟩

def layout (role : Role) : NodeLayout := ⟨trio.roster, first, none, role⟩

/-- A payload that the second party sends to its cluster. -/
def broadcast (payload : Payload) : Envelope := payload.toEnvelope 1 .everyone

theorem clusterSender_broadcast (role : Role) (payload : Payload) :
    (trio.seat role first).clusterSender .cluster (broadcast payload) = .ok (some 1) := rfl

/-- A new member that may have been sent a wrapped key. -/
def waiting (pending : Option WrappedKey) : Node :=
  { trio.seat .member first with distributor.pending := pending }

theorem make_member : Node.make (layout .member) (trio.pair first).secretKey = .ok (waiting none) :=
  trio.make_seat (by simp) first

/-- As long as the cluster key is missing, a wrapped key takes the place of the one before. -/
theorem receive_wrapped (pending : Option WrappedKey) (wrapped : WrappedKey)
    (source : DrawCounter) :
    (waiting pending).handle .transparent (.received .cluster (broadcast (.wrappedKey wrapped)))
      source = ⟨.ok [], waiting (some wrapped), source⟩ := by
  have decoded : Payload.ofEnvelope (broadcast (.wrappedKey wrapped)) = .ok (.wrappedKey wrapped) :=
    Payload.ofEnvelope_toEnvelope (p := .wrappedKey wrapped) trivial 1 .everyone
  have admitted : (waiting pending).clusterSender .cluster (broadcast (.wrappedKey wrapped)) =
      .ok (some 1) := clusterSender_broadcast .member (.wrappedKey wrapped)
  rw [Node.handle, Node.receive_of_cluster_kind (.inl rfl), Node.receiveClusterPayload, admitted]
  simp only [decoded]
  rfl

/-- A wrapped key, and another one that the same party sends after it. -/
def early : WrappedKey := ⟨.zero 32, .zero 32⟩

def late : WrappedKey := ⟨.replicate 32 1, .zero 32⟩

theorem early_ne_late : early ≠ late := by decide

/-- The member has the later one when the earlier one comes again and takes its place. -/
theorem wrapped_adds_nothing :
    let node := waiting none
    let inputs : List (NodeEvent × DrawCounter) := []
    let source : DrawCounter := ⟨0⟩
    let e := broadcast (.wrappedKey early)
    let taken := (node.after .transparent inputs).handle .transparent (.received .cluster e) source
    let later := [(NodeEvent.received .cluster (broadcast (.wrappedKey late)), source)]
    let reached := taken.node.after .transparent later
    let again := reached.handle .transparent (.received .cluster e) source
    Node.make (layout .member) (trio.pair first).secretKey = .ok node ∧ taken.result = .ok [] ∧
      reached = waiting (some late) ∧ again = ⟨.ok [], waiting (some early), source⟩ ∧
      reached.Early .cluster e ∧ reached.Replayed .cluster e [] source again := by
  intro node inputs source e taken later reached again
  have ok : taken.result = .ok [] := congrArg (·.result) (receive_wrapped none early source)
  have held : reached = waiting (some late) := by
    simp only [reached, later, taken, inputs, node, e, Node.after, receive_wrapped]
  have replaced : again = ⟨.ok [], waiting (some early), source⟩ := by
    simp only [again, held]
    exact receive_wrapped (some late) early source
  have overtaken : reached.Early .cluster e := by
    rw [held]
    exact ⟨rfl, ⟨1, clusterSender_broadcast .member _⟩, rfl, rfl⟩
  exact ⟨make_member, ok, held, replaced, overtaken, Node.taken_message_adds_nothing .transparent _ _
    node make_member inputs .cluster e source [] ok later source⟩

/-- A node that has its cluster key delivers what the second party has sealed. -/
theorem receive_sealed {inputs : List (NodeEvent × DrawCounter)} {key : ClusterKey}
    (installed : ((trio.seat .standalone first).after .transparent inputs).clusterKey = some key)
    (plaintext : List UInt8) (nonce : Bytes 24) (source : DrawCounter) :
    let reached := (trio.seat .standalone first).after .transparent inputs
    let e := broadcast (.appMessage (.make key 1 plaintext nonce))
    reached.handle .transparent (.received .cluster e) source =
      ⟨.ok [.deliver 1 plaintext], reached, source⟩ := by
  intro reached e
  have admitted : reached.clusterSender .cluster e = .ok (some 1) :=
    ((Node.unfolds_after _ inputs).clusterSender_eq .cluster e).trans
      (clusterSender_broadcast .standalone _)
  exact Node.handle_sealed installed plaintext nonce source admitted

/-- Taken messages can show when they come again, though nothing has failed. An application message
is delivered once more, and a wrapped key takes the place of a later one. -/
theorem taken_messages_show_again :
    (∃ (layout : NodeLayout) (secretKey : SecretKey) (node : Node)
      (inputs : List (NodeEvent × DrawCounter)) (e : Envelope) (source : DrawCounter),
      Node.make layout secretKey = .ok node ∧
      let reached := node.after .transparent inputs
      let taken := reached.handle .transparent (.received .cluster e) source
      let again := taken.node.handle .transparent (.received .cluster e) source
      e.kind = .appMessage ∧
      ∃ action, taken.result = .ok [action] ∧ again.result = .ok [action]) ∧
    ∃ (layout : NodeLayout) (secretKey : SecretKey) (node : Node) (e other : Envelope)
      (source : DrawCounter), Node.make layout secretKey = .ok node ∧
      let taken := node.handle .transparent (.received .cluster e) source
      let reached := taken.node.after .transparent [(.received .cluster other, source)]
      let again := reached.handle .transparent (.received .cluster e) source
      e.kind = .wrappedKey ∧ taken.result = .ok [] ∧ again.result = .ok [] ∧
      again.node ≠ reached := by
  let source : DrawCounter := ⟨0⟩
  constructor
  · have made : Node.make (layout .standalone) (trio.pair first).secretKey =
        .ok (trio.seat .standalone first) := trio.make_seat (by simp) first
    obtain ⟨inputs, key, installed⟩ :=
      trio.exists_keyed Kem.transparent_correct first fun _ => source
    have delivered := receive_sealed installed [104, 105] default source
    let e := broadcast (.appMessage (.make key 1 [104, 105] default))
    refine ⟨_, _, _, inputs, e, source, made, ?_⟩
    dsimp only [e] at delivered ⊢
    rw [delivered]
    dsimp only
    rw [delivered]
    exact ⟨rfl, _, rfl, rfl⟩
  · refine ⟨_, _, _, broadcast (.wrappedKey early), broadcast (.wrappedKey late), source,
      make_member, ?_⟩
    simp only [receive_wrapped, Node.after]
    refine ⟨rfl, trivial, trivial, fun same => ?_⟩
    have kept : some early = some late := congrArg (·.distributor.pending) same
    exact early_ne_late (Option.some.inj kept)

end HonestRing.trio

end RingAgreement
