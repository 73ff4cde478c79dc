import RingAgreement.Ring.GroupKey
import RingAgreement.Session.Roster
import RingAgreement.Wire.Payload
/-!
One party's run of the ring protocol, as a state that takes events. A party opens a handshake with
its right neighbour and answers its left one; with both neighbour keys it broadcasts a committed
share; with the shares of all parties it checks that they cancel out and that every commitment
opens, and derives the group key.
-/

namespace RingAgreement

inductive SessionEvent where
  | start
  | received (envelope : Envelope)
deriving DecidableEq, Repr

inductive SessionAction where
  | send (envelope : Envelope)
  | established (key : GroupKey)
deriving DecidableEq, Repr

/-- What a party of a ring of `n` has reached. -/
structure Progress (n : Nat) where
  keyLeft : Option SharedSecret
  keyRight : Option SharedSecret
  transcript : Option Handshake.Transcript
  initiated : Bool
  contributions : Vector (Option Contribution) n
  groupKey : Option GroupKey
deriving DecidableEq

def Progress.initial (n : Nat) : Progress n :=
  ⟨none, none, none, false, Vector.replicate n none, none⟩

structure Session where
  roster : Roster
  own : Fin roster.size
  secretKey : SecretKey
  state : SessionState
  progress : Progress roster.size
deriving DecidableEq

/-- What an event leads to: actions or an error, the session after it and what is left of the
source of randomness. An error leaves a session too. -/
structure SessionOutcome (ρ : Type) where
  result : Except SessionError (List SessionAction)
  session : Session
  source : ρ

namespace Session

/-- The session of the party at a position. -/
def make (roster : Roster) (own : Nat) (secretKey : SecretKey) : Except SessionError Session :=
  if h : own < roster.size then
    .ok ⟨roster, ⟨own, h⟩, secretKey, .init, .initial roster.size⟩
  else .error (.invalidRoster (.indexOutside roster.name own roster.size))

variable (s : Session)

def groupKey : Option GroupKey := s.progress.groupKey

def isEstablished : Bool := s.state = .established

/-- The own position as it stands in envelopes. -/
def ownIndex : UInt32 := .ofNat s.own

def leftIndex : UInt32 := .ofNat (s.roster.left s.own)

def rightIndex : UInt32 := .ofNat (s.roster.right s.own)

/-- The share from both neighbour keys. -/
def ownShare? : Option Share := do
  return .ofNeighborKeys (← s.progress.keyRight) (← s.progress.keyLeft)

/-- How many other parties' contributions are there. -/
def peerCount : Nat :=
  (List.finRange s.roster.size).countP fun i => i ≠ s.own ∧ (s.progress.contributions[i]).isSome

/-- The state that the progress amounts to; the last two states stay. -/
def currentState : SessionState :=
  if s.state = .established ∨ s.state = .aborted then s.state
  else if s.progress.groupKey.isSome then .established
  else if (s.progress.contributions[s.own]).isSome then
    if s.peerCount = 0 then .keysComplete else .awaitingShares
  else if s.progress.keyLeft.isSome ∨ s.progress.keyRight.isSome then .keysPartial
  else if s.progress.initiated then .akeSent
  else .init

def refreshed : Session := { s with state := s.currentState }

/-- The session given up: no neighbour key is kept. -/
def abandoned : Session :=
  { s with
    state := .aborted
    progress := { s.progress with keyLeft := none, keyRight := none, transcript := none } }

/-- The session with a contribution put in its slot. -/
def withContribution (i : Fin s.roster.size) (c : Contribution) : Session :=
  { s with
    progress := { s.progress with contributions := s.progress.contributions.set i (some c) } }

/-- All contributions in ring order, once none is missing. -/
def contributions? : Option (List Contribution) := s.progress.contributions.toList.mapM id

variable (K : Kem) {ρ : Type} [RandomSource ρ]

/-- A contribution of a party with a fresh coin. -/
def contribution (share : Share) (source : ρ) : Except CryptoError Contribution × ρ :=
  let (bytes, source) := RandomSource.draw 44 source
  let coin : Coin := ⟨bytes⟩
  let key := (s.roster.party s.own).publicKey
  let made := (Commitment.make K key (share.commitmentMessage s.own) coin).map fun commitment =>
    (⟨share, commitment, coin⟩ : Contribution)
  (made, source)

/-- Repeats every commitment, the first one at position `index`. -/
def checkCommitments (index : Nat) : List (Party × Contribution) → Except SessionError Unit
  | [] => .ok ()
  | (party, c) :: rest =>
    match Commitment.make K party.publicKey (c.share.commitmentMessage index) c.coin with
    | .error e => .error (.crypto e)
    | .ok again =>
      if again = c.commitment then checkCommitments (index + 1) rest
      else .error (.verification (.commitment index))

/-- The shares of all parties, once none is missing and all checks hold. -/
def verifiedShares : Except SessionError (Option (List Share)) :=
  match s.contributions? with
  | none => .ok none
  | some cs =>
    let shares := cs.map (·.share)
    if Share.isClosed shares then
      (checkCommitments K 0 (s.roster.parties.zip cs)).map fun _ => some shares
    else .error (.verification .closure)

/-- Derives the group key when everything is there. A failed check ends the session. -/
def finish : Except SessionError (Option GroupKey) × Session :=
  if s.progress.groupKey.isSome then (.ok none, s)
  else
    match s.verifiedShares K, s.progress.keyLeft with
    | .error (.verification failure), _ => (.error (.verification failure), s.abandoned)
    | .error e, _ => (.error e, s)
    | .ok none, _ => (.ok none, s)
    | .ok (some _), none => (.ok none, s)
    | .ok (some shares), some left =>
      let key := GroupKey.derive (Share.leftKeys s.own left shares) s.roster.ids
      (.ok (some key),
        { s with state := .established, progress := { s.progress with groupKey := some key } })

/-- Ends a step: derives the key if possible, names the state, and adds to the actions. -/
def conclude (actions : List SessionAction) (source : ρ) : SessionOutcome ρ :=
  match s.finish K with
  | (.error e, s) => ⟨.error e, s, source⟩
  | (.ok none, s) => ⟨.ok actions, s.refreshed, source⟩
  | (.ok (some key), s) => ⟨.ok (actions ++ [.established key]), s.refreshed, source⟩

/-- Goes as far as possible: broadcasts the own share if it is due, then concludes. -/
def advance (actions : List SessionAction) (source : ρ) : SessionOutcome ρ :=
  match s.progress.contributions[s.own], s.ownShare? with
  | none, some share =>
    match s.contribution K share source with
    | (.error e, source) => ⟨.error (.crypto e), s, source⟩
    | (.ok c, source) =>
      let broadcast := (Payload.shareBroadcast c).toEnvelope s.ownIndex .everyone
      (s.withContribution s.own c).conclude K (actions ++ [.send broadcast]) source
  | _, _ => s.conclude K actions source

/-- Opens the handshake with the right neighbour. -/
def start (source : ρ) : SessionOutcome ρ :=
  if s.progress.initiated then ⟨.error (.alreadyStarted s.state), s, source⟩
  else
    let (seed, source) := RandomSource.draw 32 source
    match Handshake.initiate K (s.roster.party (s.roster.right s.own)).publicKey seed with
    | .error e => ⟨.error (.crypto e), s, source⟩
    | .ok (offer, transcript) =>
      let message := (Payload.akeInit offer).toEnvelope s.ownIndex (.party s.rightIndex)
      let progress := { s.progress with transcript := some transcript, initiated := true }
      advance { s with progress } K [.send message] source

/-- Answers the left neighbour's offer. -/
def receiveOffer (sender : Fin s.roster.size) (offer : Handshake.Offer) (source : ρ) :
    SessionOutcome ρ :=
  if sender ≠ s.roster.left s.own then
    ⟨.error (.unexpectedSender .akeInit (.ofNat sender)), s, source⟩
  else if s.progress.keyLeft.isSome then ⟨.ok [], s, source⟩
  else
    let (seed, source) := RandomSource.draw 32 source
    let peer := (s.roster.party (s.roster.left s.own)).publicKey
    match Handshake.respond K offer s.secretKey peer seed with
    | .error e => ⟨.error (.crypto e), s, source⟩
    | .ok (response, key) =>
      let message := (Payload.akeRespond response).toEnvelope s.ownIndex (.party s.leftIndex)
      let progress := { s.progress with keyLeft := some key }
      advance { s with progress } K [.send message] source

/-- Takes the right neighbour's answer. -/
def receiveResponse (sender : Fin s.roster.size) (response : Handshake.Response) (source : ρ) :
    SessionOutcome ρ :=
  if sender ≠ s.roster.right s.own then
    ⟨.error (.unexpectedSender .akeRespond (.ofNat sender)), s, source⟩
  else if s.progress.keyRight.isSome then ⟨.ok [], s, source⟩
  else
    match s.progress.transcript with
    | none => ⟨.error .responseBeforeOffer, s, source⟩
    | some transcript =>
      match Handshake.finalize K response transcript s.secretKey with
      | .error e => ⟨.error (.crypto e), s, source⟩
      | .ok key =>
        let progress := { s.progress with transcript := none, keyRight := some key }
        advance { s with progress } K [] source

/-- Keeps the first contribution of every party. -/
def receiveContribution (sender : Fin s.roster.size) (c : Contribution) (source : ρ) :
    SessionOutcome ρ :=
  if (s.progress.contributions[sender]).isSome then ⟨.ok [], s, source⟩
  else (s.withContribution sender c).advance K [] source

/-- Takes a message of a party of the ring. -/
def receivePayload (sender : Fin s.roster.size) (payload : Payload) (source : ρ) :
    SessionOutcome ρ :=
  match payload with
  | .akeInit offer => s.receiveOffer K sender offer source
  | .akeRespond response => s.receiveResponse K sender response source
  | .shareBroadcast c => s.receiveContribution K sender c source
  | .wrappedKey _ => ⟨.error (.unexpectedKind .wrappedKey .ringSession), s, source⟩
  | .appMessage _ => ⟨.error (.unexpectedKind .appMessage .ringSession), s, source⟩

/-- Takes an envelope. Own messages, messages for others and all messages after the end of the
run are passed over. -/
def receive (e : Envelope) (source : ρ) : SessionOutcome ρ :=
  if h : e.sender.toNat < s.roster.size then
    if e.sender.toNat = s.own ∨ !e.recipient.includes s.ownIndex ∨ s.state = .established then
      ⟨.ok [], s, source⟩
    else
      match Payload.ofEnvelope e with
      | .error error => ⟨.error (.decode error), s, source⟩
      | .ok payload => s.receivePayload K ⟨e.sender.toNat, h⟩ payload source
  else ⟨.error (.decode (.invalidIndex e.sender.toNat)), s, source⟩

def handle (event : SessionEvent) (source : ρ) : SessionOutcome ρ :=
  if s.state = .aborted then ⟨.error .aborted, s, source⟩
  else
    match event with
    | .start => s.start K source
    | .received e => s.receive K e source

end Session

end RingAgreement
