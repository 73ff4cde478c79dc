import Mathlib.Logic.Function.Basic
import RingAgreement.Proofs.Ring.Exchange
import RingAgreement.Proofs.Session.Coherence
/-!
A ring of parties and a medium between them that promises nothing. It keeps every message that was
ever sent and may hand it to any party but its sender, at any time, any number of times or never.
-/

namespace RingAgreement

def SessionAction.envelope? : SessionAction → Option Envelope
  | .send e => some e
  | .established _ => none

namespace SessionOutcome

variable {ρ : Type} (outcome : SessionOutcome ρ)

def sends : List Envelope := outcome.actions.filterMap (·.envelope?)

def error? : Option SessionError :=
  match outcome.result with
  | .ok _ => none
  | .error e => some e

end SessionOutcome

/-- A message on the medium, with the party that has sent it. -/
structure Posted (n : Nat) where
  origin : Fin n
  envelope : Envelope

/-- Who has sent a message, and of what kind it is. -/
def Posted.stamp {n : Nat} (p : Posted n) : Fin n × MessageKind := (p.origin, p.envelope.kind)

/-- The parties of a ring, the messages sent so far, and a record of who was started, which message
was handed to whom, and which errors came of it. -/
structure Medium (n : Nat) (ρ : Type) where
  session : Fin n → Session
  source : Fin n → ρ
  posted : List (Posted n)
  started : List (Fin n)
  delivered : List (Nat × Fin n)
  failures : List SessionError

/-- How many messages of a kind a party has sent. -/
def Medium.sentBy {n : Nat} {ρ : Type} (w : Medium n ρ) (i : Fin n) (kind : MessageKind) : Nat :=
  (w.posted.map (·.stamp)).count (i, kind)

/-- What can happen next: a party is told to start, or it is handed the message with a number. -/
inductive Move (n : Nat) where
  | start (party : Fin n)
  | deliver (number : Nat) (receiver : Fin n)

namespace Medium

variable (K : Kem) {n : Nat} {ρ : Type} [RandomSource ρ] (w : Medium n ρ)

/-- An event for one party: what the party sends is added to the messages. -/
def hand (i : Fin n) (event : SessionEvent) : Medium n ρ :=
  let outcome := (w.session i).handle K event (w.source i)
  { w with
    session := Function.update w.session i outcome.session
    source := Function.update w.source i outcome.source
    posted := w.posted ++ outcome.sends.map fun e => ⟨i, e⟩
    failures := w.failures ++ outcome.error?.toList }

@[simp] theorem hand_session_self (i : Fin n) (event : SessionEvent) :
    (w.hand K i event).session i = ((w.session i).handle K event (w.source i)).session :=
  Function.update_self i _ w.session

theorem hand_session_of_ne {i j : Fin n} (other : j ≠ i) (event : SessionEvent) :
    (w.hand K i event).session j = w.session j :=
  Function.update_of_ne other _ w.session

/-- One move. No party is started twice, and none is handed its own messages or ones that were
never sent. -/
def play : Move n → Medium n ρ
  | .start i =>
    if i ∈ w.started then w else { w.hand K i .start with started := i :: w.started }
  | .deliver number j =>
    match w.posted[number]? with
    | none => w
    | some p =>
      if p.origin = j then w
      else { w.hand K j (.received p.envelope) with delivered := (number, j) :: w.delivered }

def run (moves : List (Move n)) : Medium n ρ := moves.foldl (play K) w

end Medium

/-- A ring whose parties hold generated keys. -/
structure HonestRing (K : Kem) where
  roster : Roster
  seed : Fin roster.size → Bytes 32
  generated : ∀ i, (roster.party i).publicKey = (K.keypair (seed i)).publicKey

namespace HonestRing

variable {K : Kem} (ring : HonestRing K)

/-- The ring of parties with given identifiers and with keys from given seeds. -/
def generate (K : Kem) (name : String) (members : List (PartyId × Bytes 32))
    (many : minRingSize ≤ members.length) (few : members.length < UInt32.size)
    (distinct : (members.map (·.1)).Nodup) : HonestRing K where
  roster :=
    { name := name
      parties := members.map fun member => ⟨member.1, (K.keypair member.2).publicKey⟩
      minSize_le := by simpa using many
      size_lt := by simpa using few
      nodup := by rwa [List.map_map] }
  seed i := (members.get ⟨i, by simpa [Roster.size] using i.isLt⟩).2
  generated := by
    intro i
    simp [Roster.party]

/-- The key pair of a party. -/
def pair (i : Fin ring.roster.size) : Keypair := K.keypair (ring.seed i)

/-- The session of a party before the run. -/
def fresh (i : Fin ring.roster.size) : Session :=
  .fresh ring.roster i (ring.pair i).secretKey

theorem coherent_fresh (i : Fin ring.roster.size) : (ring.fresh i).Coherent K :=
  Session.fresh_coherent ring.roster i _

/-- The ring before the run, each party with its own source of randomness. -/
def medium {ρ : Type} (source : Fin ring.roster.size → ρ) : Medium ring.roster.size ρ :=
  ⟨ring.fresh, source, [], [], [], []⟩

/-- Three parties over a mechanism that hides nothing. -/
def trio : HonestRing .transparent :=
  generate .transparent "leaders"
    [(⟨.replicate 20 1⟩, .replicate 32 1), (⟨.replicate 20 2⟩, .replicate 32 2),
      (⟨.replicate 20 3⟩, .replicate 32 3)] (by decide) (by decide) (by decide)

theorem opens (correct : K.Correct) (i : Fin ring.roster.size) : K.Opens (ring.pair i) :=
  correct.keypair (ring.seed i)

theorem party_publicKey (i : Fin ring.roster.size) :
    (ring.roster.party i).publicKey = (ring.pair i).publicKey := ring.generated i

end HonestRing

end RingAgreement
