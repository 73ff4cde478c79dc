import RingAgreement.Proofs.Node.Replay
import RingAgreement.Proofs.Service.Operation
import RingAgreement.Proofs.Service.Passage
import RingAgreement.Proofs.Service.Standstill
/-!
Application messages that a node in operation has accepted, in a deployment where all moves follow
each other in any order: calls, turns of links and nodes, relays that bring lines, and queues that
fill up.
-/

namespace RingAgreement

namespace Station.Ledger

variable {ρ : Type} {s : Station ρ} {link : Link} {l : Ledger ρ}

/-- What holds of a station that has been taken over at `s`, with calls since then. -/
structure Sound (K : Kem) [RandomSource ρ] (s : Station ρ) (calls : List (List UInt8))
    (l : Ledger ρ) : Prop where
  /-- No queue holds more than it has room for. -/
  room : s.WithinRoom → l.station.WithinRoom
  /-- The node takes the calls in the order in which they are made. -/
  called : l.taken.map (·.1) ++ (l.station.commands ++ l.station.callers) =
    s.commands ++ s.callers ++ calls
  /-- Every call that is taken is answered in its turn, with a refusal or as soon as its message is
  in the outbox. -/
  answered : l.station.answers ++ l.station.submits.map (fun _ => .ok ()) =
    s.answers ++ l.taken.map fun m => m.2.map fun _ => ()
  /-- A call is refused only for want of a key. -/
  refused : ∀ plaintext error, (plaintext, .error error) ∈ l.taken →
    error = .session .noKeyAvailable
  sealed : ∀ plaintext e, (plaintext, .ok e) ∈ l.taken → ∃ key nonce,
    l.station.node.clusterKey = some key ∧
      e = (Payload.appMessage (.make key s.node.clusterIndex plaintext nonce)).toEnvelope
        s.node.clusterIndex .everyone
  /-- As long as there is a link, every accepted message that is not held up stands in the lines or
  in the outbox, in the order of the calls, a line for each. -/
  written : ∀ after, l.station.clusterLink = some after →
    Envelope.messages l.posted ++ l.station.submits = l.accepted ∧
      ∃ done, l.posted = done ++ after.outbox ∧ done.map Envelope.toLine = l.lines.map .ok
  /-- The link is lost only over something that it cannot read, or over an accepted message that
  does not fit in a line. Then exactly the messages before it have been written. -/
  lost : l.station.clusterLink = none → l.unreadable = true ∨
    ∃ plaintext e front rest later, (plaintext, .ok e) ∈ l.taken ∧
      l.posted = front ++ e :: rest ∧ l.accepted = Envelope.messages front ++ e :: later ∧
      front.map Envelope.toLine = l.lines.map .ok ∧
      Envelope.maxLineSize < 58 + (toString (s.node.clusterIndex.toNat : Int)).length +
        4 * ((plaintext.length + 42) / 3)
  /-- The node takes what the links hand over, in its order. -/
  handled : l.handled ++ l.station.pending = s.pending ++ l.passed
  /-- What a link reads it hands over, in its order. -/
  heard : ∀ level, s.inHand level ++ l.heard.filter (·.isFrom level) =
    l.passed.filter (·.isFrom level) ++ l.station.inHand level
  /-- When nothing goes on any more and the station is not held up, all calls are answered and all
  accepted messages are written. -/
  finished : l.station.Still K → ¬l.station.HeldUp → l.station.AtEase ∧
    l.taken.map (·.1) = s.commands ++ s.callers ++ calls ∧
    l.station.answers = s.answers ++ (l.taken.map fun m => m.2.map fun _ => ()) ∧
    (l.station.clusterLink ≠ none → Envelope.messages l.posted = l.accepted ∧
      l.posted.map Envelope.toLine = l.lines.map .ok)

variable [RandomSource ρ] (K : Kem)

end Station.Ledger

namespace Deployment

variable {ρ : Type} [RandomSource ρ] {d : Deployment ρ} {i : Nat} {s : Station ρ} {link : Link}

variable (K : Kem)

end Deployment

/-! ## One message through a station with nothing else to do -/

namespace Station.Ledger

variable {ρ : Type} [RandomSource ρ] (K : Kem) {s : Station ρ} {link : Link} {key : ClusterKey}

end Station.Ledger

namespace Deployment

variable {ρ : Type} [RandomSource ρ] {d : Deployment ρ} {i : Nat} {s : Station ρ} {link : Link}
  {key : ClusterKey} (K : Kem)

end Deployment

namespace HonestRing.trio

variable {node : Node} {key : ClusterKey}

/-- A node in operation that has nothing to do. -/
def station (node : Node) : Station DrawCounter :=
  { Station.new node ⟨0⟩ .standard with
    fresh := false
    clusterLink := some ⟨0, 0, .new Envelope.maxLineSize, .empty, none, []⟩ }

/-- The node with a relay to itself. -/
def alone (node : Node) : Deployment DrawCounter :=
  ⟨[some (station node)], [(Hub.new .standard).connect.2], []⟩

end HonestRing.trio

end RingAgreement
