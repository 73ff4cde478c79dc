import RingAgreement.Service.Limits
import RingAgreement.Transport.Channel
/-!
The relay of a ring: every line of one connection goes to all others, whoever it is addressed to.
The relay keeps the lines of the run for connections that join late or fall behind. The run ends
when the last connection leaves; the next run does not see its lines.
-/

namespace RingAgreement

structure Relay where
  limits : Limits
  history : List String
  joined : Nat
  live : Nat
  channel : Channel (Nat × String)
deriving DecidableEq, Repr

namespace Relay

def new (limits : Limits) : Relay :=
  ⟨limits, [], 0, 0, .withRoom limits.channelCapacity⟩

/-- A new connection: its number, the lines of the run so far, and its position in the channel,
right behind those lines. -/
structure Admission where
  id : Nat
  backlog : List String
  position : Nat

def join (r : Relay) : Admission × Relay :=
  (⟨r.joined, r.history, r.channel.tip⟩, { r with joined := r.joined + 1, live := r.live + 1 })

def leave (r : Relay) : Relay :=
  { r with live := r.live - 1, history := if r.live ≤ 1 then [] else r.history }

/-- The history with one more line, if there is room. -/
def remember (r : Relay) (line : String) : List String :=
  if r.history.length < r.limits.maxHistoryLines then r.history ++ [line] else r.history

/-- Takes a line from a connection. A line that is no envelope is dropped. -/
def publish (origin : Nat) (r : Relay) (line : String) : Relay :=
  match Envelope.ofJson line with
  | .ok _ => { r with history := r.remember line, channel := r.channel.send (origin, line) }
  | .error _ => r

/-- The lines for a connection at a position. One that has missed lines gets the history first. -/
def linesFor (r : Relay) (id position : Nat) : List String :=
  let fresh := ((r.channel.since position).filter (·.1 ≠ id)).map (·.2)
  if r.channel.hasMissed position then r.history ++ fresh else fresh

theorem linesFor_tip (r : Relay) (id : Nat) : r.linesFor id r.channel.tip = [] := by
  simp [linesFor, Channel.since_tip, Channel.hasMissed]

theorem length_remember_le (r : Relay) (line : String)
    (h : r.history.length ≤ r.limits.maxHistoryLines) :
    (r.remember line).length ≤ r.limits.maxHistoryLines := by
  unfold remember
  split
  · simp
    omega
  · exact h

end Relay

end RingAgreement
