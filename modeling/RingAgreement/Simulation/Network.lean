import RingAgreement.Random.Rate
import RingAgreement.Random.Stream
import RingAgreement.Simulation.Packet
/-!
A simulated network. It hands out packets in sending order or in a random one, and may put a copy
of a packet back after handing it out; a copy is never copied again.
-/

namespace RingAgreement

namespace StreamSource

/-- A number below `n`, from 64-bit draws that are repeated while they fall into the incomplete
last part of their range; 128 draws at most. -/
def belowWithin (n : Nat) : Nat → StreamSource → Nat × StreamSource
  | 0, s => (0, s)
  | tries + 1, s =>
    let (v, s) := s.next64
    let product := v.toNat * n
    let zone := n <<< (63 - n.log2) - 1
    if product % UInt64.size ≤ zone then (product / UInt64.size, s) else belowWithin n tries s

def below (n : Nat) (s : StreamSource) : Nat × StreamSource := belowWithin n 128 s

/-- True with a given probability; certainty takes no draw. -/
def chance (p : Rate) (s : StreamSource) : Bool × StreamSource :=
  if p.isCertain then (true, s)
  else
    let (v, s) := s.next64
    (v.toNat < p.threshold, s)

end StreamSource

namespace Simulation

structure NetworkConfig where
  reorder : Bool
  duplicateRate : Rate

def NetworkConfig.reliable : NetworkConfig := ⟨false, .zero⟩

/-- Any order, and every fifth packet comes twice. -/
def NetworkConfig.chaotic : NetworkConfig := ⟨true, ⟨0x3fc999999999999a⟩⟩

/-- A packet in the network; copies are marked. -/
structure Flight where
  packet : Packet
  duplicate : Bool
deriving DecidableEq, Repr

structure Network where
  config : NetworkConfig
  source : StreamSource
  inFlight : List Flight
  delivered : Nat

namespace Network

def ofSeed (seed : UInt64) (config : NetworkConfig) : Network := ⟨config, .ofNumber seed, [], 0⟩

variable (n : Network)

def isIdle : Bool := n.inFlight.isEmpty

def send (packet : Packet) : Network := { n with inFlight := n.inFlight ++ [⟨packet, false⟩] }

/-- The position of the next packet to hand out. -/
def nextIndex : Nat × StreamSource :=
  if n.config.reorder then n.source.below n.inFlight.length else (0, n.source)

/-- Whether a packet is copied. -/
def copies (flight : Flight) (source : StreamSource) : Bool × StreamSource :=
  let rate := n.config.duplicateRate
  if !flight.duplicate && rate.isPositive then source.chance rate else (false, source)

/-- Hands out a packet, unless nothing is in flight. -/
def take : Option (Flight × Network) :=
  let (i, source) := n.nextIndex
  match n.inFlight[i]? with
  | none => none
  | some flight =>
    let (copied, source) := n.copies flight source
    let rest := n.inFlight.eraseIdx i
    let inFlight := if copied then rest ++ [{ flight with duplicate := true }] else rest
    some (flight, { n with source, inFlight, delivered := n.delivered + 1 })

end Network

end Simulation

end RingAgreement
