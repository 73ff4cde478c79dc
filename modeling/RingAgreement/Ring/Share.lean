import RingAgreement.Bytes.Order
import RingAgreement.Keys.Basic
/-!
The shares of a ring. The share of a party is the exclusive or of its right and its left key, so
the shares of a ring whose links agree cancel out, and every party can walk around the ring from
its own left key to all others.
-/

namespace RingAgreement

structure Share where
  bytes : Bytes 32
deriving DecidableEq, Repr, Inhabited

namespace Share

/-- The share of a party with the given neighbour keys. -/
def ofNeighborKeys (right left : SharedSecret) : Share := ⟨right.bytes ^^^ left.bytes⟩

/-- The message that the party at a position commits to: its share and the position. -/
def commitmentMessage (share : Share) (index : Nat) : Bytes 36 :=
  share.bytes ++ Bytes.bigEndian 4 index

/-- The exclusive or of all shares. -/
def total (shares : List Share) : Bytes 32 :=
  shares.foldl (fun sum share => sum ^^^ share.bytes) (Bytes.zero 32)

/-- Whether the shares cancel out. -/
def isClosed (shares : List Share) : Bool := total shares = Bytes.zero 32

/-- The left keys met on a walk that starts with one left key and crosses the given shares. -/
def walk (left : SharedSecret) : List Share → List SharedSecret
  | [] => []
  | share :: rest => left :: walk ⟨left.bytes ^^^ share.bytes⟩ rest

/-- The left keys of all parties by position, from the own position and left key. -/
def leftKeys (own : Nat) (left : SharedSecret) (shares : List Share) : List SharedSecret :=
  (walk left (shares.rotateLeft own)).rotateRight own

def summary (share : Share) : String := "Share(" ++ Hex.abbreviated share.bytes.toList ++ "..)"

end Share

end RingAgreement
