import RingAgreement.Keys.Basic
import RingAgreement.Ring.PartyId
import RingAgreement.Session.Error
/-!
Rosters: the parties of a ring, in ring order.
-/

namespace RingAgreement

structure Party where
  id : PartyId
  publicKey : PublicKey
deriving DecidableEq, Repr

/-- A named ring of at least three parties with different identifiers. -/
structure Roster where
  name : String
  parties : List Party
  minSize_le : minRingSize ≤ parties.length
  size_lt : parties.length < UInt32.size
  nodup : (parties.map (·.id)).Nodup
deriving DecidableEq

namespace Roster

/-- The first identifier that is in `seen` or comes a second time. -/
def firstRepeated (seen : List PartyId) : List PartyId → Option PartyId
  | [] => none
  | id :: rest => if id ∈ seen then some id else firstRepeated (id :: seen) rest

theorem nodup_of_firstRepeated {seen ids : List PartyId} (h : firstRepeated seen ids = none) :
    ids.Nodup ∧ ∀ id ∈ ids, id ∉ seen := by
  induction ids generalizing seen with
  | nil => simp
  | cons id rest ih =>
    simp only [firstRepeated] at h
    split at h
    · cases h
    · next fresh =>
      obtain ⟨distinct, unseen⟩ := ih h
      refine ⟨List.nodup_cons.2 ⟨fun member => unseen id member (by simp), distinct⟩, ?_⟩
      intro other member
      rcases List.mem_cons.1 member with rfl | member
      · exact fresh
      · exact fun old => unseen other member (List.mem_cons_of_mem _ old)

/-- The roster of a ring, if the parties can form one. -/
def make (name : String) (parties : List Party) : Except SessionError Roster :=
  if few : parties.length < minRingSize then
    .error (.invalidRoster (.tooFewParties name parties.length))
  else if many : UInt32.size ≤ parties.length then .error (.invalidRoster (.tooManyParties name))
  else
    match distinct : firstRepeated [] (parties.map (·.id)) with
    | some id => .error (.invalidRoster (.repeatedParty name id.name))
    | none =>
      .ok ⟨name, parties, Nat.le_of_not_lt few, Nat.lt_of_not_le many,
        (nodup_of_firstRepeated distinct).1⟩

def size (r : Roster) : Nat := r.parties.length

theorem size_pos (r : Roster) : 0 < r.size := Nat.lt_of_lt_of_le (by decide) r.minSize_le

def ids (r : Roster) : List PartyId := r.parties.map (·.id)

/-- The party at a position. -/
def party (r : Roster) (i : Fin r.size) : Party := r.parties.get ⟨i.val, i.isLt⟩

/-- The position of the party with an identifier. -/
def position? (r : Roster) (id : PartyId) : Option Nat := r.parties.findIdx? (·.id = id)

/-- The position before `i`, around the ring. -/
def leftOf (r : Roster) (i : Nat) : Nat := (i + r.size - 1) % r.size

/-- The position after `i`, around the ring. -/
def rightOf (r : Roster) (i : Nat) : Nat := (i + 1) % r.size

/-- The left neighbour of a party. -/
def left (r : Roster) (i : Fin r.size) : Fin r.size := ⟨r.leftOf i, Nat.mod_lt _ r.size_pos⟩

/-- The right neighbour of a party. -/
def right (r : Roster) (i : Fin r.size) : Fin r.size := ⟨r.rightOf i, Nat.mod_lt _ r.size_pos⟩

end Roster

end RingAgreement
