import RingAgreement.Session.Roster
import RingAgreement.Storage.KeyFile
/-!
Roster files: the name of a ring and its parties with their public keys, in ring order.
-/

namespace RingAgreement

structure RosterEntry where
  name : String
  publicKey : String
deriving DecidableEq, Repr

structure RosterFile where
  name : String
  parties : List RosterEntry
deriving DecidableEq, Repr

namespace RosterEntry

def toDocument (e : RosterEntry) : Json :=
  .object [(some "name", .text (some e.name)), (some "publicKey", .text (some e.publicKey))]

def ofDocument? (document : Json) : Option RosterEntry := do
  match ← document.fields? ["name", "publicKey"] with
  | [some name, some publicKey] => return ⟨← name.text?, ← publicKey.text?⟩
  | _ => none

def toParty (e : RosterEntry) : Except ServiceError Party := do
  let id ← PartyId.ofEntry e.name
  let publicKey ← PublicKey.ofText e.name e.publicKey
  return ⟨id, publicKey⟩

end RosterEntry

namespace RosterFile

def toDocument (f : RosterFile) : Json :=
  .object [(some "name", .text (some f.name)),
    (some "parties", .array (f.parties.map RosterEntry.toDocument))]

def ofDocument? (document : Json) : Option RosterFile := do
  match ← document.fields? ["name", "parties"] with
  | [some name, some (.array parties)] =>
    return ⟨← name.text?, ← parties.mapM RosterEntry.ofDocument?⟩
  | _ => none

def load (path : String) (content : Option (List UInt8)) : Except ServiceError RosterFile :=
  Json.ofFile path ofDocument? content

def toFile (f : RosterFile) : String := f.toDocument.toFile

/-- The ring of the owners of key files, in their order. -/
def ofKeys (name : String) (keys : List KeyFile) : RosterFile :=
  ⟨name, keys.map fun key => ⟨key.name, key.publicKey⟩⟩

def toRoster (f : RosterFile) : Except ServiceError Roster := do
  let parties ← f.parties.mapM RosterEntry.toParty
  (Roster.make f.name parties).mapError fun e => .config (.roster e)

/-- The position of the party with a name. -/
def position (f : RosterFile) (name : String) : Except ServiceError Nat :=
  match f.parties.findIdx? (·.name = name) with
  | some i => .ok i
  | none => .error (.config (.notMember name f.name))

/-- The ring and the position in it of the owner of a key file, which has to stand in the ring
with the same public key. -/
def place (f : RosterFile) (key : KeyFile) : Except ServiceError (Roster × Nat) := do
  let i ← f.position key.name
  if (f.parties[i]?.map (·.publicKey)) ≠ some key.publicKey then
    .error (.config (.otherKey key.name f.name))
  return (← f.toRoster, i)

end RosterFile

end RingAgreement
