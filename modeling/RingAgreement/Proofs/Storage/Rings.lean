import RingAgreement.Proofs.Checks
import RingAgreement.Proofs.Ring.Roster
import RingAgreement.Proofs.Storage.Keys
import RingAgreement.Storage.RosterFile
/-!
What a roster file stands for: the roster with the name of the file and with the party of each entry
in its place. A file is refused as listing a party twice only if two entries have one identifier.
-/

namespace RingAgreement

section Positions

variable {α : Type} {l : List α}

theorem findIdx?_congr {p q : α → Bool} (same : ∀ a ∈ l, p a = q a) :
    l.findIdx? p = l.findIdx? q := by
  induction l with
  | nil => rfl
  | cons a l ih =>
    rw [List.findIdx?_cons, List.findIdx?_cons, same a List.mem_cons_self,
      ih fun b member => same b (List.mem_cons_of_mem _ member)]

/-- Where values are different, the first item with the value of an item is that item. -/
theorem findIdx?_of_nodup {β : Type} [DecidableEq β] {g : α → β} {i : Nat} {a : α}
    (distinct : (l.map g).Nodup) (there : l[i]? = some a) :
    l.findIdx? (g · = g a) = some i := by
  induction l generalizing i with
  | nil => cases there
  | cons b l ih =>
    rw [List.map_cons, List.nodup_cons] at distinct
    cases i with
    | zero =>
      obtain rfl := Option.some.inj there
      simp [List.findIdx?_cons]
    | succ i =>
      have later : l[i]? = some a := there
      have other : g b ≠ g a := by
        intro same
        apply distinct.1
        rw [same]
        exact List.mem_map_of_mem (List.mem_of_getElem? later)
      simp [List.findIdx?_cons, other, ih distinct.2 later]

end Positions

/-- An entry of a file stands for a party. -/
structure RosterEntry.Stands (e : RosterEntry) (p : Party) : Prop where
  id : PartyId.ofName e.name = .ok p.id
  publicKey : PublicKey.ofText e.name e.publicKey = .ok p.publicKey

namespace RosterEntry

variable {e : RosterEntry} {p : Party}

theorem toParty_eq_ok_iff : e.toParty = .ok p ↔ e.Stands p := by
  rw [toParty, bind_eq_ok_iff]
  constructor
  · rintro ⟨id, accepted, made⟩
    obtain ⟨key, read, made⟩ := bind_eq_ok_iff.1 made
    obtain rfl := Except.ok.inj made
    exact ⟨PartyId.ofEntry_eq_ok_iff.1 accepted, read⟩
  · rintro ⟨accepted, read⟩
    exact ⟨_, PartyId.ofEntry_eq_ok_iff.2 accepted, bind_eq_ok_iff.2 ⟨_, read, rfl⟩⟩

theorem publicKey_ne_roster {owner text : String} {reason : SessionError} :
    PublicKey.ofText owner text ≠ .error (.config (.roster reason)) := by
  intro refused
  rw [PublicKey.ofText] at refused
  rcases bind_eq_error_iff.1 refused with unread | ⟨bytes, -, refused⟩
  · rw [keyBytes] at unread
    split at unread
    next => cases unread
    next => cases unread
  · split at refused
    next => cases refused
    next => cases refused

/-- An entry is not refused for the ring that it stands in. -/
theorem toParty_ne_roster {reason : SessionError} :
    e.toParty ≠ .error (.config (.roster reason)) := by
  intro refused
  rw [toParty] at refused
  rcases bind_eq_error_iff.1 refused with unnamed | ⟨id, -, refused⟩
  · obtain ⟨_, -, other⟩ := mapError_eq_error_iff.1 unnamed
    cases other
  rcases bind_eq_error_iff.1 refused with unread | ⟨key, -, made⟩
  · exact publicKey_ne_roster unread
  · cases made

end RosterEntry

namespace RosterFile

variable {f : RosterFile} {roster : Roster} {parties : List Party}

theorem toRoster_of_stands (stand : List.Forall₂ RosterEntry.Stands f.parties parties) :
    f.toRoster = (Roster.make f.name parties).mapError fun e => .config (.roster e) := by
  have read : f.parties.mapM RosterEntry.toParty = .ok parties :=
    mapM_eq_ok_iff.2 (stand.imp fun _ _ => RosterEntry.toParty_eq_ok_iff.2)
  rw [toRoster, read]
  rfl

theorem stands_of_mapM (read : f.parties.mapM RosterEntry.toParty = .ok parties) :
    List.Forall₂ RosterEntry.Stands f.parties parties :=
  (mapM_eq_ok_iff.1 read).imp fun _ _ => RosterEntry.toParty_eq_ok_iff.1

/-- The roster of a file has its name, and the parties that its entries stand for. -/
theorem toRoster_eq_ok_iff : f.toRoster = .ok roster ↔
    roster.name = f.name ∧ List.Forall₂ RosterEntry.Stands f.parties roster.parties := by
  constructor
  · intro made
    rw [toRoster] at made
    obtain ⟨parties, read, made⟩ := bind_eq_ok_iff.1 made
    obtain ⟨name, rfl⟩ := Roster.make_success (mapError_eq_ok_iff.1 made)
    exact ⟨name, stands_of_mapM read⟩
  · rintro ⟨name, stand⟩
    rw [toRoster_of_stands stand, ← name, Roster.make_parties]
    rfl

/-- A file is refused as listing a party twice only if its entries stand for parties of which two
have one identifier. -/
theorem toRoster_repeated {ring repeated : String}
    (refused : f.toRoster =
      .error (.config (.roster (.invalidRoster (.repeatedParty ring repeated))))) :
    ∃ parties, List.Forall₂ RosterEntry.Stands f.parties parties ∧ ¬(parties.map (·.id)).Nodup := by
  rw [toRoster] at refused
  rcases bind_eq_error_iff.1 refused with refused | ⟨parties, read, refused⟩
  · obtain ⟨entry, -, here⟩ := exists_error_of_mapM refused
    exact absurd here RosterEntry.toParty_ne_roster
  · obtain ⟨reason, built, same⟩ := mapError_eq_error_iff.1 refused
    obtain rfl := ConfigFault.roster.inj (ServiceError.config.inj same)
    exact ⟨parties, stands_of_mapM read, Roster.not_nodup_of_make built⟩

end RosterFile

end RingAgreement
