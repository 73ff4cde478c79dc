import Mathlib.Data.List.Nodup
import RingAgreement.Proofs.Ring.PartyId
import RingAgreement.Proofs.Storage.Rings
/-!
Names in files and identifiers in rings. Names without zero characters are told apart and found in
the same places on both sides. Zeros at the end of a name are lost in its identifier, so two names
that differ in them alone cannot stand in one ring, and one of them is found in a ring in the place
of the other but not in the file.
-/

namespace RingAgreement

open PartyId (significant ofName)

variable {entries : List RosterEntry} {parties : List Party} {name : String} {id : PartyId}

/-- The names of entries, apart from zeros at their ends. -/
def significantNames (entries : List RosterEntry) : List (List Char) :=
  entries.map fun e => significant e.name

theorem significantNames_of_plain (plain : ∀ e ∈ entries, '\x00' ∉ e.name.toList) :
    significantNames entries = (entries.map (·.name)).map String.toList := by
  rw [significantNames, List.map_map]
  exact List.map_congr_left fun e member => PartyId.significant_of_plain (plain e member)

section Stands

variable (stand : List.Forall₂ RosterEntry.Stands entries parties)

include stand

theorem mem_ids_iff (accepted : ofName name = .ok id) :
    id ∈ parties.map (·.id) ↔ significant name ∈ significantNames entries := by
  induction stand with
  | nil => simp [significantNames]
  | cons first _ ih =>
    rw [significantNames] at ih ⊢
    rw [List.map_cons, List.map_cons, List.mem_cons, List.mem_cons, ih,
      PartyId.eq_iff_significant accepted first.id]

theorem nodup_ids_iff : (parties.map (·.id)).Nodup ↔ (significantNames entries).Nodup := by
  induction stand with
  | nil => simp [significantNames]
  | cons first rest ih =>
    have new := mem_ids_iff rest first.id
    rw [significantNames] at ih new ⊢
    rw [List.map_cons, List.map_cons, List.nodup_cons, List.nodup_cons, ih, new]

/-- A party stands where the significant part of its name does. -/
theorem findIdx?_id (accepted : ofName name = .ok id) :
    parties.findIdx? (·.id = id) =
      entries.findIdx? (significant ·.name = significant name) := by
  induction stand with
  | nil => rfl
  | cons first _ ih =>
    have same := PartyId.eq_iff_significant first.id accepted
    rw [List.findIdx?_cons, List.findIdx?_cons, ih]
    simp only [same]

end Stands

/-- A name is found where its significant part is, unless another name has that part. -/
theorem findIdx?_name_iff (distinct : (significantNames entries).Nodup) :
    entries.findIdx? (·.name = name) =
        entries.findIdx? (significant ·.name = significant name) ↔
      ∀ e ∈ entries, significant e.name = significant name → e.name = name := by
  constructor
  · intro agree e member same
    obtain ⟨i, there⟩ := List.getElem?_of_mem member
    have found := findIdx?_of_nodup distinct there
    rw [same] at found
    rw [found, List.findIdx?_eq_some_iff_getElem] at agree
    obtain ⟨inside, named, _⟩ := agree
    rw [List.getElem?_eq_getElem inside] at there
    rw [← Option.some.inj there]
    exact of_decide_eq_true named
  · intro only
    refine findIdx?_congr fun e member => decide_eq_decide.2 ⟨?_, only e member⟩
    exact congrArg significant

namespace RosterFile

variable {f : RosterFile} {roster : Roster}

theorem position_eq_iff {place : Option Nat} :
    f.position name = place.elim (.error (.config (.notMember name f.name))) .ok ↔
      f.parties.findIdx? (·.name = name) = place := by
  rw [position]
  cases f.parties.findIdx? (·.name = name) <;> cases place <;> simp

theorem significantNames_nodup (made : f.toRoster = .ok roster) :
    (significantNames f.parties).Nodup :=
  (nodup_ids_iff (toRoster_eq_ok_iff.1 made).2).1 roster.nodup

/-- A name has the place of its identifier unless another name has its significant part. -/
theorem position_eq_position?_iff (made : f.toRoster = .ok roster)
    (accepted : ofName name = .ok id) :
    f.position name =
        (roster.position? id).elim (.error (.config (.notMember name f.name))) .ok ↔
      ∀ e ∈ f.parties, significant e.name = significant name → e.name = name := by
  have stand := (toRoster_eq_ok_iff.1 made).2
  rw [position_eq_iff, Roster.position?, findIdx?_id stand accepted]
  exact findIdx?_name_iff (significantNames_nodup made)

end RosterFile

/-- An identifier keeps of a name what stands before the zeros at its end, and gives back what
stands before its first zero. A file lists a party twice only if two of its names are the same but
for such zeros. Name and identifier are found in the same place exactly if no other name in the file
differs from the given one in such zeros alone. So nothing is confused among names without zeros. -/
theorem identifiers_follow_names {s t : String} {a b : PartyId} (accepted : ofName s = .ok a)
    (accepted' : ofName t = .ok b) (f : RosterFile) :
    a.name = String.ofList (s.toList.takeWhile (· ≠ '\x00')) ∧
    (a.name = s ↔ '\x00' ∉ s.toList) ∧
    (a = b ↔ significant s = significant t) ∧
    ('\x00' ∉ s.toList → '\x00' ∉ t.toList → a = b → s = t) ∧
    ((∀ e ∈ f.parties, '\x00' ∉ e.name.toList) → (f.parties.map (·.name)).Nodup →
      (significantNames f.parties).Nodup) ∧
    ((significantNames f.parties).Nodup → ∀ ring repeated, f.toRoster ≠
      .error (.config (.roster (.invalidRoster (.repeatedParty ring repeated))))) ∧
    ∀ roster, f.toRoster = .ok roster → (significantNames f.parties).Nodup ∧
      (f.position s = (roster.position? a).elim (.error (.config (.notMember s f.name))) .ok ↔
        ∀ e ∈ f.parties, significant e.name = significant s → e.name = s) ∧
      ((∀ e ∈ f.parties, '\x00' ∉ e.name.toList) → '\x00' ∉ s.toList →
        f.position s = (roster.position? a).elim (.error (.config (.notMember s f.name))) .ok) := by
  have same := PartyId.eq_iff_significant accepted accepted'
  refine ⟨PartyId.name_of_ofName accepted, PartyId.name_eq_iff accepted, same, ?_, ?_, ?_, ?_⟩
  · intro plain plain' eq
    exact PartyId.eq_of_significant plain plain' (same.1 eq)
  · intro plains distinct
    rw [significantNames_of_plain plains]
    exact List.Nodup.map (fun _ _ => String.toList_injective) distinct
  · intro distinct ring repeated refused
    obtain ⟨parties, stand, twice⟩ := RosterFile.toRoster_repeated refused
    exact twice ((nodup_ids_iff stand).2 distinct)
  · intro roster made
    have agree := RosterFile.position_eq_position?_iff made accepted
    refine ⟨RosterFile.significantNames_nodup made, agree, fun plains plain => ?_⟩
    exact agree.2 fun e member eq => PartyId.eq_of_significant (plains e member) plain eq

/-- A file that gives every party the same key. -/
def RosterFile.withKey (ring : String) (key : PublicKey) (names : List String) : RosterFile :=
  ⟨ring, names.map fun name => ⟨name, Base64.encode key.bytes.toList⟩⟩

theorem RosterFile.withKey_stands (ring : String) (key : PublicKey) {names : List String}
    {ids : List PartyId} (accepted : List.Forall₂ (fun name id => ofName name = .ok id) names ids) :
    List.Forall₂ RosterEntry.Stands (withKey ring key names).parties
      (ids.map fun id => ⟨id, key⟩) :=
  List.forall₂_map_left_iff.2 (List.forall₂_map_right_iff.2
    (accepted.imp fun _ _ id => ⟨id, PublicKey.ofText_encode _ key⟩))

/-- A ring of three parties with one letter each. -/
def Roster.letters : Roster where
  name := "ring"
  parties := [⟨.ofLetter 97, default⟩, ⟨.ofLetter 98, default⟩, ⟨.ofLetter 99, default⟩]
  minSize_le := by decide
  size_lt := by decide
  nodup := by decide

theorem toRoster_letters :
    (RosterFile.withKey "ring" default ["a", "b", "c"]).toRoster = .ok Roster.letters := by
  have accepted : List.Forall₂ (fun name id => ofName name = .ok id) ["a", "b", "c"]
      [.ofLetter 97, .ofLetter 98, .ofLetter 99] := .cons rfl (.cons rfl (.cons rfl .nil))
  exact RosterFile.toRoster_eq_ok_iff.2 ⟨rfl, RosterFile.withKey_stands "ring" default accepted⟩

theorem letters_found : ∃ (f : RosterFile) (b c : PartyId), ofName "b" = .ok b ∧
    ofName "c" = .ok c ∧ b ≠ c ∧ b.name = "b" ∧ f.toRoster = .ok Roster.letters ∧
    Roster.letters.position? b = some 1 ∧ f.position "b" = .ok 1 := by
  have b : ofName "b" = .ok (.ofLetter 98) := rfl
  have c : ofName "c" = .ok (.ofLetter 99) := rfl
  obtain ⟨-, named, apart, -, -, -, found⟩ :=
    identifiers_follow_names b c (.withKey "ring" default ["a", "b", "c"])
  have place := (found _ toRoster_letters).2.2 (by decide) (by decide)
  refine ⟨_, _, _, b, c, ?_, named.2 (by decide), toRoster_letters, rfl, place⟩
  rw [ne_eq, apart]
  decide

/-- A name that ends in a zero has the identifier of the name without it. A file with both names is
refused, and in a ring with one of them the other one has its place, though not in the file. -/
theorem zero_at_end_confuses :
    (∃ id, ofName "a\x00" = .ok id ∧ ofName "a" = .ok id ∧ id.name = "a") ∧
    (∃ f : RosterFile, (f.parties.map (·.name)).Nodup ∧ f.toRoster =
      .error (.config (.roster (.invalidRoster (.repeatedParty "ring" "a"))))) ∧
    ∃ (f : RosterFile) (id : PartyId), f.toRoster = .ok Roster.letters ∧
      ofName "a\x00" = .ok id ∧ Roster.letters.position? id = some 0 ∧
      f.position "a\x00" = .error (.config (.notMember "a\x00" "ring")) := by
  have a : ofName "a" = .ok (.ofLetter 97) := rfl
  have zero : ofName "a\x00" = .ok (.ofLetter 97) := rfl
  have b : ofName "b" = .ok (.ofLetter 98) := rfl
  refine ⟨⟨_, zero, a, by decide +kernel⟩, ?_, ⟨_, _, toRoster_letters, zero, rfl, rfl⟩⟩
  refine ⟨.withKey "ring" default ["a", "a\x00", "b"], by decide, ?_⟩
  have stand := RosterFile.withKey_stands "ring" default (.cons a (.cons zero (.cons b .nil)))
  rw [RosterFile.toRoster_of_stands stand]
  rfl

end RingAgreement
