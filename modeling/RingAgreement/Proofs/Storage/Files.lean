import Mathlib
import RingAgreement.CommandLine.Task
import RingAgreement.Keys.MlKem768
import RingAgreement.Proofs.Json.Pretty
import RingAgreement.Proofs.Storage.Directory
import RingAgreement.Proofs.Storage.Rings
import RingAgreement.Proofs.Text.Utf8
/-!
Key files and roster files that have been written are read back unchanged, whatever texts they hold.
So a key pair survives on disk, and a ring that is put together from key files lists their owners
with their keys, each in the place in which the file and the ring find it.
-/

namespace RingAgreement

open CommandLine

variable {d d' : Directory} {path content : String}

namespace Json

/-- The file of a document is read as what the document says. -/
theorem ofFile_toFile {α : Type} {document : Json} (proper : document.Proper)
    {decode? : Json → Option α} {value : α} (meaning : decode? document = some value) :
    Json.ofFile path decode? (some (Text.utf8 document.toFile)) = .ok value := by
  rw [ofFile, Option.bind_some, Text.ofUtf8?_utf8]
  simp only [toFile, parse?_toFile proper, Option.bind_eq_bind, Option.bind_some, meaning]

end Json

namespace KeyFile

theorem proper_toDocument (f : KeyFile) : f.toDocument.Proper := by
  refine .object ?_ ?_
  · simp
  · simpa using ⟨Json.Proper.text f.name, .text f.publicKey, .text f.secretKey⟩

theorem ofDocument?_toDocument (f : KeyFile) : ofDocument? f.toDocument = some f := by
  rfl

theorem load_toFile (f : KeyFile) : load path (some (Text.utf8 f.toFile)) = .ok f :=
  Json.ofFile_toFile f.proper_toDocument f.ofDocument?_toDocument

end KeyFile

namespace RosterEntry

theorem proper_toDocument (e : RosterEntry) : e.toDocument.Proper := by
  refine .object ?_ ?_
  · simp
  · simpa using ⟨Json.Proper.text e.name, .text e.publicKey⟩

theorem ofDocument?_toDocument (e : RosterEntry) : ofDocument? e.toDocument = some e := by
  rfl

end RosterEntry

namespace RosterFile

theorem proper_toDocument (f : RosterFile) : f.toDocument.Proper := by
  refine .object ?_ ?_
  · simp
  · have parties : (Json.array (f.parties.map RosterEntry.toDocument)).Proper := by
      refine .array fun item member => ?_
      obtain ⟨entry, -, rfl⟩ := List.mem_map.1 member
      exact entry.proper_toDocument
    simpa using ⟨Json.Proper.text f.name, parties⟩

theorem ofDocument?_toDocument (f : RosterFile) : ofDocument? f.toDocument = some f := by
  have entries (parties : List RosterEntry) :
      (parties.map RosterEntry.toDocument).mapM RosterEntry.ofDocument? = some parties := by
    induction parties with
    | nil => rfl
    | cons entry parties ih =>
      rw [List.map_cons, List.mapM_cons, ih, RosterEntry.ofDocument?_toDocument]
      rfl
  change (do return (⟨f.name, ← (f.parties.map RosterEntry.toDocument).mapM
    RosterEntry.ofDocument?⟩ : RosterFile)) = some f
  rw [entries]
  rfl

theorem load_toFile (f : RosterFile) : load path (some (Text.utf8 f.toFile)) = .ok f :=
  Json.ofFile_toFile f.proper_toDocument f.ofDocument?_toDocument

end RosterFile

/-! ## Rings of key files -/

/-- A key file has the identifier of a party, and a key pair with its public key. -/
structure KeyFile.BelongsTo (key : KeyFile) (party : Party) : Prop where
  id : PartyId.ofName key.name = .ok party.id
  keypair : ∃ pair, key.keypair = .ok pair ∧ pair.publicKey = party.publicKey

namespace KeyFile

variable {key : KeyFile} {party : Party} {pair : Keypair} {keys : List KeyFile}

theorem publicKey_of_keypair (read : key.keypair = .ok pair) :
    PublicKey.ofText key.name key.publicKey = .ok pair.publicKey := by
  rw [keypair] at read
  obtain ⟨publicKey, first, read⟩ := bind_eq_ok_iff.1 read
  obtain ⟨secretKey, second, read⟩ := bind_eq_ok_iff.1 read
  rw [first, ← Except.ok.inj read]

/-- The entry that a ring gets for a key file. -/
def entry (key : KeyFile) : RosterEntry := ⟨key.name, key.publicKey⟩

theorem BelongsTo.stands (belongs : key.BelongsTo party) : key.entry.Stands party := by
  obtain ⟨pair, read, same⟩ := belongs.keypair
  refine ⟨belongs.id, ?_⟩
  rw [← same]
  exact publicKey_of_keypair read

theorem belongsTo_ofKeypair {name : String} {id : PartyId} (accepted : PartyId.ofName name = .ok id)
    (pair : Keypair) : (ofKeypair name pair).BelongsTo ⟨id, pair.publicKey⟩ :=
  ⟨accepted, pair, keypair_ofKeypair name pair, rfl⟩

theorem exists_parties (owned : ∀ key ∈ keys, ∃ party, key.BelongsTo party) :
    ∃ parties, List.Forall₂ BelongsTo keys parties := by
  induction keys with
  | nil => exact ⟨[], .nil⟩
  | cons key keys ih =>
    obtain ⟨party, belongs⟩ := owned key List.mem_cons_self
    obtain ⟨parties, rest⟩ := ih fun other member => owned other (List.mem_cons_of_mem _ member)
    exact ⟨party :: parties, .cons belongs rest⟩

theorem map_ofName {parties : List Party} (belong : List.Forall₂ BelongsTo keys parties) :
    keys.map (PartyId.ofName ·.name) = (parties.map (·.id)).map .ok := by
  induction belong with
  | nil => rfl
  | cons first _ ih =>
    rw [List.map_cons, List.map_cons, List.map_cons, ih, first.id]

end KeyFile

namespace RosterFile

variable {ring : String} {keys : List KeyFile} {parties : List Party}

theorem parties_ofKeys : (ofKeys ring keys).parties = keys.map KeyFile.entry := rfl

theorem stands_ofKeys (belong : List.Forall₂ KeyFile.BelongsTo keys parties) :
    List.Forall₂ RosterEntry.Stands (ofKeys ring keys).parties parties := by
  rw [parties_ofKeys, List.forall₂_map_left_iff]
  exact belong.imp fun _ _ => KeyFile.BelongsTo.stands

section Distinct

variable (distinct : (keys.map (PartyId.ofName ·.name)).Nodup)

include distinct

theorem position_ofKeys {i : Nat} {key : KeyFile} (there : keys[i]? = some key) :
    (ofKeys ring keys).position key.name = .ok i := by
  have names : ((keys.map KeyFile.entry).map (·.name)).Nodup := by
    apply List.Nodup.of_map PartyId.ofName
    rw [List.map_map, List.map_map]
    exact distinct
  have entry : (keys.map KeyFile.entry)[i]? = some key.entry := by
    rw [List.getElem?_map, there, Option.map_some]
  have found : (ofKeys ring keys).parties.findIdx? (·.name = key.name) = some i :=
    findIdx?_of_nodup names entry
  rw [position, found]

/-- The owners of enough key files, and not too many, form a ring in the order of the files. -/
theorem exists_toRoster_ofKeys (belong : List.Forall₂ KeyFile.BelongsTo keys parties)
    (enough : minRingSize ≤ keys.length) (few : keys.length < UInt32.size) :
    ∃ roster, (ofKeys ring keys).toRoster = .ok roster ∧ roster.name = ring ∧
      roster.parties = parties := by
  have nodup : (parties.map (·.id)).Nodup := by
    apply List.Nodup.of_map Except.ok
    rw [← KeyFile.map_ofName belong]
    exact distinct
  have length := belong.length_eq
  let roster : Roster := ⟨ring, parties, length ▸ enough, length ▸ few, nodup⟩
  exact ⟨roster, toRoster_eq_ok_iff.2 ⟨rfl, stands_ofKeys belong⟩, rfl, rfl⟩

theorem place_ofKeys {roster : Roster} (made : (ofKeys ring keys).toRoster = .ok roster) {i : Nat}
    {key : KeyFile} (there : keys[i]? = some key) :
    (ofKeys ring keys).place key = .ok (roster, i) := by
  have entry : (ofKeys ring keys).parties[i]?.map (·.publicKey) = some key.publicKey := by
    rw [parties_ofKeys, List.getElem?_map, there]
    rfl
  rw [place, position_ofKeys distinct there]
  simp only [bind, Except.bind, entry, made, ne_eq, not_true_eq_false, if_false]
  rfl

end Distinct

theorem toRoster_ofKeys_of_size_le (belong : List.Forall₂ KeyFile.BelongsTo keys parties)
    (many : UInt32.size ≤ keys.length) : (ofKeys ring keys).toRoster =
      .error (.config (.roster (.invalidRoster (.tooManyParties ring)))) := by
  rw [toRoster_of_stands (stands_ofKeys belong), Roster.make_of_size_le (belong.length_eq ▸ many)]
  rfl

end RosterFile

theorem offline_write (written : d.write? path (Text.utf8 content) = some d') :
    (Effect.write path content).offline d = .ok d' := by
  rw [Effect.offline, written]

/-- Key files and roster files are read back as they were written, whatever texts they hold,
wherever a file can be written. A fresh key file holds the generated pair. From the key files of
three or more parties with different identifiers a ring is made that lists each party in the place
of its file, with its identifier and its key, and both the file and the ring find it there; only a
ring that is too large for its indices is refused. -/
theorem files_read_back (K : Kem) (writable : d.Writable path) :
    (∀ f : KeyFile, ∃ d', (Effect.write path f.toFile).offline d = .ok d' ∧
      KeyFile.load path (d'.read? path) = .ok f) ∧
    (∀ f : RosterFile, ∃ d', (Effect.write path f.toFile).offline d = .ok d' ∧
      RosterFile.load path (d'.read? path) = .ok f) ∧
    (∀ (name : String) (id : PartyId) (seed : Bytes 32), PartyId.ofName name = .ok id →
      ∃ f d', KeyFile.generate K name seed = .ok f ∧
        (Effect.write path f.toFile).offline d = .ok d' ∧
        (KeyFile.load path (d'.read? path) >>= KeyFile.keypair) = .ok (K.keypair seed) ∧
        f.BelongsTo ⟨id, (K.keypair seed).publicKey⟩) ∧
    ∀ (ring : String) (keys : List KeyFile), minRingSize ≤ keys.length →
      (∀ key ∈ keys, ∃ party, key.BelongsTo party) →
      (keys.map (PartyId.ofName ·.name)).Nodup →
      ∃ d' file, (Effect.write path (RosterFile.ofKeys ring keys).toFile).offline d = .ok d' ∧
        RosterFile.load path (d'.read? path) = .ok file ∧
        (∀ i key, keys[i]? = some key → file.position key.name = .ok i) ∧
        if keys.length < UInt32.size then
          ∃ roster, file.toRoster = .ok roster ∧ roster.name = ring ∧
            List.Forall₂ KeyFile.BelongsTo keys roster.parties ∧
            ∀ i key, keys[i]? = some key → file.place key = .ok (roster, i) ∧
              ∃ id, PartyId.ofName key.name = .ok id ∧ roster.position? id = some i
        else
          file.toRoster = .error (.config (.roster (.invalidRoster (.tooManyParties ring)))) := by
  have saved (text : String) : ∃ d', (Effect.write path text).offline d = .ok d' ∧
      d'.read? path = some (Text.utf8 text) := by
    obtain ⟨d', written⟩ := Directory.exists_write?_iff.2 writable
    exact ⟨d', offline_write written, Directory.read?_write? written⟩
  refine ⟨?_, ?_, ?_, ?_⟩
  · intro f
    obtain ⟨d', written, read⟩ := saved f.toFile
    exact ⟨d', written, read ▸ f.load_toFile⟩
  · intro f
    obtain ⟨d', written, read⟩ := saved f.toFile
    exact ⟨d', written, read ▸ f.load_toFile⟩
  · intro name id seed accepted
    obtain ⟨d', written, read⟩ := saved (KeyFile.ofKeypair name (K.keypair seed)).toFile
    refine ⟨_, d', KeyFile.generate_eq_ok_iff.2 ⟨⟨id, accepted⟩, rfl⟩, written, ?_,
      KeyFile.belongsTo_ofKeypair accepted _⟩
    rw [read, KeyFile.load_toFile]
    exact KeyFile.keypair_ofKeypair name (K.keypair seed)
  · intro ring keys enough owned distinct
    obtain ⟨d', written, read⟩ := saved (RosterFile.ofKeys ring keys).toFile
    obtain ⟨parties, belong⟩ := KeyFile.exists_parties owned
    refine ⟨d', _, written, read ▸ RosterFile.load_toFile _,
      fun i key there => RosterFile.position_ofKeys distinct there, ?_⟩
    split
    next few =>
      obtain ⟨roster, made, name, same⟩ :=
        RosterFile.exists_toRoster_ofKeys distinct belong enough few
      refine ⟨roster, made, name, same ▸ belong, fun i key there => ?_⟩
      obtain ⟨party, seated, belongs⟩ := exists_getElem?_of_forall₂ (same ▸ belong) there
      exact ⟨RosterFile.place_ofKeys distinct made there, party.id, belongs.id,
        findIdx?_of_nodup roster.nodup seated⟩
    next many => exact RosterFile.toRoster_ofKeys_of_size_le belong (Nat.not_lt.1 many)

theorem Directory.empty_writable : Directory.empty.Writable "r" := by
  have parts : "r".splitOn "/" = ["r"] := by cbv
  have short : ¬maxPathBytes < "r".utf8ByteSize := by decide
  refine ⟨["r"], ?_, rfl, rfl⟩
  rw [resolve?, parts, if_neg (by simp [short])]
  rfl

/-- Three parties make their key files and a ring of them, and the second one finds itself in it. -/
theorem letters_written_and_read : Directory.empty.Writable "r" ∧
    ∃ a b c d' file roster, KeyFile.generate .mlKem768 "a" (.replicate 32 1) = .ok a ∧
      KeyFile.generate .mlKem768 "b" (.replicate 32 2) = .ok b ∧
      KeyFile.generate .mlKem768 "c" (.replicate 32 3) = .ok c ∧
      (Effect.write "r" (RosterFile.ofKeys "ring" [a, b, c]).toFile).offline .empty = .ok d' ∧
      RosterFile.load "r" (d'.read? "r") = .ok file ∧ file.place b = .ok (roster, 1) := by
  have results := files_read_back .mlKem768 Directory.empty_writable
  obtain ⟨a, -, madeA, -, -, ownA⟩ := results.2.2.1 "a" (.ofLetter 97) (.replicate 32 1) rfl
  obtain ⟨b, -, madeB, -, -, ownB⟩ := results.2.2.1 "b" (.ofLetter 98) (.replicate 32 2) rfl
  obtain ⟨c, -, madeC, -, -, ownC⟩ := results.2.2.1 "c" (.ofLetter 99) (.replicate 32 3) rfl
  have distinct : ([a, b, c].map (PartyId.ofName ·.name)).Nodup := by
    rw [KeyFile.map_ofName (.cons ownA (.cons ownB (.cons ownC .nil)))]
    change ([.ofLetter 97, .ofLetter 98, .ofLetter 99].map
      (Except.ok : PartyId → Except CryptoError PartyId)).Nodup
    decide
  obtain ⟨d', file, written, read, -, ring⟩ := results.2.2.2 "ring" [a, b, c] (Nat.le_refl 3)
    (by simpa using ⟨⟨_, ownA⟩, ⟨_, ownB⟩, ⟨_, ownC⟩⟩) distinct
  have few : [a, b, c].length < UInt32.size := (by decide : 3 < UInt32.size)
  rw [if_pos few] at ring
  obtain ⟨roster, -, -, -, placed⟩ := ring
  exact ⟨Directory.empty_writable, a, b, c, d', file, roster, madeA, madeB, madeC, written, read,
    (placed 1 b rfl).1⟩

end RingAgreement
