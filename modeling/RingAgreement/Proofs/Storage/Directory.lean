import Mathlib.Data.List.Infix
import RingAgreement.Storage.Directory
/-!
A directory after a file has been written. The folders are the ones that there were, so every path
leads where it did, and what has been written is read at its path.
-/

namespace RingAgreement.Directory

variable {d d' : Directory} {place : FilePath} {path : String} {content : List UInt8}

theorem isFolder_iff : d.isFolder place = true ↔
    place = [] ∨ ∃ f ∈ d.files, place <+: f.1 ∧ place ≠ f.1 := by
  simp [isFolder]

theorem isFolder_of_prefix {outer : FilePath} (inside : outer <+: place)
    (folder : d.isFolder place = true) : d.isFolder outer = true := by
  rw [isFolder_iff] at folder ⊢
  rcases folder with rfl | ⟨f, member, above, other⟩
  · exact .inl (List.prefix_nil.1 inside)
  · refine .inr ⟨f, member, inside.trans above, ?_⟩
    rintro rfl
    exact other (above.eq_of_length_le inside.length_le)

/-- A path that leads to a file or to nothing, in a folder that exists. -/
def Writable (d : Directory) (path : String) : Prop :=
  ∃ place, d.resolve? path = some place ∧ d.isFolder place = false ∧
    d.isFolder place.dropLast = true

theorem write?_eq_some_iff : d.write? path content = some d' ↔
    ∃ place, d.resolve? path = some place ∧ d.isFolder place = false ∧
      d.isFolder place.dropLast = true ∧
      d' = ⟨(place, content) :: d.files.filter (·.1 ≠ place)⟩ := by
  rw [write?]
  cases d.resolve? path with
  | none => simp
  | some place =>
    simp only [Option.bind_eq_bind, Option.bind_some, Option.some.injEq, exists_eq_left']
    cases d.isFolder place <;> cases d.isFolder place.dropLast <;> simp [eq_comm]

theorem exists_write?_iff : (∃ d', d.write? path content = some d') ↔ d.Writable path := by
  constructor
  · rintro ⟨d', written⟩
    obtain ⟨place, leads, file, folder, -⟩ := write?_eq_some_iff.1 written
    exact ⟨place, leads, file, folder⟩
  · rintro ⟨place, leads, file, folder⟩
    exact ⟨_, write?_eq_some_iff.2 ⟨place, leads, file, folder, rfl⟩⟩

/-- Writing a file makes no folder and removes none. -/
theorem isFolder_write? (written : d.write? path content = some d') (other : FilePath) :
    d'.isFolder other = d.isFolder other := by
  obtain ⟨place, -, file, folder, rfl⟩ := write?_eq_some_iff.1 written
  rw [Bool.eq_iff_iff]
  constructor
  · intro after
    rcases isFolder_iff.1 after with rfl | ⟨f, member, above, ne⟩
    · rfl
    rcases List.mem_cons.1 member with rfl | old
    · -- A folder above the file is the folder of the file or above it.
      apply isFolder_of_prefix _ folder
      have parts := List.dropLast_append_getLast (l := place) (by rintro rfl; cases file)
      rw [← parts, List.prefix_concat_iff] at above
      exact above.resolve_left fun same => ne (same.trans parts)
    · exact isFolder_iff.2 (.inr ⟨f, (List.mem_filter.1 old).1, above, ne⟩)
  · intro before
    rcases isFolder_iff.1 before with rfl | ⟨f, member, above, ne⟩
    · rfl
    refine isFolder_iff.2 (.inr ?_)
    by_cases here : f.1 = place
    · exact ⟨(place, content), List.mem_cons_self, here ▸ above, here ▸ ne⟩
    · refine ⟨f, List.mem_cons_of_mem _ (List.mem_filter.2 ⟨member, ?_⟩), above, ne⟩
      simpa using here

theorem follow?_congr (same : ∀ place, d'.isFolder place = d.isFolder place) (place : FilePath)
    (parts : List String) : d'.follow? place parts = d.follow? place parts := by
  fun_induction d.follow? place parts with
  | case1 place => rw [follow?]
  | case2 place rest ih => rw [follow?, ih]
  | case3 place rest ih => rw [follow?, ih]
  | case4 place rest outside => rw [follow?, if_pos outside]
  | case5 place rest inside ih => rw [follow?, if_neg inside, ih]
  | case6 place part rest named here up long => rw [follow?, if_pos long] <;> assumption
  | case7 place part rest named here up short last =>
    rw [follow?, if_neg short, if_pos last] <;> assumption
  | case8 place part rest named here up short more folder ih =>
    rw [follow?, if_neg short, if_neg more, if_pos ((same _).trans folder), ih] <;> assumption
  | case9 place part rest named here up short more folder =>
    rw [follow?, if_neg short, if_neg more, if_neg (by rw [same]; exact folder)] <;> assumption

theorem resolve?_write? (written : d.write? path content = some d') (other : String) :
    d'.resolve? other = d.resolve? other := by
  rw [resolve?, resolve?, follow?_congr (isFolder_write? written)]

/-- What has been written is read. -/
theorem read?_write? (written : d.write? path content = some d') :
    d'.read? path = some content := by
  obtain ⟨place, leads, -, -, after⟩ := write?_eq_some_iff.1 written
  rw [← resolve?_write? written path] at leads
  rw [read?, leads, after]
  simp

end RingAgreement.Directory
