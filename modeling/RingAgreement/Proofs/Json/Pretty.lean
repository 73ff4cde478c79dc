import RingAgreement.Proofs.Json.RoundTrip
/-!
Documents are read back from their text on indented lines. Line ends and indentation are blanks
between the tokens, so the text spells the same tokens as the compact one.
-/

namespace RingAgreement.Json

section Blanks

variable {text : List Char} {tokens : List Token}

theorem spells_blanks {blanks : List Char} (space : ∀ c ∈ blanks, isSpace c = true)
    (behind : Spells text tokens) : Spells (blanks ++ text) tokens := by
  induction blanks with
  | nil => exact behind
  | cons c blanks ih =>
    apply Spells.blank (space c List.mem_cons_self)
    exact ih fun other member => space other (List.mem_cons_of_mem _ member)

theorem isSpace_newLine (level : Nat) : ∀ c ∈ newLine level, isSpace c = true := by
  intro c member
  rw [newLine, List.mem_cons, List.mem_replicate] at member
  rcases member with rfl | ⟨-, rfl⟩
  · decide
  · decide

theorem Prints.onLine (level : Nat) (prints : Prints text tokens) :
    Prints (newLine level ++ text) tokens := by
  intro rest later stops behind
  rw [List.append_assoc]
  exact spells_blanks (isSpace_newLine level) (prints rest later stops behind)

/-- A line end behind a text ends a number in it. -/
theorem Prints.endLine (level : Nat) (prints : Prints text tokens) :
    Prints (text ++ newLine level) tokens := by
  intro rest later _ behind
  rw [List.append_assoc]
  exact prints _ _ (stops_cons (by decide) _) (spells_blanks (isSpace_newLine level) behind)

theorem Prints.afterBlank (prints : Prints text tokens) : Prints (' ' :: text) tokens :=
  fun rest later stops behind => .blank (by decide) (prints rest later stops behind)

end Blanks

theorem prints_indentedItems {level : Nat} {items : List Json}
    (each : ∀ item ∈ items, Prints (indented level item) item.tokens) :
    Prints (indentedItems level items) (itemTokens items) := by
  induction items with
  | nil => exact prints_nil
  | cons item items ih =>
    have first := (each item List.mem_cons_self).onLine level
    cases items with
    | nil => exact first
    | cons next items =>
      rw [indentedItems.eq_3 _ _ _ (by simp), itemTokens.eq_3 _ _ (by simp)]
      exact first.comma (ih fun other member => each other (List.mem_cons_of_mem _ member))

theorem prints_indentedMembers {level : Nat} {members : List (Option String × Json)}
    (keyed : ∀ m ∈ members, m.1.isSome)
    (each : ∀ m ∈ members, Prints (indented level m.2) m.2.tokens) :
    Prints (indentedMembers level members) (memberTokens members) := by
  induction members with
  | nil => exact prints_nil
  | cons member members ih =>
    obtain ⟨key, value⟩ := member
    obtain ⟨key, rfl⟩ := Option.isSome_iff_exists.1 (keyed _ List.mem_cons_self)
    have first : Prints (indented level value) value.tokens := each _ List.mem_cons_self
    have line := (first.afterBlank.member key).onLine level
    rw [← List.append_assoc] at line
    cases members with
    | nil => exact line
    | cons next members =>
      rw [indentedMembers.eq_3 _ _ _ _ (by simp), memberTokens.eq_3 _ _ _ (by simp)]
      exact line.comma (ih (fun other known => keyed other (List.mem_cons_of_mem _ known))
        fun other known => each other (List.mem_cons_of_mem _ known))

theorem Proper.prints_indented {doc : Json} (proper : doc.Proper) (level : Nat) :
    Prints (indented level doc) doc.tokens := by
  induction proper generalizing level with
  | null => exact Proper.null.prints
  | bool value =>
    cases value with
    | true => exact (Proper.bool true).prints
    | false => exact (Proper.bool false).prints
  | integer n => exact prints_ofInt n
  | text s => exact (Proper.text s).prints
  | @array items each ih =>
    cases items with
    | nil => exact prints_nil.array
    | cons item items =>
      have inner := prints_indentedItems fun other member => ih other member (level + 1)
      exact (inner.endLine level).array
  | @object members keyed each ih =>
    cases members with
    | nil => exact prints_nil.object
    | cons member members =>
      have inner := prints_indentedMembers keyed fun other member => ih other member (level + 1)
      exact (inner.endLine level).object

/-- The indented text of a document, with the line end behind it, is read as the document. -/
theorem parse?_toFile {doc : Json} (proper : doc.Proper) :
    parse? (String.ofList doc.pretty ++ "\n").toList = some doc := by
  have spells := (proper.prints_indented 0).endLine 0 [] [] stops_nil .done
  rw [List.append_nil, List.append_nil] at spells
  rw [String.toList_append, String.toList_ofList]
  exact parse?_of_spells proper spells

end RingAgreement.Json
