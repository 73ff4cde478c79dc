import RingAgreement.Proofs.Json.Scan
/-!
Documents are read back from their compact text. The text is the sequence of the document's tokens,
and the reader takes the tokens of a document as that document. The compact text stands on one line.
-/

namespace RingAgreement

namespace Json

/-- Documents that a text can stand for: every number is an integer, and every string and key
carries its text. -/
inductive Proper : Json → Prop
  | null : Proper .null
  | bool (value : Bool) : Proper (.bool value)
  | integer (n : Int) : Proper (.ofInt n)
  | text (s : String) : Proper (.text (some s))
  | array {items : List Json} (each : ∀ item ∈ items, Proper item) : Proper (.array items)
  | object {members : List (Option String × Json)} (keyed : ∀ m ∈ members, m.1.isSome)
      (each : ∀ m ∈ members, Proper m.2) : Proper (.object members)

mutual

/-- The tokens of a document. -/
def tokens : Json → List Token
  | .null => [.null]
  | .bool value => [.bool value]
  | .number literal => [.number literal]
  | .text s => [.text s]
  | .array items => .beginArray :: (itemTokens items ++ [.endArray])
  | .object members => .beginObject :: (memberTokens members ++ [.endObject])

def itemTokens : List Json → List Token
  | [] => []
  | [item] => tokens item
  | item :: rest => tokens item ++ .comma :: itemTokens rest

def memberTokens : List (Option String × Json) → List Token
  | [] => []
  | [(key, value)] => .text key :: .colon :: tokens value
  | (key, value) :: rest => .text key :: .colon :: (tokens value ++ .comma :: memberTokens rest)

end

/-! ## From texts to tokens -/

/-- A text is made of tokens, with blanks between them. -/
inductive Spells : List Char → List Token → Prop
  | done : Spells [] []
  | blank {c : Char} {text : List Char} {tokens : List Token} (space : isSpace c = true)
      (rest : Spells text tokens) : Spells (c :: text) tokens
  | token {c : Char} (front : List Char) {text : List Char} {token : Token} {tokens : List Token}
      (visible : isSpace c = false)
      (scanned : scanToken (c :: (front ++ text)) = some (token, text))
      (rest : Spells text tokens) : Spells (c :: (front ++ text)) (token :: tokens)

theorem tokensWithin_of_spells {text : List Char} {tokens : List Token}
    (spells : Spells text tokens) {fuel : Nat} (enough : text.length ≤ fuel)
    (collected : List Token) :
    tokensWithin fuel collected text = some (collected.reverse ++ tokens) := by
  induction spells generalizing fuel collected with
  | done => simp [tokensWithin]
  | blank space _ ih =>
    obtain ⟨fuel, rfl⟩ := Nat.exists_eq_add_one_of_ne_zero (show fuel ≠ 0 by simp at enough; omega)
    rw [tokensWithin, if_pos space]
    exact ih (by simpa using enough) collected
  | @token c front text token tokens visible scanned _ ih =>
    obtain ⟨fuel, rfl⟩ := Nat.exists_eq_add_one_of_ne_zero (show fuel ≠ 0 by simp at enough; omega)
    rw [tokensWithin, if_neg (by simp [visible]), scanned]
    dsimp only
    rw [ih (by simp at enough; omega), List.reverse_cons, List.append_assoc]
    rfl

theorem tokens?_of_spells {text : List Char} {tokens : List Token} (spells : Spells text tokens) :
    tokens? text = some tokens :=
  tokensWithin_of_spells spells (Nat.le_refl _) []

section Spells

variable {rest : List Char} {later : List Token}

theorem Spells.symbol {c : Char} {token : Token}
    (scanned : scanToken (c :: rest) = some (token, rest)) (behind : Spells rest later)
    (visible : isSpace c = false := by decide) : Spells (c :: rest) (token :: later) :=
  .token [] visible scanned behind

theorem spells_quote (s : String) (behind : Spells rest later) :
    Spells (quote s ++ rest) (.text (some s) :: later) := by
  have scanned := scanToken_quote s rest
  rw [quote, List.cons_append] at scanned ⊢
  exact .token _ (by decide) scanned behind

theorem isSpace_of_beginsNumber {c : Char} (begins : beginsNumber c = true) :
    isSpace c = false := by
  by_contra space
  simp only [isSpace, Bool.not_eq_false, Bool.or_eq_true, decide_eq_true_eq] at space
  rcases space with ((rfl | rfl) | rfl) | rfl <;> cases begins

end Spells

/-- A text is made of tokens, whatever follows that does not continue a number. -/
def Prints (text : List Char) (tokens : List Token) : Prop :=
  ∀ rest later, Stops rest → Spells rest later → Spells (text ++ rest) (tokens ++ later)

theorem prints_ofInt (n : Int) : Prints (ofInt n).compact (ofInt n).tokens := by
  intro rest later stops behind
  have scanned := scanToken_toString stops n
  obtain ⟨c, front, literal, begins⟩ := exists_front_toString n
  rw [ofInt, compact, tokens, List.singleton_append]
  rw [literal, List.cons_append] at scanned ⊢
  exact .token _ (isSpace_of_beginsNumber begins) scanned behind

section Prints

variable {text text' : List Char} {tokens tokens' : List Token}

theorem Prints.comma (first : Prints text tokens) (next : Prints text' tokens') :
    Prints (text ++ ',' :: text') (tokens ++ .comma :: tokens') := by
  intro rest later stops behind
  rw [List.append_assoc, List.append_assoc]
  exact first _ _ (stops_cons (by decide) _) (.symbol rfl (next _ _ stops behind))

theorem Prints.member (key : String) (value : Prints text tokens) :
    Prints (quote key ++ ':' :: text) (.text (some key) :: .colon :: tokens) := by
  intro rest later stops behind
  rw [List.append_assoc]
  exact spells_quote key (.symbol rfl (value _ _ stops behind))

theorem Prints.array (items : Prints text tokens) :
    Prints ('[' :: (text ++ [']'])) (.beginArray :: (tokens ++ [.endArray])) := by
  intro rest later _ behind
  rw [List.cons_append, List.cons_append, List.append_assoc, List.append_assoc]
  exact .symbol rfl (items _ _ (stops_cons (by decide) _) (.symbol rfl behind))

theorem Prints.object (members : Prints text tokens) :
    Prints ('\x7b' :: (text ++ ['\x7d'])) (.beginObject :: (tokens ++ [.endObject])) := by
  intro rest later _ behind
  rw [List.cons_append, List.cons_append, List.append_assoc, List.append_assoc]
  exact .symbol rfl (members _ _ (stops_cons (by decide) _) (.symbol rfl behind))

end Prints

theorem prints_nil : Prints [] [] := fun _ _ _ behind => behind

theorem prints_items {items : List Json} (each : ∀ item ∈ items, Prints item.compact item.tokens) :
    Prints (compactItems items) (itemTokens items) := by
  induction items with
  | nil => exact prints_nil
  | cons item items ih =>
    have first := each item List.mem_cons_self
    cases items with
    | nil => exact first
    | cons next items =>
      rw [compactItems.eq_3 _ _ (by simp), itemTokens.eq_3 _ _ (by simp)]
      exact first.comma (ih fun other member => each other (List.mem_cons_of_mem _ member))

theorem prints_members {members : List (Option String × Json)}
    (keyed : ∀ m ∈ members, m.1.isSome) (each : ∀ m ∈ members, Prints m.2.compact m.2.tokens) :
    Prints (compactMembers members) (memberTokens members) := by
  induction members with
  | nil => exact prints_nil
  | cons member members ih =>
    obtain ⟨key, value⟩ := member
    obtain ⟨key, rfl⟩ := Option.isSome_iff_exists.1 (keyed _ List.mem_cons_self)
    have first : Prints value.compact value.tokens := each _ List.mem_cons_self
    cases members with
    | nil => exact first.member key
    | cons next members =>
      rw [compactMembers.eq_3 _ _ _ (by simp), memberTokens.eq_3 _ _ _ (by simp)]
      exact (first.comma (ih (fun other known => keyed other (List.mem_cons_of_mem _ known))
        fun other known => each other (List.mem_cons_of_mem _ known))).member key

theorem Proper.prints {doc : Json} (proper : doc.Proper) : Prints doc.compact doc.tokens := by
  induction proper with
  | null => exact fun rest later _ => .token ['u', 'l', 'l'] (by decide) rfl
  | bool value =>
    cases value with
    | true => exact fun rest later _ => .token ['r', 'u', 'e'] (by decide) rfl
    | false => exact fun rest later _ => .token ['a', 'l', 's', 'e'] (by decide) rfl
  | integer n => exact prints_ofInt n
  | text s => exact fun rest later _ => spells_quote s
  | array each ih => exact (prints_items ih).array
  | object keyed each ih => exact (prints_members keyed ih).object

/-! ## From tokens to documents -/

namespace Reader

/-- Where a value may stand. -/
def TakesValue (expect : Expect) : Prop := expect = .value ∨ expect = .valueOrEnd

/-- A reader takes tokens as a document. -/
def Takes (tokens : List Token) (doc : Json) : Prop :=
  ∀ stack expect later, TakesValue expect →
    run ⟨stack, expect⟩ (tokens ++ later) = (accept doc stack).bind (run · later)

theorem run_cons (r : Reader) (token : Token) (rest : List Token) :
    r.run (token :: rest) = (r.step token).bind (run · rest) := by
  rw [run]
  cases r.step token <;> rfl

theorem step_value {expect : Expect} (takes : TakesValue expect) {token : Token}
    (opens : token ≠ .endArray) (stack : List Frame) :
    step ⟨stack, expect⟩ token = beginValue stack token := by
  rcases takes with rfl | rfl
  · rfl
  · cases token <;> first | rfl | exact absurd rfl opens

theorem takes_single {token : Token} {doc : Json} (opens : token ≠ .endArray)
    (value : ∀ stack, beginValue stack token = accept doc stack) : Takes [token] doc := by
  intro stack expect later takes
  rw [List.singleton_append, run_cons, step_value takes opens, value]

/-- The items of an array that has begun, and its end. -/
theorem run_items {items : List Json} (each : ∀ item ∈ items, Takes item.tokens item)
    (collected : List Json) (stack : List Frame) (expect : Expect) (later : List Token)
    (begun : expect = .valueOrEnd ∨ items ≠ [] ∧ expect = .value) :
    run ⟨.array collected :: stack, expect⟩ (itemTokens items ++ .endArray :: later) =
      (accept (.array (collected.reverse ++ items)) stack).bind (run · later) := by
  induction items generalizing collected expect with
  | nil =>
    obtain rfl : expect = .valueOrEnd := by simpa using begun
    rw [List.append_nil]
    exact run_cons _ _ _
  | cons item items ih =>
    have takes : TakesValue expect := begun.elim .inr fun value => .inl value.2
    have first := each item List.mem_cons_self
    cases items with
    | nil =>
      rw [itemTokens, first _ _ _ takes]
      change run _ _ = _
      rw [run_cons]
      simp only [step, endArray, List.reverse_cons]
    | cons next items =>
      rw [itemTokens.eq_3 _ _ (by simp), List.append_assoc, first _ _ _ takes]
      change run _ _ = _
      rw [List.cons_append, run_cons]
      change run _ _ = _
      rw [ih (fun other member => each other (List.mem_cons_of_mem _ member)) _ _
        (.inr ⟨by simp, rfl⟩), List.reverse_cons, List.append_assoc]
      rfl

/-- The members of an object that has begun, and its end. -/
theorem run_members {members : List (Option String × Json)}
    (each : ∀ m ∈ members, Takes m.2.tokens m.2) (collected : List (Option String × Json))
    (stack : List Frame) (expect : Expect) (later : List Token)
    (begun : expect = .keyOrEnd ∨ members ≠ [] ∧ expect = .key) :
    run ⟨.object collected :: stack, expect⟩ (memberTokens members ++ .endObject :: later) =
      (accept (.object (collected.reverse ++ members)) stack).bind (run · later) := by
  induction members generalizing collected expect with
  | nil =>
    obtain rfl : expect = .keyOrEnd := by simpa using begun
    rw [List.append_nil]
    exact run_cons _ _ _
  | cons member members ih =>
    obtain ⟨key, value⟩ := member
    have first : Takes value.tokens value := each _ List.mem_cons_self
    have keyed : step ⟨.object collected :: stack, expect⟩ (.text key) =
        some ⟨.member collected key :: stack, .colon⟩ := by
      rcases begun with rfl | ⟨_, rfl⟩
      · rfl
      · rfl
    have colon : step ⟨.member collected key :: stack, .colon⟩ .colon =
        some ⟨.member collected key :: stack, .value⟩ := rfl
    cases members with
    | nil =>
      rw [memberTokens, List.cons_append, List.cons_append, run_cons, keyed, Option.bind_some,
        run_cons, colon, Option.bind_some, first _ _ _ (.inl rfl)]
      change run _ _ = _
      rw [run_cons]
      simp only [step, endObject, List.reverse_cons]
    | cons next members =>
      rw [memberTokens.eq_3 _ _ _ (by simp), List.cons_append, List.cons_append, run_cons, keyed,
        Option.bind_some, run_cons, colon, Option.bind_some, List.append_assoc,
        first _ _ _ (.inl rfl)]
      change run _ _ = _
      rw [List.cons_append, run_cons]
      change run _ _ = _
      rw [ih (fun other known => each other (List.mem_cons_of_mem _ known)) _ _
        (.inr ⟨by simp, rfl⟩), List.reverse_cons, List.append_assoc]
      rfl

theorem takes_tokens {doc : Json} (proper : doc.Proper) : Takes doc.tokens doc := by
  induction proper with
  | null => exact takes_single (by simp) fun _ => rfl
  | bool value => exact takes_single (by simp) fun _ => rfl
  | integer n => exact takes_single (by simp) fun _ => rfl
  | text s => exact takes_single (by simp) fun _ => rfl
  | array each ih =>
    intro stack expect later takes
    rw [tokens, List.cons_append, List.append_assoc, run_cons, step_value takes (by simp)]
    exact run_items ih [] stack _ later (.inl rfl)
  | object keyed each ih =>
    intro stack expect later takes
    rw [tokens, List.cons_append, List.append_assoc, run_cons, step_value takes (by simp)]
    exact run_members ih [] stack _ later (.inl rfl)

end Reader

/-- The document is what its tokens are read as, in whatever way a text spells them. -/
theorem parse?_of_spells {doc : Json} (proper : doc.Proper) {text : List Char}
    (spells : Spells text doc.tokens) : parse? text = some doc := by
  have read := Reader.takes_tokens proper [] .value [] (.inl rfl)
  rw [List.append_nil] at read
  rw [parse?, tokens?_of_spells spells]
  change (Reader.run ⟨[], .value⟩ _).bind _ = _
  rw [read]
  rfl

theorem parse?_compact {doc : Json} (proper : doc.Proper) : parse? doc.compact = some doc := by
  have spells := proper.prints [] [] stops_nil .done
  rw [List.append_nil, List.append_nil] at spells
  exact parse?_of_spells proper spells

/-! ## Integers -/

theorem magnitude?_toDigits {n : Nat} (short : (Nat.toDigits 10 n).length ≤ 19) :
    integerValue?.magnitude? (Nat.toDigits 10 n) = some (n : Int) := by
  have digits : (Nat.toDigits 10 n).all Char.isDigit = true :=
    List.all_eq_true.2 (isDigit_toDigits n)
  rw [integerValue?.magnitude?, if_pos ⟨digits, short⟩]
  exact congrArg (some ∘ Int.ofNat) Nat.ofDigitChars_ten_toDigits

/-- An integer of 64 bits is read back from its number. -/
theorem integer?_ofInt {n : Int} (lower : Int64.minValue.toInt ≤ n)
    (upper : n ≤ Int64.maxValue.toInt) : (ofInt n).integer? = some n := by
  have least : Int64.minValue.toInt = -9223372036854775808 := by decide
  have greatest : Int64.maxValue.toInt = 9223372036854775807 := by decide
  have short {m : Nat} (small : m ≤ 9223372036854775808) :
      (Nat.toDigits 10 m).length ≤ 19 :=
    (Nat.length_toDigits_le_iff (by decide) (by decide)).2 (by omega)
  have value : integerValue? (toString n).toList = some n := by
    rcases toList_toString_cases n with ⟨m, rfl, literal⟩ | ⟨m, rfl, literal⟩
    · rw [literal, integerValue?.eq_2]
      · exact magnitude?_toDigits (short (by omega))
      · intro text sign
        have digit := isDigit_toDigits m '-' (by rw [sign]; exact List.mem_cons_self)
        cases digit
    · rw [literal, integerValue?.eq_1, magnitude?_toDigits (short (by omega))]
      simp only [Option.bind_eq_bind, Option.bind_some]
      rw [if_neg (by omega)]
  rw [ofInt, integer?, value]
  simp only [Option.bind_eq_bind, Option.bind_some]
  rw [if_pos ⟨lower, upper⟩]

/-! ## One line -/

/-- Not a control character; a line break is one. -/
def Printable (c : Char) : Prop := 0x20 ≤ c.toNat

instance (c : Char) : Decidable (Printable c) := inferInstanceAs (Decidable (0x20 ≤ c.toNat))

/-- A decision that goes along the list, and never over all characters. -/
theorem forall_mem_of_all {p : Char → Prop} [DecidablePred p] {l : List Char}
    (all : (l.all fun c => decide (p c)) = true) : ∀ c ∈ l, p c :=
  fun c member => of_decide_eq_true (List.all_eq_true.1 all c member)

theorem printable_of_isDigit {c : Char} (digit : c.isDigit = true) : Printable c := by
  simp only [Char.isDigit, Bool.and_eq_true, decide_eq_true_eq] at digit
  have low : (48 : UInt32).toNat ≤ c.val.toNat := digit.1
  exact Nat.le_trans (by decide) low

theorem printable_toString (n : Int) : ∀ c ∈ (toString n).toList, Printable c := by
  intro c member
  rcases toList_toString_cases n with ⟨m, -, literal⟩ | ⟨m, -, literal⟩
  · rw [literal] at member
    exact printable_of_isDigit (isDigit_toDigits m c member)
  · rw [literal] at member
    rcases List.mem_cons.1 member with rfl | digit
    · decide
    · exact printable_of_isDigit (isDigit_toDigits _ c digit)

theorem printable_digitChar {n : Nat} (small : n < 16) : Printable (Nat.digitChar n) := by
  have all : ∀ n < 16, Printable (Nat.digitChar n) := by decide
  exact all n small

theorem printable_escape (c : Char) : ∀ d ∈ escape c, Printable d := by
  unfold escape
  split
  case h_8 =>
    split
    next control =>
      have high := printable_digitChar (show c.toNat / 16 < 16 by omega)
      have low := printable_digitChar (show c.toNat % 16 < 16 by omega)
      simpa [high, low] using (by decide : Printable '\\' ∧ Printable 'u' ∧ Printable '0')
    next printable => simpa [Printable] using printable
  all_goals exact forall_mem_of_all (by decide)

theorem printable_quote (s : String) : ∀ c ∈ quote s, Printable c := by
  intro c member
  rw [quote, List.mem_cons, List.mem_append, List.mem_flatMap, List.mem_singleton] at member
  rcases member with rfl | ⟨plain, -, within⟩ | rfl
  · decide
  · exact printable_escape plain c within
  · decide

theorem printable_items {items : List Json}
    (each : ∀ item ∈ items, ∀ c ∈ compact item, Printable c) :
    ∀ c ∈ compactItems items, Printable c := by
  induction items with
  | nil => simp [compactItems]
  | cons item items ih =>
    have first := each item List.mem_cons_self
    have others := ih fun other member => each other (List.mem_cons_of_mem _ member)
    cases items with
    | nil => exact first
    | cons next items =>
      intro c member
      rw [compactItems.eq_3 _ _ (by simp), List.mem_append, List.mem_cons] at member
      rcases member with here | rfl | later
      · exact first c here
      · decide
      · exact others c later

theorem printable_members {members : List (Option String × Json)}
    (keyed : ∀ m ∈ members, m.1.isSome) (each : ∀ m ∈ members, ∀ c ∈ compact m.2, Printable c) :
    ∀ c ∈ compactMembers members, Printable c := by
  induction members with
  | nil => simp [compactMembers]
  | cons member members ih =>
    obtain ⟨key, value⟩ := member
    obtain ⟨key, rfl⟩ := Option.isSome_iff_exists.1 (keyed _ List.mem_cons_self)
    have first : ∀ c ∈ compact value, Printable c := each _ List.mem_cons_self
    have others := ih (fun other known => keyed other (List.mem_cons_of_mem _ known))
      fun other known => each other (List.mem_cons_of_mem _ known)
    intro c member
    cases members with
    | nil =>
      rw [compactMembers, List.mem_append, List.mem_cons] at member
      rcases member with key | rfl | value
      · exact printable_quote _ c key
      · decide
      · exact first c value
    | cons next members =>
      rw [compactMembers.eq_3 _ _ _ (by simp), List.mem_append, List.mem_cons, List.mem_append,
        List.mem_cons] at member
      rcases member with key | rfl | value | rfl | later
      · exact printable_quote _ c key
      · decide
      · exact first c value
      · decide
      · exact others c later

/-- The compact text of a document stands on one line. -/
theorem Proper.printable {doc : Json} (proper : doc.Proper) : ∀ c ∈ doc.compact, Printable c := by
  induction proper with
  | null => exact forall_mem_of_all (by decide)
  | bool value => cases value <;> exact forall_mem_of_all (by decide)
  | integer n => exact printable_toString n
  | text s => exact printable_quote s
  | array each ih =>
    intro c member
    rw [compact, List.mem_cons, List.mem_append, List.mem_singleton] at member
    rcases member with rfl | items | rfl
    · decide
    · exact printable_items ih c items
    · decide
  | object keyed each ih =>
    intro c member
    rw [compact, List.mem_cons, List.mem_append, List.mem_singleton] at member
    rcases member with rfl | members | rfl
    · decide
    · exact printable_members keyed ih c members
    · decide

end Json

end RingAgreement
