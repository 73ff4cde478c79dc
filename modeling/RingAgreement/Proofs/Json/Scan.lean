import Mathlib.Data.List.Basic
import Mathlib.Data.List.TakeDrop
import RingAgreement.Json.Print
/-!
Scanning what was printed. The literal of an integer ends where the text goes on with something that
no number goes on with, and the literal of a string spells the characters that were escaped.
-/

namespace RingAgreement.Json

/-! ## Integers -/

/-- Characters that a number can go on with. -/
def continuesNumber (c : Char) : Bool :=
  c.isDigit || c = '.' || c = 'e' || c = 'E'

/-- What can stand behind a number. -/
def Stops (rest : List Char) : Prop := ∀ c ∈ rest.head?, continuesNumber c = false

theorem stops_nil : Stops [] := by
  intro c member
  cases member

theorem stops_cons {c : Char} (other : continuesNumber c = false) (rest : List Char) :
    Stops (c :: rest) := by
  intro d member
  obtain rfl := Option.some.inj member
  exact other

theorem Stops.ne {rest : List Char} (stops : Stops rest) {c : Char}
    (continues : continuesNumber c = true) (text : List Char) : rest ≠ c :: text := by
  rintro rfl
  have other := stops c rfl
  rw [continues] at other
  cases other

/-- Only zero has a literal that starts with a zero. -/
theorem head?_toDigits_ne {n : Nat} (positive : 0 < n) : (Nat.toDigits 10 n).head? ≠ some '0' := by
  induction n using Nat.strongRecOn with
  | ind n ih =>
    by_cases short : n < 10
    · rw [Nat.toDigits_of_lt_base short]
      intro zero
      have := Nat.digitChar_eq_zero.1 (Option.some.inj zero)
      omega
    · have front := ih (n / 10) (by omega) (by omega)
      rw [Nat.toDigits_of_base_le (by decide) (Nat.not_lt.1 short), List.head?_append_of_ne_nil]
      · exact front
      · exact Nat.toDigits_ne_nil

theorem isDigit_toDigits (n : Nat) : ∀ c ∈ Nat.toDigits 10 n, c.isDigit = true :=
  fun _ member => Nat.isDigit_of_mem_toDigits (by decide) (by decide) member

/-- An integer is written as digits, with a sign before them if it is negative. -/
theorem toList_toString_cases (n : Int) :
    (∃ m : Nat, n = m ∧ (toString n).toList = Nat.toDigits 10 m) ∨
      ∃ m : Nat, n = -(m + 1 : Nat) ∧ (toString n).toList = '-' :: Nat.toDigits 10 (m + 1) := by
  cases n with
  | ofNat m => exact .inl ⟨m, rfl, Nat.toList_repr⟩
  | negSucc m =>
    refine .inr ⟨m, rfl, ?_⟩
    change ("-" ++ (m + 1).repr).toList = _
    rw [String.toList_append, Nat.toList_repr]
    rfl

/-- Characters that an integer can begin with. -/
def beginsNumber (c : Char) : Bool := c.isDigit || c = '-'

theorem exists_front_toString (n : Int) :
    ∃ c front, (toString n).toList = c :: front ∧ beginsNumber c = true := by
  rcases toList_toString_cases n with ⟨m, -, literal⟩ | ⟨m, -, literal⟩
  · obtain ⟨c, front, digits⟩ := List.exists_cons_of_ne_nil (Nat.toDigits_ne_nil (n := m) (b := 10))
    have digit : c.isDigit = true := isDigit_toDigits m c (by rw [digits]; exact List.mem_cons_self)
    exact ⟨c, front, literal.trans digits, by simp [beginsNumber, digit]⟩
  · exact ⟨'-', _, literal, rfl⟩

section Digits

variable {rest : List Char} (stops : Stops rest)
include stops

theorem scanDigits_append {digits : List Char} (all : ∀ c ∈ digits, c.isDigit = true)
    (some_digit : digits ≠ []) : scanDigits (digits ++ rest) = some (digits, rest) := by
  have behind : rest.takeWhile Char.isDigit = [] ∧ rest.dropWhile Char.isDigit = rest := by
    cases rest with
    | nil => simp
    | cons c rest =>
      have apart : ¬ c.isDigit = true := by
        intro digit
        exact stops.ne (by simp [continuesNumber, digit]) rest rfl
      simp [apart]
  have cut : (digits ++ rest).span Char.isDigit = (digits, rest) := by
    rw [List.span_eq_takeWhile_dropWhile, List.takeWhile_append_of_pos all,
      List.dropWhile_append_of_pos all, behind.1, behind.2, List.append_nil]
  unfold scanDigits
  rw [cut]
  cases digits with
  | nil => exact absurd rfl some_digit
  | cons c digits => rfl

theorem scanFraction_of_stops : scanFraction rest = some ([], rest) := by
  rw [scanFraction.eq_2]
  intro text
  exact stops.ne (by decide) text

theorem scanExponent_of_stops : scanExponent rest = some ([], rest) := by
  cases rest with
  | nil => rfl
  | cons c rest =>
    have apart : ¬ (c = 'e' ∨ c = 'E') := by
      rintro (rfl | rfl)
      · exact stops.ne (by decide) rest rfl
      · exact stops.ne (by decide) rest rfl
    rw [scanExponent.eq_def]
    dsimp only
    rw [if_neg apart]

theorem scanInteger_toDigits (n : Nat) :
    scanInteger (Nat.toDigits 10 n ++ rest) = some (Nat.toDigits 10 n, rest) := by
  rcases Nat.eq_zero_or_pos n with rfl | positive
  · rfl
  · rw [scanInteger.eq_2, scanDigits_append stops (isDigit_toDigits n) Nat.toDigits_ne_nil]
    intro text zero
    apply head?_toDigits_ne positive
    have front := congrArg List.head? zero
    rwa [List.head?_append_of_ne_nil _ Nat.toDigits_ne_nil] at front

theorem scanMagnitude_toDigits (n : Nat) :
    scanMagnitude (Nat.toDigits 10 n ++ rest) = some (Nat.toDigits 10 n, rest) := by
  rw [scanMagnitude, scanInteger_toDigits stops]
  simp only [Option.bind_eq_bind, Option.bind_some, scanFraction_of_stops stops,
    scanExponent_of_stops stops, List.append_nil]
  rfl

theorem scanNumber_toString (n : Int) :
    scanNumber ((toString n).toList ++ rest) = some ((toString n).toList, rest) := by
  rcases toList_toString_cases n with ⟨m, -, literal⟩ | ⟨m, -, literal⟩
  · rw [literal, scanNumber.eq_2, scanMagnitude_toDigits stops]
    intro text sign
    have digit : '-'.isDigit = true := by
      apply isDigit_toDigits m
      apply List.mem_of_mem_head?
      have front := congrArg List.head? sign
      rwa [List.head?_append_of_ne_nil _ Nat.toDigits_ne_nil] at front
    cases digit
  · rw [literal, List.cons_append, scanNumber.eq_1, scanMagnitude_toDigits stops]
    rfl

/-- An integer is read back from its literal. -/
theorem scanToken_toString (n : Int) :
    scanToken ((toString n).toList ++ rest) = some (.number (toString n).toList, rest) := by
  obtain ⟨c, front, literal, begins⟩ := exists_front_toString n
  have scanned := scanNumber_toString stops n
  rw [literal, List.cons_append] at scanned ⊢
  have apart : ∀ d, beginsNumber d = false → c ≠ d := by
    rintro d other rfl
    rw [begins] at other
    cases other
  rw [scanToken.eq_def]
  split
  case h_11 => rw [scanned, Option.map_some]
  -- No other token begins like a number.
  all_goals exact absurd (List.cons.inj ‹_›).1 (apart _ (by decide))

end Digits

/-! ## Strings -/

/-- A piece of a string literal that stands for a character. -/
def Piece.StandsFor (piece : Piece) (c : Char) : Prop :=
  ∀ collected rest, spell collected (piece :: rest) = spell (c :: collected) rest

theorem standsFor_char (c : Char) : (Piece.char c).StandsFor c := fun _ _ => rfl

/-- A unit outside the surrogates is a character on its own. -/
theorem standsFor_unit {c : Char} (small : c.toNat < 0xd800) :
    (Piece.unit c.toNat).StandsFor c := by
  intro collected rest
  rw [spell.eq_def]
  dsimp only
  rw [if_pos (.inl small), Char.ofNat_toNat]

theorem hexValue?_digitChar {n : Nat} (small : n < 16) : hexValue? (Nat.digitChar n) = some n := by
  have all : ∀ n < 16, hexValue? (Nat.digitChar n) = some n := by decide
  exact all n small

theorem unit?_control {n : Nat} (control : n < 0x20) :
    unit? '0' '0' (Nat.digitChar (n / 16)) (Nat.digitChar (n % 16)) = some n := by
  have zero : hexValue? '0' = some 0 := rfl
  simp only [unit?, zero, hexValue?_digitChar (show n / 16 < 16 by omega),
    hexValue?_digitChar (show n % 16 < 16 by omega), Option.bind_eq_bind, Option.bind_some]
  change some _ = some _
  congr 1
  omega

/-- A scanner takes what a character was written as for that character. -/
theorem scanString_escape (c : Char) :
    ∃ piece : Piece, piece.StandsFor c ∧ ∀ collected rest,
      scanString collected (escape c ++ rest) = scanString (piece :: collected) rest := by
  unfold escape
  split
  · exact ⟨_, standsFor_char _, fun _ _ => rfl⟩
  · exact ⟨_, standsFor_char _, fun _ _ => rfl⟩
  · exact ⟨_, standsFor_char _, fun _ _ => rfl⟩
  · exact ⟨_, standsFor_char _, fun _ _ => rfl⟩
  · exact ⟨_, standsFor_char _, fun _ _ => rfl⟩
  · exact ⟨_, standsFor_char _, fun _ _ => rfl⟩
  · exact ⟨_, standsFor_char _, fun _ _ => rfl⟩
  next quote backslash _ _ _ _ _ =>
    split
    next control =>
      refine ⟨.unit c.toNat, standsFor_unit (by omega), fun collected rest => ?_⟩
      simp only [List.cons_append, List.nil_append]
      rw [scanString, unit?_control control]
    next printable =>
      refine ⟨.char c, standsFor_char c, fun collected rest => ?_⟩
      rw [List.singleton_append, scanString.eq_5, if_neg printable]
      · exact quote
      · exact fun _ _ _ _ _ same _ => backslash same
      · exact fun _ _ same _ => backslash same

theorem scanString_flatMap (s : List Char) :
    ∃ pieces : List Piece, (∀ collected, spell collected pieces = some (collected.reverse ++ s)) ∧
      ∀ collected rest, scanString collected (s.flatMap escape ++ '"' :: rest) =
        some (collected.reverse ++ pieces, rest) := by
  induction s with
  | nil => exact ⟨[], fun _ => by simp [spell], fun _ _ => by simp [scanString]⟩
  | cons c s ih =>
    obtain ⟨pieces, spelled, scanned⟩ := ih
    obtain ⟨piece, stands, taken⟩ := scanString_escape c
    refine ⟨piece :: pieces, fun collected => ?_, fun collected rest => ?_⟩
    · rw [stands, spelled, List.reverse_cons, List.append_assoc]
      rfl
    · rw [List.flatMap_cons, List.append_assoc, taken, scanned, List.reverse_cons,
        List.append_assoc]
      rfl

/-- A string is read back from its literal. -/
theorem scanToken_quote (s : String) (rest : List Char) :
    scanToken (quote s ++ rest) = some (.text (some s), rest) := by
  obtain ⟨pieces, spelled, scanned⟩ := scanString_flatMap s.toList
  have literal : quote s ++ rest = '"' :: (s.toList.flatMap escape ++ '"' :: rest) := by
    simp [quote]
  rw [literal, scanToken, scanned, List.reverse_nil, List.nil_append, Option.map_some, spelled,
    Option.map_some, List.reverse_nil, List.nil_append, String.ofList_toList]

end RingAgreement.Json
