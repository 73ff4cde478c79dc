/-!
Blank characters, and texts without the blanks at their ends.
-/

namespace RingAgreement.Text

/-- The characters with the Unicode property White_Space. -/
def isBlank (c : Char) : Bool :=
  let n := c.toNat
  (9 ≤ n && n ≤ 13) || n == 0x20 || n == 0x85 || n == 0xa0 || n == 0x1680 ||
    (0x2000 ≤ n && n ≤ 0x200a) || n == 0x2028 || n == 0x2029 || n == 0x202f || n == 0x205f ||
    n == 0x3000

/-- The text from its first to its last character that is not blank. -/
def trimmed (s : List Char) : List Char :=
  ((s.dropWhile isBlank).reverse.dropWhile isBlank).reverse

/-- Blanks behind a text that starts and ends with something else are cut off. -/
theorem trimmed_append {first last : Char} (middle : List Char) {blanks : List Char}
    (starts : isBlank first = false) (ends : isBlank last = false)
    (blank : ∀ c ∈ blanks, isBlank c = true) :
    trimmed (first :: (middle ++ [last]) ++ blanks) = first :: (middle ++ [last]) := by
  have front : (first :: (middle ++ [last]) ++ blanks).dropWhile isBlank =
      first :: (middle ++ [last]) ++ blanks := by
    rw [List.cons_append, List.dropWhile_cons_of_neg (by simp [starts])]
  have back : (blanks.reverse ++ last :: (first :: middle).reverse).dropWhile isBlank =
      last :: (first :: middle).reverse := by
    rw [List.dropWhile_append_of_pos fun c member => blank c (List.mem_reverse.1 member),
      List.dropWhile_cons_of_neg (by simp [ends])]
  rw [trimmed, front]
  have reversed : (first :: (middle ++ [last]) ++ blanks).reverse =
      blanks.reverse ++ last :: (first :: middle).reverse := by simp
  rw [reversed, back]
  simp

end RingAgreement.Text
