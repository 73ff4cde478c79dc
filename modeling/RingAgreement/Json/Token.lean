/-!
The tokens of a JSON text (RFC 8259). Scanners work from the front of the text and collect their
result in reverse, so that long texts and long strings need no deep recursion.
-/

namespace RingAgreement.Json

/-- A string token whose escapes do not form Unicode text carries no text. -/
inductive Token where
  | beginObject
  | endObject
  | beginArray
  | endArray
  | colon
  | comma
  | null
  | bool (value : Bool)
  | number (literal : List Char)
  | text (value : Option String)
deriving DecidableEq, Repr

/-- A part of a string literal: a character, or a UTF-16 unit given by its code. -/
inductive Piece where
  | char (c : Char)
  | unit (code : Nat)
deriving DecidableEq, Repr

def hexValue? (c : Char) : Option Nat :=
  if '0' ≤ c ∧ c ≤ '9' then some (c.toNat - 48)
  else if 'a' ≤ c ∧ c ≤ 'f' then some (c.toNat - 87)
  else if 'A' ≤ c ∧ c ≤ 'F' then some (c.toNat - 55)
  else none

/-- The unit written in four hexadecimal digits. -/
def unit? (a b c d : Char) : Option Nat := do
  return (((← hexValue? a) * 16 + (← hexValue? b)) * 16 + (← hexValue? c)) * 16 + (← hexValue? d)

/-- The character that stands behind a backslash for another one. -/
def unescape? : Char → Option Char
  | '"' => some '"'
  | '\\' => some '\\'
  | '/' => some '/'
  | 'b' => some '\x08'
  | 'f' => some '\x0c'
  | 'n' => some '\n'
  | 'r' => some '\r'
  | 't' => some '\t'
  | _ => none

/-- The pieces of a string literal behind its opening quote, and the text behind the closing
quote. Control characters must be escaped. -/
def scanString (collected : List Piece) : List Char → Option (List Piece × List Char)
  | [] => none
  | '"' :: rest => some (collected.reverse, rest)
  | '\\' :: 'u' :: a :: b :: c :: d :: rest =>
    match unit? a b c d with
    | some code => scanString (.unit code :: collected) rest
    | none => none
  | '\\' :: c :: rest =>
    match unescape? c with
    | some plain => scanString (.char plain :: collected) rest
    | none => none
  | c :: rest => if c.toNat < 0x20 then none else scanString (.char c :: collected) rest

/-- The characters that the pieces spell. A unit of a surrogate pair counts only together with
its partner right behind it. -/
def spell (collected : List Char) : List Piece → Option (List Char)
  | [] => some collected.reverse
  | .char c :: rest => spell (c :: collected) rest
  | .unit code :: rest =>
    if code < 0xd800 ∨ 0xdfff < code then spell (Char.ofNat code :: collected) rest
    else
      match rest with
      | .unit low :: rest =>
        if code < 0xdc00 ∧ 0xdc00 ≤ low ∧ low ≤ 0xdfff then
          spell (Char.ofNat (0x10000 + (code - 0xd800) * 0x400 + (low - 0xdc00)) :: collected) rest
        else none
      | _ => none

/-- At least one digit, and what follows the digits. -/
def scanDigits (text : List Char) : Option (List Char × List Char) :=
  match text.span Char.isDigit with
  | ([], _) => none
  | found => some found

/-- The integer part: zero alone, or digits that do not start with zero. -/
def scanInteger : List Char → Option (List Char × List Char)
  | '0' :: rest => some (['0'], rest)
  | text => scanDigits text

/-- A point with digits behind it, if there is a point. -/
def scanFraction : List Char → Option (List Char × List Char)
  | '.' :: rest => (scanDigits rest).map fun found => ('.' :: found.1, found.2)
  | text => some ([], text)

/-- An exponent, if there is one. -/
def scanExponent : List Char → Option (List Char × List Char)
  | e :: rest =>
    if e = 'e' ∨ e = 'E' then
      match rest with
      | '+' :: rest => (scanDigits rest).map fun found => (e :: '+' :: found.1, found.2)
      | '-' :: rest => (scanDigits rest).map fun found => (e :: '-' :: found.1, found.2)
      | rest => (scanDigits rest).map fun found => (e :: found.1, found.2)
    else some ([], e :: rest)
  | [] => some ([], [])

/-- A number without sign. -/
def scanMagnitude (text : List Char) : Option (List Char × List Char) := do
  let (integer, rest) ← scanInteger text
  let (fraction, rest) ← scanFraction rest
  let (exponent, rest) ← scanExponent rest
  return (integer ++ fraction ++ exponent, rest)

def scanNumber : List Char → Option (List Char × List Char)
  | '-' :: rest => (scanMagnitude rest).map fun found => ('-' :: found.1, found.2)
  | text => scanMagnitude text

/-- The token at the front of a text that does not start with a blank. -/
def scanToken : List Char → Option (Token × List Char)
  | '\x7b' :: rest => some (.beginObject, rest)
  | '\x7d' :: rest => some (.endObject, rest)
  | '[' :: rest => some (.beginArray, rest)
  | ']' :: rest => some (.endArray, rest)
  | ':' :: rest => some (.colon, rest)
  | ',' :: rest => some (.comma, rest)
  | 'n' :: 'u' :: 'l' :: 'l' :: rest => some (.null, rest)
  | 't' :: 'r' :: 'u' :: 'e' :: rest => some (.bool true, rest)
  | 'f' :: 'a' :: 'l' :: 's' :: 'e' :: rest => some (.bool false, rest)
  | '"' :: rest =>
    (scanString [] rest).map fun found =>
      (.text ((spell [] found.1).map String.ofList), found.2)
  | text => (scanNumber text).map fun found => (.number found.1, found.2)

/-- The blanks allowed between tokens. -/
def isSpace (c : Char) : Bool := c = ' ' || c = '\t' || c = '\n' || c = '\r'

/-- Scans at most `fuel` tokens and blanks; every one of them takes a character or more. -/
def tokensWithin : Nat → List Token → List Char → Option (List Token)
  | _, collected, [] => some collected.reverse
  | 0, _, _ => none
  | fuel + 1, collected, c :: rest =>
    if isSpace c then tokensWithin fuel collected rest
    else
      match scanToken (c :: rest) with
      | some (token, rest) => tokensWithin fuel (token :: collected) rest
      | none => none

/-- The tokens of a whole text. -/
def tokens? (text : List Char) : Option (List Token) := tokensWithin text.length [] text

end RingAgreement.Json
