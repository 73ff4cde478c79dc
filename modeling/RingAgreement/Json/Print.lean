import RingAgreement.Json.Basic
/-!
Printing JSON documents, on one line or with two blanks of indentation per level. Only quotes,
backslashes and control characters are escaped.
-/

namespace RingAgreement.Json

/-- The characters that stand for one character in a string literal. -/
def escape (c : Char) : List Char :=
  match c with
  | '"' => ['\\', '"']
  | '\\' => ['\\', '\\']
  | '\x08' => ['\\', 'b']
  | '\x0c' => ['\\', 'f']
  | '\n' => ['\\', 'n']
  | '\r' => ['\\', 'r']
  | '\t' => ['\\', 't']
  | c =>
    if c.toNat < 0x20 then
      ['\\', 'u', '0', '0', Nat.digitChar (c.toNat / 16), Nat.digitChar (c.toNat % 16)]
    else [c]

def quote (s : String) : List Char := '"' :: (s.toList.flatMap escape ++ ['"'])

/-- A literal for a string that may carry no text. -/
def quote? : Option String → List Char
  | some s => quote s
  | none => quote ""

/-- The literal of an integer. -/
def ofInt (n : Int) : Json := .number (toString n).toList

mutual

/-- The document without blanks. -/
def compact : Json → List Char
  | .null => "null".toList
  | .bool true => "true".toList
  | .bool false => "false".toList
  | .number literal => literal
  | .text s => quote? s
  | .array items => '[' :: (compactItems items ++ [']'])
  | .object members => '\x7b' :: (compactMembers members ++ ['\x7d'])

def compactItems : List Json → List Char
  | [] => []
  | [item] => compact item
  | item :: rest => compact item ++ ',' :: compactItems rest

def compactMembers : List (Option String × Json) → List Char
  | [] => []
  | [(key, value)] => quote? key ++ ':' :: compact value
  | (key, value) :: rest => quote? key ++ ':' :: (compact value ++ ',' :: compactMembers rest)

end

/-- A line end and the indentation of a level. -/
def newLine (level : Nat) : List Char := '\n' :: List.replicate (2 * level) ' '

mutual

/-- The document on indented lines, at a level of indentation. -/
def indented (level : Nat) : Json → List Char
  | .null => "null".toList
  | .bool true => "true".toList
  | .bool false => "false".toList
  | .number literal => literal
  | .text s => quote? s
  | .array [] => ['[', ']']
  | .array items => '[' :: (indentedItems (level + 1) items ++ newLine level ++ [']'])
  | .object [] => ['\x7b', '\x7d']
  | .object members => '\x7b' :: (indentedMembers (level + 1) members ++ newLine level ++ ['\x7d'])

def indentedItems (level : Nat) : List Json → List Char
  | [] => []
  | [item] => newLine level ++ indented level item
  | item :: rest => newLine level ++ indented level item ++ ',' :: indentedItems level rest

def indentedMembers (level : Nat) : List (Option String × Json) → List Char
  | [] => []
  | [(key, value)] => newLine level ++ quote? key ++ ':' :: ' ' :: indented level value
  | (key, value) :: rest =>
    newLine level ++ quote? key ++ ':' :: ' ' :: indented level value ++
      ',' :: indentedMembers level rest

end

/-- The document on indented lines. -/
def pretty (j : Json) : List Char := indented 0 j

end RingAgreement.Json
