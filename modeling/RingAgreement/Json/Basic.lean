import RingAgreement.Json.Token
/-!
JSON documents: the document type, reading by a stack machine that takes one token at a time, and
access to the fields of a record.
-/

namespace RingAgreement

/-- A document. Numbers keep their literal; a string or a key whose escapes do not form Unicode
text is valid JSON but carries no text. -/
inductive Json where
  | null
  | bool (value : Bool)
  | number (literal : List Char)
  | text (value : Option String)
  | array (items : List Json)
  | object (members : List (Option String × Json))
deriving Inhabited

namespace Json

/-- An array or object that is not closed yet, its content in reverse. -/
inductive Frame where
  | array (items : List Json)
  | object (members : List (Option String × Json))
  | member (members : List (Option String × Json)) (key : Option String)

/-- What may come next. -/
inductive Expect where
  | value
  | valueOrEnd
  | key
  | keyOrEnd
  | colon
  | separator
  | nothing (document : Json)

/-- The machine: open frames, innermost first, and what it expects. -/
structure Reader where
  stack : List Frame
  expect : Expect

namespace Reader

def start : Reader := ⟨[], .value⟩

/-- Puts a complete value into the innermost frame. -/
def accept (value : Json) : List Frame → Option Reader
  | [] => some ⟨[], .nothing value⟩
  | .array items :: stack => some ⟨.array (value :: items) :: stack, .separator⟩
  | .member members key :: stack => some ⟨.object ((key, value) :: members) :: stack, .separator⟩
  | .object _ :: _ => none

/-- A token where a value may start. -/
def beginValue (stack : List Frame) : Token → Option Reader
  | .beginObject => some ⟨.object [] :: stack, .keyOrEnd⟩
  | .beginArray => some ⟨.array [] :: stack, .valueOrEnd⟩
  | .null => accept .null stack
  | .bool b => accept (.bool b) stack
  | .number literal => accept (.number literal) stack
  | .text s => accept (.text s) stack
  | _ => none

/-- A key of the innermost object. -/
def beginMember (key : Option String) : List Frame → Option Reader
  | .object members :: stack => some ⟨.member members key :: stack, .colon⟩
  | _ => none

/-- The end of the innermost array. -/
def endArray : List Frame → Option Reader
  | .array items :: stack => accept (.array items.reverse) stack
  | _ => none

/-- The end of the innermost object. -/
def endObject : List Frame → Option Reader
  | .object members :: stack => accept (.object members.reverse) stack
  | _ => none

/-- A comma in the innermost frame. -/
def afterComma : List Frame → Option Reader
  | .array items :: stack => some ⟨.array items :: stack, .value⟩
  | .object members :: stack => some ⟨.object members :: stack, .key⟩
  | _ => none

/-- Takes one token. -/
def step (r : Reader) (token : Token) : Option Reader :=
  match r.expect, token with
  | .value, token => beginValue r.stack token
  | .valueOrEnd, .endArray => endArray r.stack
  | .valueOrEnd, token => beginValue r.stack token
  | .key, .text key => beginMember key r.stack
  | .keyOrEnd, .text key => beginMember key r.stack
  | .keyOrEnd, .endObject => endObject r.stack
  | .colon, .colon => some ⟨r.stack, .value⟩
  | .separator, .comma => afterComma r.stack
  | .separator, .endArray => endArray r.stack
  | .separator, .endObject => endObject r.stack
  | _, _ => none

def run (r : Reader) : List Token → Option Reader
  | [] => some r
  | token :: rest =>
    match r.step token with
    | some next => next.run rest
    | none => none

/-- The document, when all of it has been read. -/
def document? (r : Reader) : Option Json :=
  match r.expect with
  | .nothing document => some document
  | _ => none

end Reader

/-- The document a text spells, if it is valid JSON. -/
def parse? (text : List Char) : Option Json := do
  let r ← Reader.start.run (← tokens? text)
  r.document?

/-- The text of a string. -/
def text? : Json → Option String
  | .text value => value
  | _ => none

/-- The value of an integer literal of at most 19 digits; minus zero is none. -/
def integerValue? : List Char → Option Int
  | '-' :: digits => do
    let n ← magnitude? digits
    if n = 0 then none else some (-n)
  | digits => magnitude? digits
where
  magnitude? (digits : List Char) : Option Int :=
    if digits.all Char.isDigit ∧ digits.length ≤ 19 then
      some (digits.foldl (fun n c => 10 * n + (c.toNat - 48)) 0 : Nat)
    else none

/-- The value of a number that is an integer of 64 bits with sign. -/
def integer? : Json → Option Int
  | .number literal => do
    let n ← integerValue? literal
    if Int64.minValue.toInt ≤ n ∧ n ≤ Int64.maxValue.toInt then some n else none
  | _ => none

/-- The values of one field. -/
def valuesOf (name : String) (members : List (Option String × Json)) : List Json :=
  (members.filter fun m => m.1 = some name).map (·.2)

/-- The values of the named fields of a record. An object gives them by name, in any order, each
at most once, and may have other members; an array gives exactly them, by position. -/
def fields? (names : List String) : Json → Option (List (Option Json))
  | .object members =>
    if members.all (·.1.isSome) then
      names.mapM fun name =>
        match valuesOf name members with
        | [] => some none
        | [value] => some (some value)
        | _ => none
    else none
  | .array items => if items.length = names.length then some (items.map some) else none
  | _ => none

end Json

end RingAgreement
