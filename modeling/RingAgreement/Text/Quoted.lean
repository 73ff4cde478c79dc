import RingAgreement.Text.Unprintable
/-!
Quoted texts, as error messages show names: double quotes around the text, a backslash before a
quote or a backslash, short escapes for line ends, tabs and the zero character, and the code
point in braces for any other character without a visible form.
-/

namespace RingAgreement.Text

/-- The characters that stand for one character inside the quotes. -/
def quotedChar (c : Char) : List Char :=
  match c with
  | '"' => ['\\', '"']
  | '\\' => ['\\', '\\']
  | '\n' => ['\\', 'n']
  | '\r' => ['\\', 'r']
  | '\t' => ['\\', 't']
  | '\x00' => ['\\', '0']
  | c =>
    if isUnprintable c then
      ['\\', 'u', '\x7b'] ++ Nat.toDigits 16 c.toNat ++ ['\x7d']
    else [c]

/-- A text between double quotes. -/
def quoted (s : String) : String :=
  String.ofList ('"' :: (s.toList.flatMap quotedChar ++ ['"']))

end RingAgreement.Text
