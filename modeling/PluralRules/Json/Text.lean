/-!
# Writing JSON

Strings and objects in their shortest form: no blanks, and only the characters escaped that the
grammar does not admit as they are.
-/

namespace PluralRules

namespace Json

def hexPair (n : Nat) : List Char := [Nat.digitChar (n / 16 % 16), Nat.digitChar (n % 16)]

/-- How a string spells one character. -/
def escape (c : Char) : List Char :=
  match c with
  | '"' => ['\\', '"']
  | '\\' => ['\\', '\\']
  | '\x08' => ['\\', 'b']
  | '\x0c' => ['\\', 'f']
  | '\n' => ['\\', 'n']
  | '\r' => ['\\', 'r']
  | '\t' => ['\\', 't']
  | c => if c.toNat < 0x20 then ['\\', 'u', '0', '0'] ++ hexPair c.toNat else [c]

def stringText (s : String) : List Char := '"' :: s.toList.flatMap escape ++ ['"']

def objectText (members : List (String × List Char)) : List Char :=
  let texts := members.map fun (name, text) => stringText name ++ ':' :: text
  '{' :: [','].intercalate texts ++ ['}']

end Json

end PluralRules
