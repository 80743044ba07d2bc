import PluralRules.Text.Unprintable

/-!
# Quoted text

A text between double quotes, so that it can stand inside a larger text without being confused with
what surrounds it. The quote and the backslash are escaped, the common control characters have short
escapes, and any other unprintable character is written as the hexadecimal digits of its code point
in braces. All else stands for itself.
-/

namespace PluralRules.Text

/-- How a quoted text spells one character. -/
def escape (c : Char) : List Char :=
  match c with
  | '\x00' => ['\\', '0']
  | '\t' => ['\\', 't']
  | '\n' => ['\\', 'n']
  | '\r' => ['\\', 'r']
  | '"' => ['\\', '"']
  | '\\' => ['\\', '\\']
  | c => if isUnprintable c then ['\\', 'u', '{'] ++ Nat.toDigits 16 c.toNat ++ ['}'] else [c]

/-- The text between double quotes. -/
def quote (s : List Char) : List Char := '"' :: s.flatMap escape ++ ['"']

end PluralRules.Text
