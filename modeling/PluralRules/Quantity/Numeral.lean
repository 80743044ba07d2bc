import PluralRules.Quantity.Basic
import PluralRules.Reader

/-!
# Numerals

The texts that spell a quantity: a sign or none, digits, and then if present a point with digits and
the letter `c` or `e` in either case with a signed exponent. Blanks around the numeral do not count.

A numeral fails in two ways. It is malformed when it is not of this form, and its exponent is out of
range when it is of this form and the exponent exceeds `exponentLimit`, so that a short text cannot
ask for an unbounded row of zeros.
-/

namespace PluralRules

/-- The parts of a numeral: its sign, the digits before and behind the point, and the sign and the
digits of the exponent. There are no digits behind the point if there is no point. -/
structure Numeral where
  negative : Bool
  whole : List Char
  fraction : List Char
  exponent : Option (Bool × List Char)
  deriving DecidableEq, Repr

namespace Numeral

/-- A sign that may be missing: whether it is a minus. -/
def sign (s : List Char) : Bool × List Char :=
  match s with
  | '-' :: rest => (true, rest)
  | '+' :: rest => (false, rest)
  | _ => (false, s)

def digits : Reader (List Char) := Reader.run Char.isDigit

def pointAndDigits : Reader (List Char) := fun s => do
  let ((), s) ← Reader.char '.' s
  digits s

/-- The letters that introduce an exponent. -/
def isExponentMark (c : Char) : Bool := c == 'c' || c == 'C' || c == 'e' || c == 'E'

/-- An exponent with its mark: whether it is negative, and its digits. -/
def exponentPart : Reader (Bool × List Char)
  | mark :: rest =>
    if isExponentMark mark then do
      let (negative, s) := sign rest
      let (power, s) ← digits s
      some ((negative, power), s)
    else none
  | [] => none

/-- The longest numeral at the front of a text. -/
def reader : Reader Numeral := fun s => do
  let (negative, s) := sign s
  let (whole, s) ← digits s
  let (fraction, s) := Reader.optional pointAndDigits s
  let (exponent, s) := Reader.optional exponentPart s
  some (⟨negative, whole, fraction.getD [], exponent⟩, s)

/-- The numeral that a whole text spells. -/
def ofChars? (s : List Char) : Option Numeral :=
  match reader s with
  | some (numeral, []) => some numeral
  | _ => none

/-- The natural number that decimal digits spell. -/
def valueOf (s : List Char) : Nat := Nat.ofDigitChars 10 s 0

def signed (negative : Bool) (n : Nat) : Int := if negative then -(n : Int) else n

def exponentMagnitude (numeral : Numeral) : Nat :=
  match numeral.exponent with
  | some (_, power) => valueOf power
  | none => 0

/-- The exponent; zero if there is none. -/
def exponentValue (numeral : Numeral) : Int :=
  match numeral.exponent with
  | some (negative, power) => signed negative (valueOf power)
  | none => 0

/-- The quantity that a numeral spells. Moving the point by the exponent is left to the scale. -/
def quantity (numeral : Numeral) : Quantity where
  digits := signed numeral.negative (valueOf (numeral.whole ++ numeral.fraction))
  scale := numeral.fraction.length - numeral.exponentValue
  exponent := numeral.exponentValue

end Numeral

namespace Quantity

/-- The greatest magnitude of an exponent. -/
def exponentLimit : Nat := 1024

/-- The quantity that a text spells, with blanks around it ignored. -/
def ofChars (s : List Char) : Except QuantityError Quantity :=
  match Numeral.ofChars? (Text.trim s) with
  | none => .error (.malformed (String.ofList s))
  | some numeral =>
    if numeral.exponentMagnitude ≤ exponentLimit then .ok numeral.quantity
    else .error (.exponentOutOfRange (String.ofList (Text.trim s)))

def ofString (s : String) : Except QuantityError Quantity := ofChars s.toList

end Quantity

end PluralRules
