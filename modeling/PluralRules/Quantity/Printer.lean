import PluralRules.Message
import PluralRules.Quantity.Basic

/-!
# Quantities as text

A quantity is printed in the form it was written in: the digits with the point where it stood before
the exponent moved it, then the exponent. Zero has no sign, and at least one digit stands before the
point.

Digits behind a point are padded with zeros up to a width, and widths are limited. `chars` and
`toString` are the texts of quantities as they would be without the limit. Printing a quantity with
too many places breaks off instead (`text?`), and so does printing whatever holds such a quantity: a
condition, its structural key, a rule, a sample that is complained about, a divisor that is out of
range. So the texts of all these are the texts that are printed if all their quantities have texts
(`HasText`).
-/

namespace PluralRules

namespace Quantity

/-- The digits of a natural number, preceded by zeros up to a width. -/
def paddedDigits (width n : Nat) : List Char :=
  let digits := Nat.toDigits 10 n
  List.replicate (width - digits.length) '0' ++ digits

/-- The decimal text of `digits * 10 ^ -scale`, with `scale` digits behind the point if `scale` is
positive and no point otherwise. -/
def plainChars (digits scale : Int) : List Char :=
  let sign := if digits < 0 then ['-'] else []
  let behind := scale.toNat
  if behind = 0 then
    let zeros := if digits = 0 then 0 else (-scale).toNat
    sign ++ Nat.toDigits 10 digits.natAbs ++ List.replicate zeros '0'
  else
    let all := paddedDigits (behind + 1) digits.natAbs
    let before := all.length - behind
    sign ++ all.take before ++ '.' :: all.drop before

def intChars (z : Int) : List Char := plainChars z 0

def chars (q : Quantity) : List Char :=
  plainChars q.digits (q.scale + q.exponent) ++
    if q.exponent = 0 then [] else 'c' :: intChars q.exponent

def toString (q : Quantity) : String := String.ofList q.chars

/-! ### Texts that are printed -/

/-- The greatest width to which digits can be padded. -/
def greatestWidth : Nat := 65535

/-- How many digits stand behind the point in the text of a quantity. -/
def printedPlaces (q : Quantity) : Nat := (q.scale + q.exponent).toNat

/-- Whether a quantity can be printed. If digits stand behind the point, all of them and one digit
before the point are padded together. -/
def HasText (q : Quantity) : Prop := q.printedPlaces = 0 ∨ q.printedPlaces + 1 ≤ greatestWidth

instance : DecidablePred HasText := fun q =>
  inferInstanceAs (Decidable (q.printedPlaces = 0 ∨ q.printedPlaces + 1 ≤ greatestWidth))

/-- A quantity can be printed if the point has not moved too far to the left. -/
theorem hasText_iff {q : Quantity} : q.HasText ↔ q.scale + q.exponent < greatestWidth := by
  unfold HasText printedPlaces greatestWidth
  omega

/-- A text with numbers in it, which is printed only if all of them can be. -/
def textWith? (numbers : List Quantity) (text : String) : Option String :=
  if ∀ q ∈ numbers, q.HasText then some text else none

/-- The text that is printed for a quantity. -/
def text? (q : Quantity) : Option String := textWith? [q] q.toString

/-- A text whose numbers can all be printed is printed. -/
theorem textWith?_eq_some {numbers : List Quantity} (h : ∀ q ∈ numbers, q.HasText) (text : String) :
    textWith? numbers text = some text :=
  if_pos h

/-- What can be printed is printed as its text. -/
theorem text?_eq_some {q : Quantity} (h : q.HasText) : q.text? = some q.toString :=
  textWith?_eq_some (List.forall_mem_singleton.mpr h) q.toString

/-- What cannot be printed has no text. -/
theorem text?_eq_none {q : Quantity} (h : ¬ q.HasText) : q.text? = none :=
  if_neg fun hall => h (hall q (List.mem_singleton_self q))

/-! ### Divisors -/

/-- The remainder by a divisor that is itself a quantity: it has to be an integer of 64 bits. The
error quotes the divisor, which therefore has to have a text. -/
def remainderBy (q divisor : Quantity) : Except QuantityError Quantity :=
  match divisor.toInt64? with
  | some d => q.remainder d
  | none => .error (.divisorOutOfRange divisor.toString)

end Quantity

def QuantityError.message : QuantityError → String
  | malformed text => "malformed number: " ++ quoted text
  | exponentOutOfRange text => "exponent out of range in " ++ quoted text ++ ", limit is 1024"
  | divisorOutOfRange divisor => "divisor out of range: " ++ divisor

end PluralRules
