/-!
# Quantities

A quantity is a decimal number as it was written: signed digits, the place of the decimal point, and
the exponent of a compact spelling such as `1.2c3`. The number it stands for is
`digits * 10 ^ -scale`.

The same number has many quantities, and plural rules tell them apart: `1` and `1.0` differ in how
many fraction digits show. So equality of quantities is equality of all three fields, and
`Quantity.compare` is the order of the numbers they stand for.

A negative scale stands for zeros that an exponent appended: `1.2c3` has the digits 12, the scale -2
and the exponent 3.
-/

namespace PluralRules

/-- A decimal number with the form it was written in: all digits, with the sign and without the
point, how many of them stand behind the point, and the exponent of a compact spelling, which is
zero if there is none. -/
structure Quantity where
  digits : Int
  scale : Int
  exponent : Int
  deriving DecidableEq, Repr

/-- Why a text or an operation gives no quantity: the text is no numeral, the exponent of the
numeral exceeds the limit, or the divisor is no integer between 1 and the greatest 64-bit
integer. -/
inductive QuantityError where
  | malformed (text : String)
  | exponentOutOfRange (text : String)
  | divisorOutOfRange (divisor : String)
  deriving DecidableEq, Repr

namespace Quantity

/-- An integer, written without a fraction. -/
def ofInt (z : Int) : Quantity := ⟨z, 0, 0⟩

/-- A power of ten. The exponent is a natural number here and is not cut off at 32 bits. No quantity
that a text spells has an exponent beyond them, unless the text has more than four thousand million
digits (`Quantity.scale_of_ofChars`). -/
def powerOfTen (n : Nat) : Nat := Nat.pow 10 n

/-- How many fraction digits show. -/
def places (q : Quantity) : Nat := q.scale.toNat

/-- The power of ten that an exponent appended to the digits. -/
def appended (q : Quantity) : Nat := powerOfTen (-q.scale).toNat

/-- The magnitude before the point. -/
def whole (q : Quantity) : Nat := q.digits.natAbs * q.appended / powerOfTen q.places

/-- The fraction digits that show, read as an integer. -/
def fraction (q : Quantity) : Nat := q.digits.natAbs % powerOfTen q.places

/-- Take the trailing zeros off a fraction of `len` digits: the digits that remain, and their
number. -/
def dropTrailingZeros : (len : Nat) → (fraction : Nat) → Nat × Nat
  | 0, fraction => (fraction, 0)
  | len + 1, fraction =>
    if fraction % 10 = 0 then dropTrailingZeros len (fraction / 10) else (fraction, len + 1)

def significantFraction (q : Quantity) : Nat × Nat := dropTrailingZeros q.places q.fraction

/-- Whether the number is an integer. Fraction digits may show, as in `3.00`. -/
def isInteger (q : Quantity) : Bool := q.fraction == 0

def toInt? (q : Quantity) : Option Int :=
  if q.isInteger then some (if q.digits < 0 then -(q.whole : Int) else q.whole) else none

def greatestInt64 : Int := 9223372036854775807

def toInt64? (q : Quantity) : Option Int :=
  q.toInt?.filter fun z => -greatestInt64 - 1 ≤ z && z ≤ greatestInt64

/-- The magnitude, in the same form but no longer compact. -/
def magnitude (q : Quantity) : Quantity := ⟨q.digits.natAbs, q.scale, 0⟩

def negate (q : Quantity) : Quantity := ⟨-q.digits, q.scale, q.exponent⟩

/-- The bitwise complement `-z - 1` of an integer `z`; other numbers have none. -/
def complement? (q : Quantity) : Option Quantity := q.toInt?.map fun z => ofInt (-z - 1)

/-- The remainder of dividing the number toward zero by a positive integer. It keeps the sign of the
number and all fraction digits that show: `21.50` leaves `1.50` by ten. -/
def remainder (q : Quantity) (divisor : Int) : Except QuantityError Quantity :=
  if divisor ≤ 0 then .error (.divisorOutOfRange (toString divisor))
  else .ok ⟨(q.digits * q.appended).tmod (divisor * powerOfTen q.places), q.places, 0⟩

/-- The order of the numbers that two quantities stand for: both are scaled to the finer of the
two. -/
def compare (a b : Quantity) : Ordering :=
  Ord.compare (a.digits * powerOfTen (b.scale - a.scale).toNat)
    (b.digits * powerOfTen (a.scale - b.scale).toNat)

end Quantity

end PluralRules
