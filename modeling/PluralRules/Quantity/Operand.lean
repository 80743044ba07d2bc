import PluralRules.Quantity.Basic

/-!
# Operands

The features of a quantity that a plural rule can ask for, under their one-letter names.
-/

namespace PluralRules

/-- A feature of a quantity: the magnitude `n`, the digits before the point `i`, the number of
fraction digits with and without trailing zeros, `v` and `w`, these digits as integers, `f` and `t`,
and the compact exponent under its two names, `e` and `c`. -/
inductive Operand where
  | n
  | i
  | v
  | w
  | f
  | t
  | e
  | c
  deriving DecidableEq, Repr

namespace Operand

/-- Every operand, in the order in which they are listed to a reader. -/
def all : List Operand := [n, i, v, w, f, t, e, c]

def name : Operand → String
  | n => "n"
  | i => "i"
  | v => "v"
  | w => "w"
  | f => "f"
  | t => "t"
  | e => "e"
  | c => "c"

def ofName? (name : String) : Option Operand := all.find? fun operand => operand.name == name

end Operand

def Quantity.operand (q : Quantity) : Operand → Quantity
  | .n => q.magnitude
  | .i => ofInt q.whole
  | .v => ofInt q.places
  | .w => ofInt q.significantFraction.2
  | .f => ofInt q.fraction
  | .t => ofInt q.significantFraction.1
  | .e => ofInt q.exponent
  | .c => ofInt q.exponent

end PluralRules
