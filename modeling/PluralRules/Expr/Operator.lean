/-!
# Operators

The operators of rule expressions, sorted by what they work on: signs and the modulo operator make
numbers from numbers, connectives make truth values from truth values, and comparisons make truth
values from numbers.
-/

namespace PluralRules

inductive Sign where
  | minus | plus | complement
  deriving DecidableEq, Repr

inductive Connective where
  | and | or | xor
  deriving DecidableEq, Repr

/-- An operator between two numbers, or between a number and a set of numbers. -/
inductive Comparison where
  | eq | ne | lt | le | gt | ge
  deriving DecidableEq, Repr

inductive UnaryOp where
  | not
  | sign (sign : Sign)
  deriving DecidableEq, Repr

inductive BinaryOp where
  | modulo
  | logic (connective : Connective)
  | relation (comparison : Comparison)
  deriving DecidableEq, Repr

namespace Comparison

/-- The comparison that says the same when its two sides trade places. -/
def swapped : Comparison → Comparison
  | eq => eq
  | ne => ne
  | lt => gt
  | le => ge
  | gt => lt
  | ge => le

/-- Whether a comparison holds of two numbers in the given order. -/
def holds : Comparison → Ordering → Bool
  | eq, order => order == .eq
  | ne, order => order != .eq
  | lt, order => order == .lt
  | le, order => order != .gt
  | gt, order => order == .gt
  | ge, order => order != .lt

end Comparison

namespace UnaryOp

def all : List UnaryOp := [not, sign .minus, sign .plus, sign .complement]

def symbol : UnaryOp → String
  | not => "not"
  | sign .minus => "-"
  | sign .plus => "+"
  | sign .complement => "~"

def ofSymbol? (symbol : String) : Option UnaryOp := all.find? fun op => op.symbol == symbol

end UnaryOp

namespace BinaryOp

def all : List BinaryOp :=
  [modulo, logic .and, logic .or, logic .xor, relation .eq, relation .ne, relation .lt,
   relation .le, relation .gt, relation .ge]

def symbol : BinaryOp → String
  | modulo => "%"
  | logic .and => "and"
  | logic .or => "or"
  | logic .xor => "xor"
  | relation .eq => "="
  | relation .ne => "!="
  | relation .lt => "<"
  | relation .le => "<="
  | relation .gt => ">"
  | relation .ge => ">="

/-- The operator written so. The modulo operator may also be written as a word. -/
def ofSymbol? (symbol : String) : Option BinaryOp :=
  if symbol == "mod" then some modulo else all.find? fun op => op.symbol == symbol

def isRelational : BinaryOp → Bool
  | relation _ => true
  | _ => false

def swapped : BinaryOp → BinaryOp
  | relation c => relation c.swapped
  | op => op

end BinaryOp

end PluralRules
