import PluralRules.Expr.Eval
import PluralRules.Expr.Printer

/-!
# Predicates

When a rule applies. The two most frequent conditions, `n = 0` and `n = 1`, have predicates of their
own, which need no tree; the catch-all applies always.
-/

namespace PluralRules

/-- When a rule applies. The conditions `n = 0` and `n = 1` are `zero` and `one`. -/
inductive Predicate where
  | zero
  | one
  | always
  | condition (e : Expr)
  deriving DecidableEq, Repr

namespace Predicate

/-- The predicate without a tree for a condition, if it has one: an equation between the operand `n`
and the literal `0` or `1`, written without a fraction and with parentheses anywhere. -/
def ofEquation? (e : Expr) : Option Predicate :=
  match e.bare with
  | .binary (.relation .eq) left right =>
    match left.bare, right.bare with
    | .operand name, .literal value =>
      if name != "n" then none
      else if value = .ofInt 0 then some zero
      else if value = .ofInt 1 then some one
      else none
    | _, _ => none
  | _ => none

def ofExpr (e : Expr) : Predicate := (ofEquation? e).getD (condition e)

def eval (q : Quantity) : Predicate → Except EvalError Bool
  | zero => .ok (q.magnitude.compare (.ofInt 0) == .eq)
  | one => .ok (q.magnitude.compare (.ofInt 1) == .eq)
  | always => .ok true
  | condition e => e.evalBool q

/-- The text of a predicate; the one that always holds has none. -/
def chars : Predicate → List Char
  | zero => "n = 0".toList
  | one => "n = 1".toList
  | always => []
  | condition e => e.chars

def toString (p : Predicate) : String := String.ofList p.chars

def numbers : Predicate → List Quantity
  | zero | one | always => []
  | condition e => e.numbers

def text? (p : Predicate) : Option String := Quantity.textWith? p.numbers p.toString

end Predicate

end PluralRules
