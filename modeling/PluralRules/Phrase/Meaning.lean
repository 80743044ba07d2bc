import PluralRules.Expr.Basic
import PluralRules.ParseError
import PluralRules.Phrase.Basic
import PluralRules.Quantity.Numeral

/-!
# From phrases to expressions

The grammar is wider than the language. A phrase means an expression if its operators exist, if
ranges and lists stand only where a comparison takes them and hold nothing but numbers, and if a
divisor that is spelled out can divide.
-/

namespace PluralRules

namespace Excerpt

def complain (e : Excerpt) (fault : String → ParseFault) : Complaint := ⟨e.tail, fault e.toString⟩

def quantity (e : Excerpt) : Except Complaint Quantity :=
  (Quantity.ofChars e.text).mapError fun error => ⟨e.tail, .badNumeral error⟩

end Excerpt

namespace Phrase

/-- A complaint about a range or list that stands or consists of what it must not. -/
def misplaced (p : Phrase) : Complaint := p.excerpt.complain .misplacedSet

def bound : Phrase → Except Complaint Quantity
  | number text => text.quantity
  | p => .error p.misplaced

def rangeOf (least greatest : Phrase) : Except Complaint Expr := do
  let least ← least.bound
  let greatest ← greatest.bound
  .ok (.range least greatest)

def element : Phrase → Except Complaint Expr
  | number text => do .ok (.literal (← text.quantity))
  | span _ least greatest => rangeOf least greatest
  | p => .error p.misplaced

def binaryOp (text : Excerpt) : Except Complaint BinaryOp :=
  match BinaryOp.ofSymbol? text.toString with
  | some op => .ok op
  | none => .error (text.complain .unknownOperator)

def unaryOp (text : Excerpt) : Except Complaint UnaryOp :=
  match UnaryOp.ofSymbol? text.toString with
  | some op => .ok op
  | none => .error (text.complain .unknownOperator)

/-- Whether a divisor can divide, as far as that shows without a number to evaluate it for. -/
def canDivide (divisor : Expr) : Bool :=
  match divisor.bare with
  | .literal value => value.toInt64?.any (1 ≤ ·)
  | _ => true

/-- The expression that a phrase means. Ranges and lists are admitted only as a side of a
comparison, with or without parentheses around them. -/
def meaning (besideComparison : Bool) : Phrase → Except Complaint Expr
  | number text => do .ok (.literal (← text.quantity))
  | word text => .ok (.operand text.toString)
  | truth text => .ok (.truth (text.toString == "true"))
  | prefixed operator operand => do
    let op ← unaryOp operator
    let arg ← meaning false operand
    .ok (.unary op arg)
  | joined operator left right => do
    let op ← binaryOp operator
    let l ← meaning op.isRelational left
    let r ← meaning op.isRelational right
    if op == .modulo && !canDivide r then .error (right.excerpt.complain .divisorOutOfRange)
    .ok (.binary op l r)
  | span dots least greatest =>
    if besideComparison then rangeOf least greatest
    else .error (span dots least greatest).misplaced
  | list first more =>
    if besideComparison then do .ok (.group (← (first :: more).mapM element))
    else .error (list first more).misplaced
  | paren inner => do .ok (.paren (← meaning besideComparison inner))

end Phrase

end PluralRules
