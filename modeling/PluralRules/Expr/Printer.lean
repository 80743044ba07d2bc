import PluralRules.Expr.Basic
import PluralRules.Quantity.Printer

/-!
# Expressions as text

An operand is printed in parentheses exactly where it binds too loosely to stand there without them.
Chains group to the left, so on the right an operand of the same strength needs parentheses;
comparisons do not chain, so they need them on the left as well.
-/

namespace PluralRules

def UnaryOp.strength : UnaryOp → Nat
  | not => 3
  | sign _ => 8

/-- How an operator before an operand begins its text: a word needs a blank after it. -/
def UnaryOp.lead : UnaryOp → List Char
  | not => "not ".toList
  | op => op.symbol.toList

def BinaryOp.strength : BinaryOp → Nat
  | logic .or | logic .xor => 1
  | logic .and => 2
  | relation _ => 4
  | modulo => 7

namespace Expr

/-- How strongly an expression holds together; what cannot be torn apart has the greatest
strength. -/
def strength : Expr → Nat
  | unary op _ => op.strength
  | binary op _ _ => op.strength
  | group _ => 5
  | range _ _ => 6
  | literal _ | operand _ | truth _ | paren _ | ellipsis => 9

def enclosedIf (condition : Bool) (text : List Char) : List Char :=
  if condition then '(' :: text ++ [')'] else text

def leftNeedsParens (op : BinaryOp) (left : Expr) : Bool :=
  if op.isRelational then left.strength ≤ op.strength else left.strength < op.strength

mutual

def chars : Expr → List Char
  | literal value => value.chars
  | operand name => name.toList
  | truth b => (if b then "true" else "false").toList
  | unary op arg => op.lead ++ enclosedIf (arg.strength < op.strength) arg.chars
  | binary op left right =>
    enclosedIf (leftNeedsParens op left) left.chars ++ ' ' :: op.symbol.toList ++ ' ' ::
      enclosedIf (right.strength ≤ op.strength) right.chars
  | range least greatest => least.chars ++ '.' :: '.' :: greatest.chars
  | group items => itemChars items
  | paren inner => '(' :: inner.chars ++ [')']
  | ellipsis => ['…']

def itemChars : List Expr → List Char
  | [] => []
  | [item] => item.chars
  | item :: more => item.chars ++ ',' :: itemChars more

end

def toString (e : Expr) : String := String.ofList e.chars

/-! ### Texts that are printed -/

mutual

def numbers : Expr → List Quantity
  | literal value => [value]
  | unary _ arg => arg.numbers
  | binary _ left right => left.numbers ++ right.numbers
  | range least greatest => [least, greatest]
  | group items => itemNumbers items
  | paren inner => inner.numbers
  | operand _ | truth _ | ellipsis => []

def itemNumbers : List Expr → List Quantity
  | [] => []
  | item :: more => item.numbers ++ itemNumbers more

end

/-- Whether an expression can be printed. Its structural key, and with it its fingerprint, needs no
more. -/
def HasText (e : Expr) : Prop := ∀ q ∈ e.numbers, q.HasText

instance : DecidablePred HasText := fun e =>
  inferInstanceAs (Decidable (∀ q ∈ e.numbers, q.HasText))

def text? (e : Expr) : Option String := Quantity.textWith? e.numbers e.toString

end Expr

end PluralRules
