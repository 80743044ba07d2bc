import PluralRules.Expr.Basic
import PluralRules.Fingerprint
import PluralRules.Quantity.Printer

/-!
# Structural keys

The structural key of an expression writes its tree with every node in parentheses, operator first.
It leaves out the parentheses of the rule text, which mean nothing, so that expressions that differ
only in those have the same key, and with it the same fingerprint.
-/

namespace PluralRules.Expr

mutual

/-- The structural key of an expression. -/
def key : Expr → List Char
  | literal value => "(const ".toList ++ value.chars ++ [')']
  | operand name => "(operand ".toList ++ name.toList ++ [')']
  | truth b => (if b then "(true)" else "(false)").toList
  | unary op arg => '(' :: op.symbol.toList ++ ' ' :: arg.key ++ [')']
  | binary op left right => '(' :: op.symbol.toList ++ ' ' :: left.key ++ ' ' :: right.key ++ [')']
  | range least greatest => "(range ".toList ++ least.chars ++ ' ' :: greatest.chars ++ [')']
  | group items => "(group".toList ++ itemKeys items ++ [')']
  | paren inner => inner.key
  | ellipsis => "(inf)".toList

/-- The keys of the elements of a list, each after a blank. -/
def itemKeys : List Expr → List Char
  | [] => []
  | item :: more => ' ' :: item.key ++ itemKeys more

end

def fingerprint (e : Expr) : Fingerprint := Fingerprint.ofChars e.key

end PluralRules.Expr
