import PluralRules.Expr.Operator
import PluralRules.Quantity.Basic

/-!
# Rule expressions

The conditions of plural rules, as trees. Conditions, numbers and sets of numbers share one type, as
they share one grammar in rule text; what an expression is worth, if anything, is for
`Expr.evalBool` and `Expr.evalNumber` to say.

Parentheses are kept: they are part of how a rule is written, and mean nothing.
-/

namespace PluralRules

/-- A rule expression. A `literal` is a number as it is written, a `range` all integers from the
least to the greatest, a `group` numbers and ranges together, and `ellipsis` the mark of a list of
samples that could go on. -/
inductive Expr where
  | literal (value : Quantity)
  | operand (name : String)
  | truth (value : Bool)
  | unary (op : UnaryOp) (arg : Expr)
  | binary (op : BinaryOp) (left right : Expr)
  | range (least greatest : Quantity)
  | group (items : List Expr)
  | paren (inner : Expr)
  | ellipsis
  deriving Repr

namespace Expr

/-! ### Equality -/

mutual

/-- Whether two expressions are the same tree. -/
def same : Expr → Expr → Bool
  | literal a, literal b => a == b
  | operand a, operand b => a == b
  | truth a, truth b => a == b
  | unary o a, unary p b => o == p && same a b
  | binary o a b, binary p c d => o == p && same a c && same b d
  | range a b, range c d => a == c && b == d
  | group as, group bs => sameAll as bs
  | paren a, paren b => same a b
  | ellipsis, ellipsis => true
  | _, _ => false

def sameAll : List Expr → List Expr → Bool
  | [], [] => true
  | a :: as, b :: bs => same a b && sameAll as bs
  | _, _ => false

end

mutual

/-- Only equal trees are found to be the same. -/
theorem eq_of_same : ∀ (a b : Expr), same a b = true → a = b
  | literal _, b, h => by cases b <;> simp_all [same]
  | operand _, b, h => by cases b <;> simp_all [same]
  | truth _, b, h => by cases b <;> simp_all [same]
  | unary _ a, b, h => by
    cases b <;> simp_all [same]
    exact eq_of_same a _ h.2
  | binary _ a b, c, h => by
    cases c <;> simp_all [same]
    exact ⟨eq_of_same a _ h.1.2, eq_of_same b _ h.2⟩
  | range _ _, b, h => by cases b <;> simp_all [same]
  | group as, b, h => by
    cases b <;> simp_all [same]
    exact eq_of_sameAll as _ h
  | paren a, b, h => by
    cases b <;> simp_all [same]
    exact eq_of_same a _ h
  | ellipsis, b, h => by cases b <;> simp_all [same]

theorem eq_of_sameAll : ∀ (as bs : List Expr), sameAll as bs = true → as = bs
  | [], bs, h => by cases bs <;> simp_all [sameAll]
  | a :: as, bs, h => by
    cases bs <;> simp_all [sameAll]
    exact ⟨eq_of_same a _ h.1, eq_of_sameAll as _ h.2⟩

end

mutual

theorem same_self : ∀ a : Expr, same a a = true
  | literal _ | operand _ | truth _ | range _ _ | ellipsis => by simp [same]
  | unary _ a => by simp [same, same_self a]
  | binary _ a b => by simp [same, same_self a, same_self b]
  | group as => by simp [same, sameAll_self as]
  | paren a => by simp [same, same_self a]

theorem sameAll_self : ∀ as : List Expr, sameAll as as = true
  | [] => by simp [sameAll]
  | a :: as => by simp [sameAll, same_self a, sameAll_self as]

end

/-- The test for being the same tree decides equality. -/
theorem same_iff {a b : Expr} : same a b = true ↔ a = b :=
  ⟨eq_of_same a b, fun h => h ▸ same_self a⟩

instance : DecidableEq Expr := fun _ _ => decidable_of_iff _ same_iff

/-! ### Kinds -/

/-- The kinds of expressions, under the names that messages give them. -/
inductive Kind where
  | constant | operand | boolean | unary | binary | range | group | parenthesis | infinite
  deriving DecidableEq, Repr

def Kind.name : Kind → String
  | constant => "constant"
  | operand => "operand"
  | boolean => "boolean"
  | unary => "unary"
  | binary => "binary"
  | range => "range"
  | group => "group"
  | parenthesis => "parenthesis"
  | infinite => "infinite"

def kind : Expr → Kind
  | literal _ => .constant
  | operand _ => .operand
  | truth _ => .boolean
  | unary .. => .unary
  | binary .. => .binary
  | range .. => .range
  | group _ => .group
  | paren _ => .parenthesis
  | ellipsis => .infinite

/-- The expression without the parentheses around it. -/
def bare : Expr → Expr
  | paren inner => inner.bare
  | e => e

/-- The numbers and ranges of a set, with the parentheses around the set ignored. A range is a set
with one element. -/
def elements? : Expr → Option (List Expr)
  | group items => some items
  | range least greatest => some [range least greatest]
  | paren inner => inner.elements?
  | _ => none

end Expr

end PluralRules
