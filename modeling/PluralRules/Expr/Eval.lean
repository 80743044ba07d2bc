import PluralRules.Expr.Basic
import PluralRules.Quantity.Operand
import PluralRules.Quantity.Printer

/-!
# The value of an expression

An expression is evaluated for a quantity, the number that the plural rules are asked about. The
same tree can stand where a truth value is wanted (`evalBool`) or where a number is wanted
(`evalNumber`); where it has no such value, evaluation fails and names the kind of expression that
it met.

A comparison with a set reads as a statement on its elements. `=` holds when some element contains
the number, `!=` when every element misses it, and the other comparisons when they hold for every
bound. An element is looked at only if the earlier ones leave the answer open, so an element that is
no number and no range does no harm behind one that decides. A range contains integers only.
-/

namespace PluralRules

inductive Expected where
  | boolean | number | element
  deriving DecidableEq, Repr

/-- Why an expression has no value: an operation on quantities failed, there is no operand of that
name, an expression is not of the kind that was expected, or the bitwise complement was taken of a
number that is no integer. -/
inductive EvalError where
  | quantity (error : QuantityError)
  | unknownOperand (name : String)
  | unsupported (kind : Expr.Kind) (expected : Expected)
  | complementOfFraction
  deriving DecidableEq, Repr

def Expected.name : Expected → String
  | boolean => "boolean"
  | number => "number"
  | element => "constant or range"

def EvalError.message : EvalError → String
  | quantity (.exponentOutOfRange text) => "exponent out of range in " ++ quoted text
  | quantity error => error.message
  | unknownOperand name => "unknown operand " ++ quoted name
  | unsupported kind expected =>
    "unsupported " ++ kind.name ++ " expression where a " ++ expected.name ++ " is expected"
  | complementOfFraction => "unsupported complement expression where a integer is expected"

def Sign.apply (sign : Sign) (value : Quantity) : Except EvalError Quantity :=
  match sign with
  | minus => .ok value.negate
  | plus => .ok value
  | complement =>
    match value.complement? with
    | some result => .ok result
    | none => .error .complementOfFraction

namespace Expr

/-- The value of an expression where a number is wanted. -/
def evalNumber (q : Quantity) : Expr → Except EvalError Quantity
  | literal value => .ok value
  | operand name =>
    match Operand.ofName? name with
    | some feature => .ok (q.operand feature)
    | none => .error (.unknownOperand name)
  | paren inner => evalNumber q inner
  | unary op arg => do
    let value ← evalNumber q arg
    match op with
    | .sign sign => sign.apply value
    | .not => .error (.unsupported .unary .number)
  | binary .modulo left right => do
    let dividend ← evalNumber q left
    let divisor ← evalNumber q right
    (dividend.remainderBy divisor).mapError .quantity
  | e => .error (.unsupported e.kind .number)

/-! ### Comparing with sets -/

def contains (value : Quantity) : Expr → Except EvalError Bool
  | literal element => .ok (value.compare element == .eq)
  | range least greatest =>
    .ok (value.isInteger && value.compare least != .lt && value.compare greatest != .gt)
  | e => .error (.unsupported e.kind .element)

def misses (value : Quantity) (element : Expr) : Except EvalError Bool :=
  (contains value element).map (!·)

def bounds : Expr → Except EvalError (List Quantity)
  | literal element => .ok [element]
  | range least greatest => .ok [least, greatest]
  | e => .error (.unsupported e.kind .element)

/-- Whether a comparison holds for every bound of an element of a set. -/
def boundsHold (comparison : Comparison) (value : Quantity) (element : Expr) :
    Except EvalError Bool :=
  (bounds element).map fun bounds => bounds.all fun bound => comparison.holds (value.compare bound)

/-- Whether a number compares as stated with the elements of a set. -/
def compareWithSet (comparison : Comparison) (value : Quantity) (elements : List Expr) :
    Except EvalError Bool :=
  match comparison with
  | .eq => elements.anyM (contains value)
  | .ne => elements.allM (misses value)
  | comparison => elements.allM (boundsHold comparison value)

/-- Whether two sides compare as stated. A set on the left is compared from the right; of two sets,
the right one is taken for a number. -/
def compareSides (q : Quantity) (comparison : Comparison) (left right : Expr) :
    Except EvalError Bool :=
  match left.elements? with
  | some elements => do
    let value ← evalNumber q right
    compareWithSet comparison.swapped value elements
  | none => do
    let value ← evalNumber q left
    match right.elements? with
    | some elements => compareWithSet comparison value elements
    | none => do
      let target ← evalNumber q right
      .ok (comparison.holds (value.compare target))

/-- The value of an expression where a truth value is wanted. The right side of `and` and of `or` is
evaluated only if the left side leaves the answer open. -/
def evalBool (q : Quantity) : Expr → Except EvalError Bool
  | truth b => .ok b
  | paren inner => evalBool q inner
  | unary .not arg => do
    let b ← evalBool q arg
    .ok !b
  | binary (.logic connective) left right => do
    let b ← evalBool q left
    match connective, b with
    | .and, false => .ok false
    | .and, true => evalBool q right
    | .or, true => .ok true
    | .or, false => evalBool q right
    | .xor, b => do
      let c ← evalBool q right
      .ok (b != c)
  | binary (.relation comparison) left right => compareSides q comparison left right
  | e => .error (.unsupported e.kind .boolean)

/-! ### Parentheses mean nothing -/

/-- Parentheses around a set do not change its elements. -/
@[simp] theorem elements?_bare : ∀ e : Expr, e.bare.elements? = e.elements?
  | paren inner => elements?_bare inner
  | literal _ | operand _ | truth _ | unary _ _ | binary _ _ _ | range _ _ | group _ | ellipsis =>
    rfl

/-- Parentheses around an expression do not change its value. -/
@[simp] theorem evalNumber_bare (q : Quantity) : ∀ e : Expr, e.bare.evalNumber q = e.evalNumber q
  | paren inner => evalNumber_bare q inner
  | literal _ | operand _ | truth _ | unary _ _ | binary _ _ _ | range _ _ | group _ | ellipsis =>
    rfl

/-- Parentheses around an expression do not change its truth value. -/
@[simp] theorem evalBool_bare (q : Quantity) : ∀ e : Expr, e.bare.evalBool q = e.evalBool q
  | paren inner => evalBool_bare q inner
  | literal _ | operand _ | truth _ | unary _ _ | binary _ _ _ | range _ _ | group _ | ellipsis =>
    rfl

/-- Parentheses around the sides of a comparison do not change what it says. -/
@[simp] theorem compareSides_bare (q : Quantity) (comparison : Comparison) (left right : Expr) :
    compareSides q comparison left.bare right.bare = compareSides q comparison left right := by
  simp [compareSides]

end Expr

end PluralRules
