import PluralRules.Expr.Printer
import PluralRules.Phrase.Grammar
import PluralRules.Phrase.Meaning

/-!
# The shapes of expressions

The type of expressions admits trees that no rule text spells: a comparison of comparisons, a list
inside an arithmetic operation, a truth value with a sign. Here is said which trees make sense:
those that are conditions (`Expr.IsCondition`), and those that are numbers or, where sets are
admitted, sets of numbers (`Expr.IsValue`). Which literals and which divisors may occur is a
parameter (`Expr.Admitted`).

Apart from that, a tree is grouped (`Expr.IsGrouped`) if no operand has to be put in parentheses
when the tree is printed.
-/

namespace PluralRules

/-- A word that can name an operand. -/
def Grammar.IsWord (s : List Char) : Prop :=
  s ≠ [] ∧ (∀ c ∈ s, isWordChar c = true) ∧ s ∉ reserved

instance : DecidablePred Grammar.IsWord := fun s =>
  decidable_of_iff (s ≠ [] ∧ s.all Grammar.isWordChar = true ∧ s ∉ Grammar.reserved) (by
    rw [List.all_eq_true, Grammar.IsWord])

/-- A number as the text of a condition spells it. -/
structure Quantity.IsWritten (q : Quantity) : Prop where
  digits : 0 ≤ q.digits
  scale : 0 ≤ q.scale
  exponent : q.exponent = 0

namespace Expr

/-- The literals and the divisors that may occur in a tree. -/
structure Admitted where
  Literal : Quantity → Prop
  Divisor : Expr → Prop

section Shapes

variable (admitted : Admitted)

inductive IsElement : Expr → Prop
  | literal {q : Quantity} : admitted.Literal q → IsElement (.literal q)
  | range {least greatest : Quantity} : admitted.Literal least → admitted.Literal greatest →
      IsElement (.range least greatest)

/-- A tree that stands for a number or, if `sets` is true, for a number or a set of numbers. -/
inductive IsValue : (sets : Bool) → Expr → Prop
  | literal {sets : Bool} {q : Quantity} : admitted.Literal q → IsValue sets (.literal q)
  | operand {sets : Bool} {name : String} : Grammar.IsWord name.toList →
      IsValue sets (.operand name)
  | signed {sets : Bool} {sign : Sign} {arg : Expr} : IsValue false arg →
      IsValue sets (.unary (.sign sign) arg)
  | modulo {sets : Bool} {left right : Expr} : IsValue false left → IsValue false right →
      admitted.Divisor right → IsValue sets (.binary .modulo left right)
  | range {least greatest : Quantity} : admitted.Literal least → admitted.Literal greatest →
      IsValue true (.range least greatest)
  | group {items : List Expr} : 2 ≤ items.length → (∀ item ∈ items, IsElement admitted item) →
      IsValue true (.group items)
  | paren {sets : Bool} {inner : Expr} : IsValue sets inner → IsValue sets (.paren inner)

/-- A tree that stands for a truth value. -/
inductive IsCondition : Expr → Prop
  | truth {b : Bool} : IsCondition (.truth b)
  | not {arg : Expr} : IsCondition arg → IsCondition (.unary .not arg)
  | logic {connective : Connective} {left right : Expr} : IsCondition left → IsCondition right →
      IsCondition (.binary (.logic connective) left right)
  | relation {comparison : Comparison} {left right : Expr} : IsValue admitted true left →
      IsValue admitted true right → IsCondition (.binary (.relation comparison) left right)
  | paren {inner : Expr} : IsCondition inner → IsCondition (.paren inner)

end Shapes

/-- The literals that are written as conditions write numbers, and the divisors that can divide. -/
def Admitted.written : Admitted := ⟨Quantity.IsWritten, fun e => Phrase.canDivide e = true⟩

/-- No operand needs parentheses where it stands. -/
def IsGrouped : Expr → Prop
  | unary op arg => op.strength ≤ arg.strength ∧ arg.IsGrouped
  | binary op left right =>
    leftNeedsParens op left = false ∧ op.strength < right.strength ∧ left.IsGrouped ∧
    right.IsGrouped
  | paren inner => inner.IsGrouped
  | _ => True

section Text

variable {e l r : Expr}

/-- Where no operand needs parentheses, the operands are printed as they are. -/
theorem chars_binary {op : BinaryOp} (h : (binary op l r).IsGrouped) :
    (binary op l r).chars = l.chars ++ (' ' :: op.symbol.toList ++ ' ' :: r.chars) := by
  obtain ⟨hparens, hstrength, -, -⟩ := h
  have hle : ¬ r.strength ≤ op.strength := Nat.not_le.mpr hstrength
  simp [chars, enclosedIf, hparens, hle]

/-- The text of a grouped operation begins with the text of its left operand. -/
theorem chars_binary_append {op : BinaryOp} (h : (binary op l r).IsGrouped) (rest : List Char) :
    (binary op l r).chars ++ rest =
      l.chars ++ (' ' :: op.symbol.toList ++ ' ' :: (r.chars ++ rest)) := by
  simp [chars_binary h]

/-- The left operand has a shorter text than the whole. -/
theorem length_left_lt {op : BinaryOp} (h : (binary op l r).IsGrouped) :
    l.chars.length < (binary op l r).chars.length := by
  simp [chars_binary h]

theorem length_right_lt {op : BinaryOp} (h : (binary op l r).IsGrouped) :
    r.chars.length < (binary op l r).chars.length := by
  simp only [chars_binary h, List.length_append, List.length_cons]
  omega

/-- Where no operand needs parentheses, an operator stands right before its operand. -/
theorem chars_unary {op : UnaryOp} (h : (unary op e).IsGrouped) :
    (unary op e).chars = op.lead ++ e.chars := by
  have hlt : ¬ e.strength < op.strength := Nat.not_lt.mpr h.1
  simp [chars, enclosedIf, hlt]

theorem chars_paren_append (rest : List Char) :
    (paren e).chars ++ rest = '(' :: (e.chars ++ ')' :: rest) := by simp [chars]

theorem length_chars_paren : (paren e).chars.length = e.chars.length + 2 := by simp [chars]

theorem itemChars_cons_cons (item next : Expr) (more : List Expr) :
    itemChars (item :: next :: more) = item.chars ++ ',' :: itemChars (next :: more) := by
  rw [itemChars]
  exact fun h => by cases h

/-- The elements of a list are printed with commas between them. -/
theorem itemChars_eq : ∀ items : List Expr, itemChars items = [','].intercalate (items.map chars)
  | [] => rfl
  | [item] => by simp [itemChars]
  | item :: next :: more => by
    rw [itemChars_cons_cons, itemChars_eq (next :: more)]
    simp [List.intercalate_cons_cons]

/-- No element of a list has a longer text than the list. -/
theorem length_le_itemChars : ∀ {items : List Expr}, e ∈ items →
    e.chars.length ≤ (itemChars items).length
  | [item], h => by
    rw [List.mem_singleton.mp h]
    simp [itemChars]
  | item :: next :: more, h => by
    rw [itemChars_cons_cons, List.length_append, List.length_cons]
    rcases List.mem_cons.mp h with rfl | h
    · omega
    · have := length_le_itemChars h
      omega

end Text

section Strength

variable {admitted : Admitted} {sets : Bool} {e : Expr}

/-- The elements of lists are values themselves, and hold together more strongly than lists. -/
theorem IsElement.isValue (h : e.IsElement admitted) :
    e.IsValue admitted true ∧ e.IsGrouped ∧ 6 ≤ e.strength := by
  cases h with
  | literal hq => exact ⟨.literal hq, trivial, show 6 ≤ 9 by decide⟩
  | range hl hr => exact ⟨.range hl hr, trivial, Nat.le_refl 6⟩

/-- Of the trees that stand for values, those with the weakest hold are lists. -/
theorem IsValue.five_le_strength (h : IsValue admitted sets e) : 5 ≤ e.strength := by
  cases h <;> simp [strength, UnaryOp.strength, BinaryOp.strength]

/-- A value that is no set holds together at least like arithmetic. -/
theorem IsValue.seven_le_strength (h : IsValue admitted false e) : 7 ≤ e.strength := by
  cases h <;> simp [strength, UnaryOp.strength, BinaryOp.strength]

/-- Every condition holds together at least like a disjunction. -/
theorem IsCondition.one_le_strength (h : IsCondition admitted e) : 1 ≤ e.strength := by
  cases h with
  | @logic connective => cases connective <;> exact Nat.le_of_ble_eq_true rfl
  | _ => simp [strength, UnaryOp.strength, BinaryOp.strength]

end Strength

section Sets

variable {admitted : Admitted} {sets : Bool} {e : Expr} {elements : List Expr}

/-- The elements of a set are numbers and ranges. -/
theorem IsValue.isElement_of_elements? (h : e.IsValue admitted sets)
    (helements : e.elements? = some elements) : ∀ item ∈ elements, item.IsElement admitted := by
  induction h with
  | range hleast hgreatest =>
    cases helements
    exact List.forall_mem_singleton.mpr (.range hleast hgreatest)
  | group _ hitems => cases helements; exact hitems
  | paren _ ih => exact ih helements
  | _ => cases helements

/-- Where no sets are admitted there is none. -/
theorem IsValue.elements?_eq_none (h : e.IsValue admitted false) : e.elements? = none := by
  generalize hsets : false = sets at h
  induction h with
  | range | group => cases hsets
  | paren _ ih => exact ih hsets
  | _ => rfl

end Sets

end Expr

end PluralRules
