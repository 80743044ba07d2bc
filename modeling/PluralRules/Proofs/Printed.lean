import PluralRules.Expr.Key
import PluralRules.Proofs.Respelling
import PluralRules.Proofs.Rules

/-!
# Trees read back

A tree that was not read from a text need not be grouped: its operands may hold together less than
the operators require, and its literals may have negative scales. Printing puts parentheses around
such operands and spells such literals out, so what is read back is another tree, `Expr.asPrinted`.

That tree is grouped, and it has the same text, the same structural key and the same truth value for
every quantity. So every tree that makes sense can be printed and read without loss
(`Expr.exists_parse_toString`).
-/

namespace PluralRules

/-- A number without sign and without compact exponent. -/
def Quantity.IsPlain (q : Quantity) : Prop := 0 ≤ q.digits ∧ q.exponent = 0

/-- A number without sign and exponent is read back as conditions write numbers. -/
theorem Quantity.isWritten_respelled {q : Quantity} (h : q.IsPlain) : q.respelled.IsWritten := by
  rw [respelled_of_exponent_eq_zero h.2]
  exact ⟨Int.mul_nonneg h.1 (Int.natCast_nonneg _), Int.natCast_nonneg _, rfl⟩

namespace Expr

/-- The literals without sign and without compact exponent, and the divisors that can divide. -/
def Admitted.plain : Admitted := ⟨Quantity.IsPlain, fun e => Phrase.canDivide e = true⟩

def enclosed (condition : Bool) (e : Expr) : Expr := if condition then paren e else e

mutual

/-- The tree that the text of an expression spells: with the parentheses that it is printed with,
and with literals as they are read back. -/
def asPrinted : Expr → Expr
  | literal value => literal value.respelled
  | operand name => operand name
  | truth b => truth b
  | unary op arg => unary op (enclosed (arg.strength < op.strength) arg.asPrinted)
  | binary op left right =>
    binary op (enclosed (leftNeedsParens op left) left.asPrinted)
      (enclosed (right.strength ≤ op.strength) right.asPrinted)
  | range least greatest => range least.respelled greatest.respelled
  | group items => group (itemsAsPrinted items)
  | paren inner => paren inner.asPrinted
  | ellipsis => ellipsis

def itemsAsPrinted : List Expr → List Expr
  | [] => []
  | item :: more => item.asPrinted :: itemsAsPrinted more

end

theorem itemsAsPrinted_eq (items : List Expr) : itemsAsPrinted items = items.map asPrinted := by
  induction items with
  | nil => rfl
  | cons item more ih => exact congrArg (item.asPrinted :: ·) ih

/-! ### The tree is grouped and prints the same -/

theorem strength_asPrinted (e : Expr) : e.asPrinted.strength = e.strength := by
  cases e <;> rfl

theorem strength_lt_nine (op : BinaryOp) : op.strength < 9 := by
  cases op with
  | logic connective => cases connective <;> decide
  | _ => exact Nat.lt_of_sub_ne_zero (by simp [BinaryOp.strength])

/-- Parentheses help wherever they are needed. -/
theorem leftNeedsParens_enclosed (op : BinaryOp) (e : Expr) :
    leftNeedsParens op (enclosed (leftNeedsParens op e) e.asPrinted) = false := by
  cases h : leftNeedsParens op e with
  | true =>
    -- in parentheses, an operand holds together more strongly than any operator
    have hlt := strength_lt_nine op
    simp only [enclosed, leftNeedsParens, strength, if_true]
    split <;> exact decide_eq_false (by omega)
  | false =>
    show leftNeedsParens op e.asPrinted = false
    rw [← h, leftNeedsParens, leftNeedsParens, strength_asPrinted]

theorem isGrouped_enclosed {condition : Bool} {e : Expr} (h : e.IsGrouped) :
    (enclosed condition e).IsGrouped := by
  cases condition <;> exact h

/-- In the tree that a text spells, no operand needs parentheses. -/
theorem isGrouped_asPrinted : ∀ e : Expr, e.asPrinted.IsGrouped
  | unary op arg => by
    refine ⟨?_, isGrouped_enclosed (isGrouped_asPrinted arg)⟩
    by_cases h : arg.strength < op.strength
    · simp only [enclosed, h, decide_true, if_true]
      cases op <;> exact Nat.le_of_ble_eq_true rfl
    · simp only [enclosed, h, decide_false, Bool.false_eq_true, if_false, strength_asPrinted]
      exact Nat.not_lt.mp h
  | binary op left right => by
    refine ⟨leftNeedsParens_enclosed op left, ?_, isGrouped_enclosed (isGrouped_asPrinted left),
      isGrouped_enclosed (isGrouped_asPrinted right)⟩
    by_cases h : right.strength ≤ op.strength
    · simp only [enclosed, h, decide_true, if_true]
      exact strength_lt_nine op
    · simp only [enclosed, h, decide_false, Bool.false_eq_true, if_false, strength_asPrinted]
      exact Nat.not_le.mp h
  | paren inner => isGrouped_asPrinted inner
  | literal _ | operand _ | truth _ | range _ _ | group _ | ellipsis => trivial

theorem chars_enclosed (condition : Bool) (e : Expr) :
    (enclosed condition e).chars = enclosedIf condition e.chars := by
  cases condition <;> rfl

mutual

/-- The tree that the text of an expression spells is printed as the same text. -/
theorem chars_asPrinted : ∀ e : Expr, e.asPrinted.chars = e.chars
  | literal value => value.chars_respelled
  | operand _ | truth _ | ellipsis => rfl
  | unary op arg => by
    have hgrouped := isGrouped_asPrinted (unary op arg)
    rw [asPrinted] at hgrouped ⊢
    rw [chars_unary hgrouped, chars_enclosed, chars_asPrinted arg]
    rfl
  | binary op left right => by
    have hgrouped := isGrouped_asPrinted (binary op left right)
    rw [asPrinted] at hgrouped ⊢
    rw [chars_binary hgrouped, chars_enclosed, chars_enclosed, chars_asPrinted left,
      chars_asPrinted right, chars, List.append_assoc]
  | range least greatest => by
    simp only [asPrinted, chars, Quantity.chars_respelled]
  | group items => itemChars_asPrinted items
  | paren inner => by rw [asPrinted, chars, chars, chars_asPrinted inner]

theorem itemChars_asPrinted :
    ∀ items : List Expr, itemChars (itemsAsPrinted items) = itemChars items
  | [] => rfl
  | [item] => by
    simp only [itemsAsPrinted, itemChars]
    exact chars_asPrinted item
  | item :: next :: more => by
    have hmore := itemChars_asPrinted (next :: more)
    rw [itemsAsPrinted, itemsAsPrinted] at *
    rw [itemChars_cons_cons, itemChars_cons_cons, chars_asPrinted item, hmore]

end

theorem key_enclosed (condition : Bool) (e : Expr) : (enclosed condition e).key = e.key := by
  cases condition <;> rfl

mutual

/-- The tree that the text of an expression spells has the same key. -/
theorem key_asPrinted : ∀ e : Expr, e.asPrinted.key = e.key
  | operand _ | truth _ | ellipsis => rfl
  | literal value => congrArg ("(const ".toList ++ · ++ [')']) value.chars_respelled
  | unary op arg => by
    have harg := (key_enclosed (arg.strength < op.strength) _).trans (key_asPrinted arg)
    exact congrArg ('(' :: op.symbol.toList ++ ' ' :: · ++ [')']) harg
  | binary op left right => by
    have hleft := (key_enclosed (leftNeedsParens op left) _).trans (key_asPrinted left)
    have hright := (key_enclosed (right.strength ≤ op.strength) _).trans (key_asPrinted right)
    exact congrArg₂ ('(' :: op.symbol.toList ++ ' ' :: · ++ ' ' :: · ++ [')']) hleft hright
  | range least greatest =>
    congrArg₂ ("(range ".toList ++ · ++ ' ' :: · ++ [')']) least.chars_respelled
      greatest.chars_respelled
  | group items => congrArg ("(group".toList ++ · ++ [')']) (itemKeys_asPrinted items)
  | paren inner => key_asPrinted inner

theorem itemKeys_asPrinted : ∀ items : List Expr, itemKeys (itemsAsPrinted items) = itemKeys items
  | [] => rfl
  | item :: more => congrArg₂ (' ' :: · ++ ·) (key_asPrinted item) (itemKeys_asPrinted more)

end

/-! ### The tree makes sense -/

section Shapes

variable {sets : Bool} {e : Expr}

theorem IsElement.asPrinted (h : e.IsElement .plain) : e.asPrinted.IsElement .written := by
  cases h with
  | literal hq => exact .literal (Quantity.isWritten_respelled hq)
  | range hleast hgreatest =>
    exact .range (Quantity.isWritten_respelled hleast) (Quantity.isWritten_respelled hgreatest)

/-- Whether a divisor can divide does not depend on how it is spelled. -/
theorem canDivide_asPrinted (h : e.IsValue .plain sets) :
    Phrase.canDivide e.asPrinted = Phrase.canDivide e := by
  induction h with
  | literal hq => exact congrArg (Option.any (1 ≤ ·)) (Quantity.alike_respelled hq.2).toInt64?
  | paren _ ih => exact ih
  | _ => rfl

theorem IsValue.enclosed {admitted : Admitted} {condition : Bool} (h : e.IsValue admitted sets) :
    (enclosed condition e).IsValue admitted sets := by
  cases condition with
  | false => exact h
  | true => exact .paren h

theorem IsCondition.enclosed {admitted : Admitted} {condition : Bool} (h : e.IsCondition admitted) :
    (enclosed condition e).IsCondition admitted := by
  cases condition with
  | false => exact h
  | true => exact .paren h

theorem IsValue.asPrinted (h : e.IsValue .plain sets) : e.asPrinted.IsValue .written sets := by
  induction h with
  | literal hq => exact .literal (Quantity.isWritten_respelled hq)
  | operand hname => exact .operand hname
  | signed _ ih => exact .signed ih.enclosed
  | @modulo _ _ right _ hright hdivisor ihl ihr =>
    refine .modulo ihl.enclosed ihr.enclosed ?_
    show Phrase.canDivide (Expr.enclosed _ right.asPrinted) = true
    rw [← hdivisor, ← canDivide_asPrinted hright]
    cases decide (right.strength ≤ BinaryOp.modulo.strength) <;> rfl
  | range hleast hgreatest =>
    exact .range (Quantity.isWritten_respelled hleast) (Quantity.isWritten_respelled hgreatest)
  | @group items hlength hitems =>
    show IsValue _ true (Expr.group (itemsAsPrinted items))
    rw [itemsAsPrinted_eq]
    refine .group (by simpa using hlength) fun item hitem => ?_
    obtain ⟨item, hmem, rfl⟩ := List.mem_map.mp hitem
    exact (hitems item hmem).asPrinted
  | paren _ ih => exact .paren ih

/-- Conditions are read back as conditions. -/
theorem IsCondition.asPrinted (h : e.IsCondition .plain) : e.asPrinted.IsCondition .written := by
  induction h with
  | truth => exact .truth
  | not _ ih => exact .not ih.enclosed
  | logic _ _ ihl ihr => exact .logic ihl.enclosed ihr.enclosed
  | relation hleft hright => exact .relation hleft.asPrinted.enclosed hright.asPrinted.enclosed
  | paren _ ih => exact .paren ih

end Shapes

/-! ### The tree has the same value -/

section Value

variable {sets : Bool} {e : Expr} (x : Quantity)

/-- Signs make of quantities that are alike quantities that are alike. -/
theorem matches_apply (sign : Sign) {a b : Quantity} (h : Quantity.Alike a b) :
    Matches Eq Quantity.Alike (sign.apply a) (sign.apply b) := by
  cases sign with
  | minus => exact h.negate
  | plus => exact h
  | complement =>
    rw [Sign.apply, Sign.apply, h.complement?]
    cases hresult : b.complement? with
    | none => exact rfl
    | some result =>
      obtain ⟨z, -, rfl⟩ := Option.map_eq_some_iff.mp hresult
      exact Quantity.alike_self rfl

theorem evalNumber_enclosed (condition : Bool) (e : Expr) :
    (enclosed condition e).evalNumber x = e.evalNumber x := by
  cases condition <;> rfl

/-- The number of an expression is spelled like that of the tree that its text spells. -/
theorem matches_evalNumber (h : e.IsValue .plain sets) :
    Matches Eq Quantity.Alike (e.asPrinted.evalNumber x) (e.evalNumber x) := by
  induction h with
  | literal hq => exact Quantity.alike_respelled hq.2
  | @operand _ name =>
    rw [Expr.asPrinted, evalNumber]
    cases Operand.ofName? name with
    | none => exact rfl
    | some feature => exact Quantity.alike_self (x.exponent_operand feature)
  | @signed _ sign arg _ ih =>
    rw [Expr.asPrinted, evalNumber, evalNumber, evalNumber_enclosed]
    exact ih.bind fun a b hab => matches_apply sign hab
  | @modulo _ left right _ _ _ ihl ihr =>
    rw [Expr.asPrinted, evalNumber, evalNumber, evalNumber_enclosed, evalNumber_enclosed]
    refine ihl.bind fun a b hab => ihr.bind fun c d hcd => ?_
    rw [hab.remainderBy hcd]
    -- both remainders are the same quantity, and it is not compact
    cases hremainder : b.remainderBy d with
    | error _ => exact rfl
    | ok r => exact Quantity.alike_self (Quantity.exponent_of_remainderBy hremainder)
  | range | group => exact rfl
  | paren _ ih => exact ih

/-- A set is read back with its elements. -/
theorem elements?_asPrinted : ∀ e : Expr, e.asPrinted.elements? = e.elements?.map itemsAsPrinted
  | paren inner => elements?_asPrinted inner
  | group _ | range _ _ | literal _ | operand _ | truth _ | unary _ _ | binary _ _ _ | ellipsis =>
    rfl

theorem elements?_enclosed (condition : Bool) (e : Expr) :
    (enclosed condition e).elements? = e.elements? := by
  cases condition <;> rfl

/-- An element contains what it contained before it was printed. -/
theorem matches_contains {a b : Quantity} (hab : Quantity.Alike a b) (h : e.IsElement .plain) :
    Matches Eq Eq (contains a e.asPrinted) (contains b e) := by
  cases h with
  | literal hq =>
    have hcompare := hab.compare (Quantity.alike_respelled hq.2)
    exact congrArg (· == Ordering.eq) hcompare
  | range hleast hgreatest =>
    have hleast := hab.compare (Quantity.alike_respelled hleast.2)
    have hgreatest := hab.compare (Quantity.alike_respelled hgreatest.2)
    show (_ && _ && _) = (_ && _ && _)
    rw [hab.isInteger, hleast, hgreatest]

theorem matches_boundsHold {a b : Quantity} (hab : Quantity.Alike a b) (comparison : Comparison)
    (h : e.IsElement .plain) :
    Matches Eq Eq (boundsHold comparison a e.asPrinted) (boundsHold comparison b e) := by
  cases h with
  | literal hq =>
    have hcompare := hab.compare (Quantity.alike_respelled hq.2)
    exact congrArg (comparison.holds · && true) hcompare
  | range hleast hgreatest =>
    have hleast := hab.compare (Quantity.alike_respelled hleast.2)
    have hgreatest := hab.compare (Quantity.alike_respelled hgreatest.2)
    exact congrArg₂ (fun left right => comparison.holds left && (comparison.holds right && true))
      hleast hgreatest

/-- Comparing with a set is not changed by printing. -/
theorem matches_compareWithSet {a b : Quantity} (hab : Quantity.Alike a b) (comparison : Comparison)
    {elements : List Expr} (h : ∀ item ∈ elements, item.IsElement .plain) :
    Matches Eq Eq (compareWithSet comparison a (itemsAsPrinted elements))
      (compareWithSet comparison b elements) := by
  rw [itemsAsPrinted_eq]
  -- the elements correspond one to one, each to the tree that its text spells
  have hpointwise : ∀ {R : Expr → Expr → Prop}, (∀ item ∈ elements, R item.asPrinted item) →
      List.Forall₂ R (elements.map Expr.asPrinted) elements :=
    fun hR => List.forall₂_map_left_iff.mpr (List.forall₂_same.mpr hR)
  have hbounds := fun comparison : Comparison =>
    matches_allM (hpointwise fun item hitem => matches_boundsHold hab comparison (h item hitem))
  cases comparison with
  | eq => exact matches_anyM (hpointwise fun item hitem => matches_contains hab (h item hitem))
  | ne =>
    exact matches_allM (hpointwise fun item hitem =>
      (matches_contains hab (h item hitem)).map fun _ _ hb => congrArg (!·) hb)
  | lt => exact hbounds .lt
  | le => exact hbounds .le
  | gt => exact hbounds .gt
  | ge => exact hbounds .ge

/-- Comparing two sides is not changed by printing. -/
theorem matches_compareSides (comparison : Comparison) {left right : Expr}
    (hl : left.IsValue .plain true) (hr : right.IsValue .plain true) :
    Matches Eq Eq (compareSides x comparison left.asPrinted right.asPrinted)
      (compareSides x comparison left right) := by
  rw [compareSides, compareSides, elements?_asPrinted, elements?_asPrinted]
  cases hleft : left.elements? with
  | some elements =>
    refine (matches_evalNumber x hr).bind fun a b hab => ?_
    exact matches_compareWithSet hab comparison.swapped (hl.isElement_of_elements? hleft)
  | none =>
    refine (matches_evalNumber x hl).bind fun a b hab => ?_
    cases hright : right.elements? with
    | some elements =>
      exact matches_compareWithSet hab comparison (hr.isElement_of_elements? hright)
    | none =>
      refine (matches_evalNumber x hr).bind fun c d hcd => ?_
      exact congrArg comparison.holds (hab.compare hcd)

/-- Parentheses that are printed or not do not change a truth value. -/
theorem evalBool_enclosed (condition : Bool) (e : Expr) :
    (enclosed condition e).evalBool x = e.evalBool x := by
  cases condition <;> rfl

theorem compareSides_enclosed (comparison : Comparison) (b c : Bool) (left right : Expr) :
    compareSides x comparison (enclosed b left) (enclosed c right) =
      compareSides x comparison left right := by
  simp only [compareSides, elements?_enclosed, evalNumber_enclosed]

/-- A condition and the tree that its text spells have the same truth value. -/
theorem evalBool_asPrinted (h : e.IsCondition .plain) : e.asPrinted.evalBool x = e.evalBool x := by
  induction h with
  | truth => rfl
  | not _ ih => rw [Expr.asPrinted, evalBool, evalBool, evalBool_enclosed, ih]
  | logic _ _ ihl ihr =>
    rw [Expr.asPrinted, evalBool, evalBool, evalBool_enclosed, evalBool_enclosed, ihl, ihr]
  | @relation comparison _ _ hl hr =>
    rw [Expr.asPrinted, evalBool, evalBool, compareSides_enclosed]
    exact (matches_compareSides x comparison hl hr).eq
  | paren _ ih => exact ih

end Value

end Expr

/-! ### The tree is read from the text -/

/-- The text of a condition is read as the condition, behind the name of a case. -/
theorem Rule.parse_named {name : String} {e : Expr} (hname : IsCaseName name.toList)
    (he : e.IsCondition .written) (hg : e.IsGrouped) :
    parse (name ++ ": " ++ e.toString) = .ok ⟨{ case := name }, some e, [], 1⟩ := by
  let rule : Rule := ⟨{ case := name }, some e, [], 1⟩
  have hempty : Label.IsEntryText "".toList := ⟨⟨rfl, rfl⟩, nofun⟩
  have hcase : IsCaseName rule.case.toList := hname
  have hprintable : rule.IsPrintable := by
    refine ⟨⟨hempty, hempty⟩, hcase, ?_, nofun⟩
    rintro _ ⟨⟩
    exact ⟨he, hg⟩
  have hlabel : rule.labelChars = [] := if_pos rfl
  have hchars : (name ++ ": " ++ e.toString).toList = rule.chars := by
    have htext : e.toString.toList = e.chars := String.toList_ofList
    have hlead : ": ".toList = [':', ' '] := by decide
    rw [chars_eq hcase, caseChars_eq hcase, hlabel, String.toList_append, String.toList_append,
      htext, hlead]
    show _ = [] ++ (name.toList ++ ':' :: ' ' :: e.chars ++ [])
    simp
  rw [parse, hchars]
  exact ofChars_chars hprintable

/-- A printed condition is parsed back as the condition of a case. -/
theorem Rule.parse_case {e : Expr} (he : e.IsCondition .written) (hg : e.IsGrouped) :
    parse ("x: " ++ e.toString) = .ok ⟨{ case := "x" }, some e, [], 1⟩ := by
  have hname : IsCaseName "x".toList := ⟨'x', [], by decide, rfl, nofun⟩
  have hlead : "x: " = "x" ++ ": " := by decide
  rw [hlead]
  exact parse_named hname he hg

namespace Expr

/-- Every condition whose literals have neither sign nor compact exponent, and whose literal
divisors can divide, is printed as a text that is read as an equivalent condition: one with the same
text, the same structural key and, for every quantity, the same truth value or error. -/
theorem exists_parse_toString {t : Expr} (h : t.IsCondition .plain) :
    ∃ rule u, Rule.parse ("x: " ++ t.toString) = .ok rule ∧ rule.condition = some u ∧
      u.key = t.key ∧ u.toString = t.toString ∧ ∀ x : Quantity, u.evalBool x = t.evalBool x := by
  have htext : t.asPrinted.toString = t.toString := by
    rw [toString, toString, chars_asPrinted]
  refine ⟨⟨{ case := "x" }, some t.asPrinted, [], 1⟩, t.asPrinted, ?_, rfl, key_asPrinted t, htext,
    fun x => evalBool_asPrinted x h⟩
  rw [← htext]
  exact Rule.parse_case h.asPrinted (isGrouped_asPrinted t)

/-- A conjunction below a negation, with a remainder as a divisor and with literals whose zeros do
not show in their digits. -/
theorem exists_parse_toString_of_regrouped :
    let t : Expr := .unary .not (.binary (.logic .and) (.truth true) (.binary (.relation .eq)
      (.binary .modulo (.operand "n") (.binary .modulo (.operand "i") (.literal ⟨7, -1, 0⟩)))
      (.group [.range ⟨1, -1, 0⟩ ⟨2, -1, 0⟩, .literal ⟨300, 2, 0⟩])))
    t.toString = "not (true and n % (i % 70) = 10..20,3.00)" ∧
      ∃ rule u, Rule.parse ("x: " ++ t.toString) = .ok rule ∧ rule.condition = some u ∧
        u.key = t.key ∧ u.toString = t.toString ∧ ∀ x : Quantity, u.evalBool x = t.evalBool x := by
  refine ⟨by decide +kernel, exists_parse_toString ?_⟩
  have hword : ∀ name ∈ ["n", "i"], Grammar.IsWord name.toList := by decide +kernel
  have hplain : ∀ q ∈ ([⟨7, -1, 0⟩, ⟨1, -1, 0⟩, ⟨2, -1, 0⟩, ⟨300, 2, 0⟩] : List Quantity),
      q.IsPlain := by
    simp only [Quantity.IsPlain]
    decide
  refine .not (.logic .truth (.relation ?_ (.group (by decide) ?_)))
  · exact .modulo (.operand (hword _ (by simp))) (.modulo (.operand (hword _ (by simp)))
      (.literal (hplain _ (by simp))) rfl) rfl
  · intro item hitem
    obtain rfl | rfl : item = .range ⟨1, -1, 0⟩ ⟨2, -1, 0⟩ ∨ item = .literal ⟨300, 2, 0⟩ := by
      simpa using hitem
    · exact .range (hplain _ (by simp)) (hplain _ (by simp))
    · exact .literal (hplain _ (by simp))

/-- Parentheses around a divisor do not hide it: it is not enough that no divisor is itself a
literal that cannot divide. -/
theorem not_parse_toString_of_hidden_divisor :
    let t : Expr := .binary (.relation .eq)
      (.binary .modulo (.operand "n") (.paren (.literal ⟨0, 0, 0⟩))) (.literal ⟨1, 0, 0⟩)
    t.IsCondition ⟨Quantity.IsPlain, fun e => ∀ q, e = .literal q → q.toInt64?.any (1 ≤ ·) = true⟩ ∧
      Rule.parse ("x: " ++ t.toString) = .error ⟨⟨1, 9⟩, .divisorOutOfRange "0"⟩ := by
  refine ⟨.relation (.modulo (.operand ?_) (.paren (.literal ?_)) nofun) (.literal ?_), ?_⟩
  · decide +kernel
  · exact ⟨Int.le_refl 0, rfl⟩
  · exact ⟨Int.zero_le_ofNat 1, rfl⟩
  · decide +kernel

end Expr

end PluralRules
