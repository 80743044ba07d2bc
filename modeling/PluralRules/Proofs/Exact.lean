import PluralRules.Proofs.Result
import PluralRules.Proofs.Value

/-!
# Evaluation computes with exact numbers

Quantities are digits with a scale, and the same number has many of them. Here is an evaluator that
knows nothing of digits and scales: it computes with rational numbers, takes the value of every
literal and of every operand, and is written down from what the operators mean (`Expr.exactBool`).

The main result is that evaluation agrees with it, on every expression and for every quantity
(`Expr.evalBool_exact`). Where both fail they fail for the same reason; only the text of a divisor
that an error quotes is a matter of quantities. So two quantities whose operands have the same
values are told apart by an expression only if it mentions another operand.
-/

namespace PluralRules

/-- Why an evaluation fails, without the text of a number that the error may quote. -/
inductive EvalError.Variant where
  | malformed
  | exponentOutOfRange
  | divisorOutOfRange
  | unknownOperand (name : String)
  | unsupported (kind : Expr.Kind) (expected : Expected)
  | complementOfFraction
  deriving DecidableEq, Repr

def EvalError.variant : EvalError → Variant
  | quantity (.malformed _) => .malformed
  | quantity (.exponentOutOfRange _) => .exponentOutOfRange
  | quantity (.divisorOutOfRange _) => .divisorOutOfRange
  | unknownOperand name => .unknownOperand name
  | unsupported kind expected => .unsupported kind expected
  | complementOfFraction => .complementOfFraction

/-! ### Evaluation with rational numbers -/

def Comparison.holdsOf : Comparison → ℚ → ℚ → Bool
  | eq, x, y => x = y
  | ne, x, y => x ≠ y
  | lt, x, y => x < y
  | le, x, y => x ≤ y
  | gt, x, y => y < x
  | ge, x, y => y ≤ x

def Sign.exactApply (sign : Sign) (x : ℚ) : Except EvalError.Variant ℚ :=
  match sign with
  | minus => .ok (-x)
  | plus => .ok x
  | complement => if x.isInt then .ok (-x - 1) else .error .complementOfFraction

/-- The remainder of dividing a number toward zero by an integer from 1 to the greatest of 64
bits. -/
def exactRemainder (x y : ℚ) : Except EvalError.Variant ℚ :=
  if y.isInt ∧ 1 ≤ y ∧ y ≤ 2 ^ 63 - 1 then .ok (x - y * truncated (x / y))
  else .error .divisorOutOfRange

namespace Expr

/-- The number that an expression stands for, if operands stand for the given numbers. -/
def exactNumber (env : Operand → ℚ) : Expr → Except EvalError.Variant ℚ
  | literal value => .ok value.value
  | operand name =>
    match Operand.ofName? name with
    | some feature => .ok (env feature)
    | none => .error (.unknownOperand name)
  | paren inner => exactNumber env inner
  | unary op arg => do
    let x ← exactNumber env arg
    match op with
    | .sign sign => sign.exactApply x
    | .not => .error (.unsupported .unary .number)
  | binary .modulo left right => do
    let x ← exactNumber env left
    let y ← exactNumber env right
    exactRemainder x y
  | e => .error (.unsupported e.kind .number)

/-- Whether an element of a set contains a number: a range contains the integers between its
bounds. -/
def exactContains (x : ℚ) : Expr → Except EvalError.Variant Bool
  | literal element => .ok (x = element.value)
  | range least greatest => .ok (x.isInt && least.value ≤ x && x ≤ greatest.value)
  | e => .error (.unsupported e.kind .element)

def exactBoundsHold (comparison : Comparison) (x : ℚ) : Expr → Except EvalError.Variant Bool
  | literal element => .ok (comparison.holdsOf x element.value)
  | range least greatest =>
    .ok (comparison.holdsOf x least.value && comparison.holdsOf x greatest.value)
  | e => .error (.unsupported e.kind .element)

def exactCompareWithSet (comparison : Comparison) (x : ℚ) (elements : List Expr) :
    Except EvalError.Variant Bool :=
  match comparison with
  | .eq => elements.anyM (exactContains x)
  | .ne => elements.allM fun element => (exactContains x element).map (!·)
  | comparison => elements.allM (exactBoundsHold comparison x)

def exactCompareSides (env : Operand → ℚ) (comparison : Comparison) (left right : Expr) :
    Except EvalError.Variant Bool :=
  match left.elements? with
  | some elements => do
    let x ← exactNumber env right
    exactCompareWithSet comparison.swapped x elements
  | none => do
    let x ← exactNumber env left
    match right.elements? with
    | some elements => exactCompareWithSet comparison x elements
    | none => do
      let y ← exactNumber env right
      .ok (comparison.holdsOf x y)

/-- The truth value that an expression stands for, if operands stand for the given numbers. -/
def exactBool (env : Operand → ℚ) : Expr → Except EvalError.Variant Bool
  | truth b => .ok b
  | paren inner => exactBool env inner
  | unary .not arg => do
    let b ← exactBool env arg
    .ok !b
  | binary (.logic connective) left right => do
    let b ← exactBool env left
    match connective, b with
    | .and, false => .ok false
    | .and, true => exactBool env right
    | .or, true => .ok true
    | .or, false => exactBool env right
    | .xor, b => do
      let c ← exactBool env right
      .ok (b != c)
  | binary (.relation comparison) left right => exactCompareSides env comparison left right
  | e => .error (.unsupported e.kind .boolean)

end Expr

/-! ### Agreement -/

/-- Two results agree if both are errors of the same variant, or values that correspond. -/
abbrev Agrees {α β : Type} (R : α → β → Prop) :
    Except EvalError α → Except EvalError.Variant β → Prop :=
  Matches (fun e v => e.variant = v) R

/-- A quantity and the number it stands for. -/
def StandsFor (q : Quantity) (x : ℚ) : Prop := q.value = x

/-- Truth values agree if they are equal. -/
theorem eq_of_agrees {α : Type} {x : Except EvalError α} {y : Except EvalError.Variant α}
    (h : Agrees Eq x y) : x.mapError EvalError.variant = y := by
  match x, y, h with
  | .ok a, .ok b, h => exact congrArg Except.ok h
  | .error e, .error v, h => exact congrArg Except.error h

/-! ### The operations agree -/

/-- A comparison holds of quantities exactly if it holds of the numbers that they stand for. -/
theorem Comparison.holds_compare (comparison : Comparison) (a b : Quantity) :
    comparison.holds (a.compare b) = comparison.holdsOf a.value b.value := by
  rw [Quantity.compare_eq]
  rcases lt_trichotomy a.value b.value with h | h | h
  · rw [compare_lt_iff_lt.mpr h]
    cases comparison <;> simp [holds, holdsOf, h, h.ne, h.le, h.not_ge, h.not_gt]
  · rw [compare_eq_iff_eq.mpr h]
    cases comparison <;> simp [holds, holdsOf, h]
  · rw [compare_gt_iff_gt.mpr h]
    cases comparison <;> simp [holds, holdsOf, h, h.ne', h.le, h.not_ge, h.not_gt]

/-- Signs act on quantities as they act on numbers. -/
theorem Sign.agrees_apply (sign : Sign) (q : Quantity) :
    Agrees StandsFor (sign.apply q) (sign.exactApply q.value) := by
  cases sign with
  | minus => exact q.value_negate
  | plus => exact rfl
  | complement =>
    rw [Sign.apply, exactApply, ← Quantity.isInteger_eq]
    cases h : q.complement? with
    | none =>
      rw [Quantity.complement?_eq_none h]
      exact rfl
    | some r =>
      have hint : q.isInteger = true := by
        obtain ⟨z, hz, -⟩ := Option.map_eq_some_iff.mp h
        rw [Quantity.toInt?_eq] at hz
        by_contra hno
        rw [if_neg hno] at hz
        cases hz
      rw [if_pos hint]
      exact Quantity.value_of_complement? h

/-- The remainder of quantities stands for the remainder of the numbers, and fails with it. -/
theorem agrees_remainderBy (a b : Quantity) :
    Agrees StandsFor ((a.remainderBy b).mapError .quantity) (exactRemainder a.value b.value) := by
  rw [Quantity.remainderBy, exactRemainder]
  cases h : b.toInt64? with
  | none =>
    -- no integer of 64 bits: then the value is no integer, or it is out of range
    have hno : ¬ (b.value.isInt = true ∧ 1 ≤ b.value ∧ b.value ≤ 2 ^ 63 - 1) := by
      rintro ⟨hint, hone, hgreatest⟩
      rcases Quantity.toInt64?_eq_none_iff.mp h with hfraction | hless | hgreater
      · cases hint.symm.trans hfraction
      · linarith
      · linarith
    rw [if_neg hno]
    exact rfl
  | some d =>
    obtain ⟨hvalue, -, hle⟩ := Quantity.toInt64?_eq_some.mp h
    have hint : (d : ℚ).isInt = true := by simp [Rat.isInt]
    have hgreatest : (d : ℚ) ≤ 2 ^ 63 - 1 := by exact_mod_cast hle
    rw [hvalue]
    by_cases hd : 0 < d
    · have hone : (1 : ℚ) ≤ d := by exact_mod_cast hd
      rw [if_pos ⟨hint, hone, hgreatest⟩]
      have hr := a.remainder_eq hd
      dsimp only
      rw [hr]
      exact Quantity.value_of_remainder hr
    · have hone : ¬ (1 : ℚ) ≤ d := by exact_mod_cast hd
      rw [if_neg fun hall => hone hall.2.1]
      dsimp only
      rw [Quantity.remainder, if_pos (Int.not_lt.mp hd)]
      exact rfl

namespace Expr

/-- The number of an expression is the one that its operands and literals stand for. -/
theorem agrees_evalNumber (q : Quantity) : ∀ e : Expr, Agrees StandsFor (e.evalNumber q)
    (e.exactNumber fun feature => (q.operand feature).value)
  | literal _ => rfl
  | operand name => by
    rw [evalNumber, exactNumber]
    cases Operand.ofName? name <;> exact rfl
  | paren inner => agrees_evalNumber q inner
  | unary op arg => by
    apply (agrees_evalNumber q arg).bind
    rintro value _ rfl
    cases op with
    | not => exact rfl
    | sign sign => exact sign.agrees_apply value
  | binary .modulo left right => by
    apply (agrees_evalNumber q left).bind
    -- the dividend first, as its error comes before that of the divisor
    rintro dividend _ rfl
    apply (agrees_evalNumber q right).bind
    rintro divisor _ rfl
    exact agrees_remainderBy dividend divisor
  | truth _ => rfl
  | binary (.logic _) _ _ => rfl
  | binary (.relation _) _ _ => rfl
  | range _ _ => rfl
  | group _ => rfl
  | ellipsis => rfl

/-- An element of a set contains a quantity exactly if it contains the number. -/
theorem agrees_contains (value : Quantity) (e : Expr) :
    Agrees Eq (e.contains value) (e.exactContains value.value) := by
  cases e with
  | literal element => exact Comparison.eq.holds_compare value element
  | range least greatest =>
    have hleast := Comparison.ge.holds_compare value least
    have hgreatest := Comparison.le.holds_compare value greatest
    show (_ && _ && _) = (_ && _ && _)
    simp only [Comparison.holds, Comparison.holdsOf] at hleast hgreatest
    rw [hleast, hgreatest, Quantity.isInteger_eq]
  | _ => exact rfl

/-- A quantity compares with the bounds of an element as the number does. -/
theorem agrees_boundsHold (comparison : Comparison) (value : Quantity) (e : Expr) :
    Agrees Eq (e.boundsHold comparison value) (e.exactBoundsHold comparison value.value) := by
  cases e with
  | literal element =>
    show (comparison.holds (value.compare element) && true) = _
    rw [Bool.and_true]
    exact comparison.holds_compare value element
  | range least greatest =>
    show (comparison.holds (value.compare least) &&
        (comparison.holds (value.compare greatest) && true)) = _
    rw [Bool.and_true, comparison.holds_compare, comparison.holds_compare]
  | _ => exact rfl

/-- A quantity compares with a set as the number does. -/
theorem agrees_compareWithSet (comparison : Comparison) (value : Quantity) (elements : List Expr) :
    Agrees Eq (compareWithSet comparison value elements)
      (exactCompareWithSet comparison value.value elements) := by
  -- only `=` asks for some element; the other comparisons ask for every one
  have hbounds := fun comparison : Comparison =>
    matches_allM (List.forall₂_same.mpr fun e (_ : e ∈ elements) =>
      agrees_boundsHold comparison value e)
  cases comparison with
  | eq => exact matches_anyM (List.forall₂_same.mpr fun e _ => agrees_contains value e)
  | ne =>
    exact matches_allM (List.forall₂_same.mpr fun e _ =>
      (agrees_contains value e).map fun _ _ h => congrArg (!·) h)
  | lt => exact hbounds .lt
  | le => exact hbounds .le
  | gt => exact hbounds .gt
  | ge => exact hbounds .ge

/-- Two sides compare by the numbers that their operands stand for. -/
theorem agrees_compareSides (q : Quantity) (comparison : Comparison) (left right : Expr) :
    Agrees Eq (compareSides q comparison left right)
      (exactCompareSides (fun feature => (q.operand feature).value) comparison left right) := by
  rw [compareSides, exactCompareSides]
  cases left.elements? with
  | some elements =>
    apply (agrees_evalNumber q right).bind
    rintro value _ rfl
    exact agrees_compareWithSet comparison.swapped value elements
  | none =>
    apply (agrees_evalNumber q left).bind
    rintro value _ rfl
    cases right.elements? with
    | some elements => exact agrees_compareWithSet comparison value elements
    | none =>
      apply (agrees_evalNumber q right).bind
      rintro target _ rfl
      exact comparison.holds_compare value target

/-- The truth value of an expression is the one that its operands and literals stand for. -/
theorem agrees_evalBool (q : Quantity) : ∀ e : Expr, Agrees Eq (e.evalBool q)
    (e.exactBool fun feature => (q.operand feature).value)
  | truth _ => rfl
  | paren inner => agrees_evalBool q inner
  | unary .not arg => by
    apply (agrees_evalBool q arg).bind
    rintro b _ rfl
    exact rfl
  | binary (.logic connective) left right => by
    apply (agrees_evalBool q left).bind
    rintro b _ rfl
    -- the right side counts only if the left one leaves the answer open, on both sides alike
    have hright := agrees_evalBool q right
    cases connective with
    | and => cases b <;> first | exact rfl | exact hright
    | or => cases b <;> first | exact rfl | exact hright
    | xor =>
      apply hright.bind
      rintro c _ rfl
      exact rfl
  | binary (.relation comparison) left right => agrees_compareSides q comparison left right
  | unary (.sign _) _ => rfl
  | binary .modulo _ _ => rfl
  | literal _ => rfl
  | operand _ => rfl
  | range _ _ => rfl
  | group _ => rfl
  | ellipsis => rfl

/-! ### Operands that an expression mentions -/

mutual

def Mentions (feature : Operand) : Expr → Prop
  | operand name => Operand.ofName? name = some feature
  | unary _ arg => Mentions feature arg
  | binary _ left right => Mentions feature left ∨ Mentions feature right
  | group items => ItemsMention feature items
  | paren inner => Mentions feature inner
  | literal _ | truth _ | range _ _ | ellipsis => False

def ItemsMention (feature : Operand) : List Expr → Prop
  | [] => False
  | item :: more => Mentions feature item ∨ ItemsMention feature more

end

section Mentioned

variable {env env' : Operand → ℚ}

/-- The value of an expression depends only on the operands that it mentions. -/
theorem exactNumber_congr :
    ∀ {e : Expr}, (∀ feature, e.Mentions feature → env feature = env' feature) →
    e.exactNumber env = e.exactNumber env'
  | operand name, h => by
    rw [exactNumber, exactNumber]
    cases hname : Operand.ofName? name with
    | none => rfl
    | some feature => exact congrArg Except.ok (h feature hname)
  | paren inner, h => exactNumber_congr (e := inner) h
  | unary op arg, h => by rw [exactNumber, exactNumber, exactNumber_congr (e := arg) h]
  | binary .modulo left right, h => by
    rw [exactNumber, exactNumber, exactNumber_congr fun feature hl => h feature (Or.inl hl),
      exactNumber_congr fun feature hr => h feature (Or.inr hr)]
  | binary (.logic _) _ _, _ => rfl
  | binary (.relation _) _ _, _ => rfl
  | literal _, _ => rfl
  | truth _, _ => rfl
  | range _ _, _ => rfl
  | group _, _ => rfl
  | ellipsis, _ => rfl

/-- The truth value of an expression depends only on the operands that it mentions. -/
theorem exactBool_congr :
    ∀ {e : Expr}, (∀ feature, e.Mentions feature → env feature = env' feature) →
    e.exactBool env = e.exactBool env'
  | paren inner, h => exactBool_congr (e := inner) h
  | unary .not arg, h => by rw [exactBool, exactBool, exactBool_congr (e := arg) h]
  | binary (.logic _) left right, h => by
    rw [exactBool, exactBool, exactBool_congr fun feature hl => h feature (Or.inl hl),
      exactBool_congr fun feature hr => h feature (Or.inr hr)]
  | binary (.relation _) left right, h => by
    rw [exactBool, exactBool, exactCompareSides, exactCompareSides,
      exactNumber_congr fun feature hl => h feature (Or.inl hl),
      exactNumber_congr fun feature hr => h feature (Or.inr hr)]
  | unary (.sign _) _, _ => rfl
  | binary .modulo _ _, _ => rfl
  | truth _, _ => rfl
  | literal _, _ => rfl
  | operand _, _ => rfl
  | range _ _, _ => rfl
  | group _, _ => rfl
  | ellipsis, _ => rfl

end Mentioned

/-- Evaluation computes with exact numbers: it agrees with the evaluation of the rational numbers
that literals and operands stand for. So it cannot tell apart two quantities if the operands that
the expression mentions have the same values for both. -/
theorem evalBool_exact (e : Expr) (q : Quantity) :
    (e.evalBool q).mapError EvalError.variant =
        e.exactBool (fun feature => (q.operand feature).value) ∧
      ∀ r : Quantity,
        (∀ feature, e.Mentions feature → (q.operand feature).value = (r.operand feature).value) →
          (e.evalBool q).mapError EvalError.variant =
            (e.evalBool r).mapError EvalError.variant := by
  have hexact := fun q : Quantity => eq_of_agrees (agrees_evalBool q e)
  refine ⟨hexact q, fun r h => ?_⟩
  rw [hexact q, hexact r]
  exact exactBool_congr h

/-- The numbers `1` and `1.00` differ in the fraction digits that show, but not for `n % 10 = 1`. -/
theorem evalBool_exact_of_trailing_zeros :
    let e : Expr := .binary (.relation .eq) (.binary .modulo (.operand "n") (.literal ⟨10, 0, 0⟩))
      (.literal ⟨1, 0, 0⟩)
    (e.evalBool ⟨1, 0, 0⟩).mapError EvalError.variant =
      (e.evalBool ⟨100, 2, 0⟩).mapError EvalError.variant := by
  refine (evalBool_exact _ ⟨1, 0, 0⟩).2 ⟨100, 2, 0⟩ fun feature h => ?_
  obtain rfl : Operand.n = feature := by
    simpa [Mentions, Operand.ofName?, Operand.all, Operand.name] using h
  simp only [Quantity.operand, Quantity.magnitude, Quantity.value]
  norm_num

end Expr

end PluralRules
