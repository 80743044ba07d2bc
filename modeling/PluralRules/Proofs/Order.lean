import Mathlib.Algebra.Order.Floor.Semifield
import PluralRules.Proofs.Remainder
import PluralRules.Proofs.Result

/-!
# The order of quantities

Quantities are compared as the numbers that they stand for, whatever their spelling. So quantities
that compare as equal need not be equal: `1.50`, `1.5` and `0.15c1` are three of them. What tells
them apart is only what looks at the spelling, the visible zeros and the exponent. All that looks at
the number alone agrees (`SameNumber`).

This is shown by saying of each such operation what it is in terms of the number. The digits before
the point are the integer part of the magnitude (`whole_eq_floor`), and the fraction without its
trailing zeros is the one way to write the rest (`IsSignificant.eq_of_mul_pow`).
-/

namespace PluralRules.Quantity

variable {a b c q x y : Quantity}

/-! ### Fractions without trailing zeros -/

/-- The digits of a fraction, as an integer with their number, without zeros at the end. -/
structure IsSignificant (t w : ℕ) : Prop where
  zero : t = 0 ↔ w = 0
  last : t ≠ 0 → t % 10 ≠ 0

section Significant

variable {t w t' w' : ℕ}

/-- Of two spellings of a fraction, one without a trailing zero is not the longer one. -/
theorem IsSignificant.le_of_mul_pow (h : IsSignificant t w) (heq : t * 10 ^ w' = t' * 10 ^ w) :
    w ≤ w' := by
  by_contra hlt
  obtain ⟨k, rfl⟩ := Nat.exists_eq_add_of_lt (Nat.not_le.mp hlt)
  have hcancel : t' * 10 ^ (k + 1) = t := by
    have hpow : 0 < 10 ^ w' := by positivity
    apply Nat.eq_of_mul_eq_mul_right hpow
    rw [heq]
    ring
  -- a fraction with more digits than another one would end in a zero
  have hmod : t % 10 = 0 := by
    rw [← hcancel, pow_succ, ← Nat.mul_assoc, Nat.mul_mod_left]
  have hzero : t = 0 := by
    by_contra hne
    exact h.last hne hmod
  have hdigits := h.zero.mp hzero
  omega

/-- A fraction has one way to be written without zeros at the end. -/
theorem IsSignificant.eq_of_mul_pow (h : IsSignificant t w) (h' : IsSignificant t' w')
    (heq : t * 10 ^ w' = t' * 10 ^ w) : t = t' ∧ w = w' := by
  have hw : w = w' := Nat.le_antisymm (h.le_of_mul_pow heq) (h'.le_of_mul_pow heq.symm)
  subst hw
  have hpow : 0 < 10 ^ w := by positivity
  exact ⟨Nat.eq_of_mul_eq_mul_right hpow heq, rfl⟩

end Significant

/-- Once trailing zeros are dropped, none is left. -/
theorem isSignificant_significantFraction (q : Quantity) :
    IsSignificant q.significantFraction.1 q.significantFraction.2 := by
  obtain ⟨-, -, hzero, hlast⟩ := dropTrailingZeros_eq
    (t := q.significantFraction.1) (w := q.significantFraction.2) q.fraction_lt rfl
  exact ⟨hzero, hlast⟩

/-! ### What depends on the number alone -/

/-- The integer part is the floor of the absolute value. -/
theorem whole_eq_floor (q : Quantity) : q.whole = ⌊|q.value|⌋₊ := by
  rw [whole_eq, abs_value_eq_div, Nat.floor_div_eq_div]

/-- The magnitude of a number is made of its digits before the point and of its significant
fraction. -/
theorem abs_value_eq_significant (q : Quantity) : |q.value| =
    q.whole + q.significantFraction.1 * (10 : ℚ) ^ (-(q.significantFraction.2 : ℤ)) := by
  obtain ⟨hle, hfraction, -, -⟩ := dropTrailingZeros_eq
    (t := q.significantFraction.1) (w := q.significantFraction.2) q.fraction_lt rfl
  have hsplit :
      (q.places : ℤ) = (q.places - q.significantFraction.2 : ℕ) + q.significantFraction.2 := by
    omega
  rw [abs_value_eq, hfraction, hsplit, neg_add, zpow_add₀ (by norm_num), zpow_neg, zpow_natCast]
  push_cast
  field_simp

section Congruence

variable (h : a.value = b.value)
include h

theorem whole_congr : a.whole = b.whole := by rw [whole_eq_floor, whole_eq_floor, h]

/-- The significant fraction digits depend only on the number. -/
theorem significantFraction_congr : a.significantFraction = b.significantFraction := by
  have hvalue := abs_value_eq_significant a
  rw [h, abs_value_eq_significant b, whole_congr h, add_right_inj, zpow_neg, zpow_neg, zpow_natCast,
    zpow_natCast, ← div_eq_mul_inv, ← div_eq_mul_inv,
    div_eq_div_iff (by positivity) (by positivity)] at hvalue
  obtain ⟨ht, hw⟩ := (isSignificant_significantFraction b).eq_of_mul_pow
    (isSignificant_significantFraction a) (by exact_mod_cast hvalue)
  exact Prod.ext ht.symm hw.symm

end Congruence

/-! ### The order -/

/-- A quantity is compared as not greater exactly if its number is not greater. -/
theorem isLE_compare_iff : (a.compare b).isLE = true ↔ a.value ≤ b.value := by
  rw [compare_eq, ← Ordering.ne_gt_iff_isLE]
  exact compare_le_iff_le

/-- Comparing the other way round reverses the order. -/
theorem compare_swap (a b : Quantity) : b.compare a = (a.compare b).swap := by
  rw [compare_eq, compare_eq, ← cmp_eq_compare, ← cmp_eq_compare, cmp_swap]

/-- Negation reverses the order. -/
theorem compare_negate (a b : Quantity) : a.negate.compare b.negate = b.compare a := by
  rw [compare_eq, compare_eq, value_negate, value_negate, ← cmp_eq_compare, ← cmp_eq_compare]
  exact StrictAnti.cmp_map_eq (fun _ _ => neg_lt_neg) a.value b.value

/-! ### Integers -/

/-- Exactly the integers have a complement, which is written plainly. -/
theorem complement?_eq_some :
    a.complement? = some c ↔ ∃ z : ℤ, a.value = z ∧ c = ofInt (-z - 1) := by
  rw [complement?, Option.map_eq_some_iff]
  exact exists_congr fun z => and_congr toInt?_eq_some eq_comm

/-- Of an integer the complement of the complement is the same number. -/
theorem exists_complement?_complement? (h : a.complement? = some c) :
    ∃ back, c.complement? = some back ∧ back.compare a = .eq := by
  obtain ⟨z, hz, rfl⟩ := complement?_eq_some.mp h
  refine ⟨ofInt z, complement?_eq_some.mpr ⟨-z - 1, value_ofInt _, by ring_nf⟩, ?_⟩
  rw [compare_eq_eq_iff_value, value_ofInt, hz]

/-! ### Remainders -/

/-- Equal numbers leave equal remainders. -/
theorem matches_remainder (h : a.value = b.value) (d : ℤ) :
    Matches Eq (fun r s => r.compare s = .eq) (a.remainder d) (b.remainder d) := by
  by_cases hd : 1 ≤ d
  · obtain ⟨r, hr, hleft⟩ := exists_isRemainder a hd
    obtain ⟨s, hs, hright⟩ := exists_isRemainder b hd
    rw [hr, hs]
    show r.compare s = .eq
    rw [compare_eq_eq_iff_value, hleft.value, hright.value, h]
  · rw [remainder, remainder, if_pos (by omega), if_pos (by omega)]
    exact rfl

/-- The remainder depends only on the number that is divided. -/
theorem matches_remainderBy (h : a.value = b.value) (y : Quantity) :
    Matches Eq (fun r s => r.compare s = .eq) (a.remainderBy y) (b.remainderBy y) := by
  rw [remainderBy, remainderBy]
  cases y.toInt64? with
  | none => exact rfl
  | some d => exact matches_remainder h d

/-- Equal divisors give the same remainder, or they fail alike but for the text that is quoted. -/
theorem matches_remainderBy_divisor (h : a.value = b.value) (x : Quantity) :
    Matches (fun _ _ => True) Eq (x.remainderBy a) (x.remainderBy b) := by
  rw [remainderBy, remainderBy, toInt64?_congr h]
  cases b.toInt64? with
  | none => exact trivial
  | some d => exact (Matches.of_eq rfl).mono (fun _ _ _ => trivial)

/-- Nothing that looks at the number alone tells two quantities apart. -/
structure SameNumber (a b : Quantity) : Prop where
  operand : ∀ operand ∈ [Operand.i, .w, .t], a.operand operand = b.operand operand
  magnitude : (a.operand .n).compare (b.operand .n) = .eq
  isInteger : a.isInteger = b.isInteger
  toInt64? : a.toInt64? = b.toInt64?
  complement? : a.complement? = b.complement?
  remainder : ∀ d : ℤ, Matches Eq (fun r s => r.compare s = .eq) (a.remainder d) (b.remainder d)
  dividend :
    ∀ y : Quantity, Matches Eq (fun r s => r.compare s = .eq) (a.remainderBy y) (b.remainderBy y)
  divisor : ∀ x : Quantity, Matches (fun _ _ => True) Eq (x.remainderBy a) (x.remainderBy b)

/-- Quantities that stand for the same number agree in all that depends on it. -/
theorem sameNumber_of_value (h : a.value = b.value) : SameNumber a b where
  operand := by
    simp [Quantity.operand, whole_congr h, significantFraction_congr h]
  magnitude := by
    show a.magnitude.compare b.magnitude = .eq
    rw [compare_eq_eq_iff_value, value_magnitude, value_magnitude, h]
  isInteger := isInteger_congr h
  toInt64? := toInt64?_congr h
  complement? := complement?_congr h
  remainder := matches_remainder h
  dividend := matches_remainderBy h
  divisor := matches_remainderBy_divisor h

/-- Comparing quantities is comparing the numbers that they stand for: a total preorder, in which
sides that change places reverse the result, and so does negating both.

Quantities that compare as equal have all in common that depends on the number alone. A quantity is
a 64-bit integer if its number is one within the bounds, and it has a complement if its number is an
integer; the complement of that is the number again. -/
theorem compare_orders_values (a b c : Quantity) :
    (a.compare b = Ord.compare a.value b.value ∧ b.compare a = (a.compare b).swap ∧
      a.negate.compare b.negate = (a.compare b).swap) ∧
    (((a.compare b).isLE = true ∨ (b.compare a).isLE = true) ∧
      ((a.compare b).isLE = true → (b.compare c).isLE = true → (a.compare c).isLE = true)) ∧
    (a.compare b = .eq → SameNumber a b) ∧
    (∀ z : ℤ, a.toInt64? = some z ↔ a.value = z ∧ -2 ^ 63 ≤ z ∧ z ≤ 2 ^ 63 - 1) ∧
    (∀ d, a.complement? = some d ↔ ∃ z : ℤ, a.value = z ∧ d = ofInt (-z - 1)) ∧
    ∀ d, a.complement? = some d →
      d.value = -a.value - 1 ∧ ∃ back, d.complement? = some back ∧ back.compare a = .eq := by
  refine ⟨⟨compare_eq a b, compare_swap a b, ?_⟩, ⟨?_, ?_⟩, ?_, fun z => toInt64?_eq_some,
    fun d => complement?_eq_some, fun d h =>
      ⟨value_of_complement? h, exists_complement?_complement? h⟩⟩
  · rw [compare_negate, compare_swap]
  · rw [isLE_compare_iff, isLE_compare_iff]
    exact le_total a.value b.value
  · rw [isLE_compare_iff, isLE_compare_iff, isLE_compare_iff]
    exact le_trans
  · exact fun h => sameNumber_of_value (compare_eq_eq_iff_value.mp h)

/-- The number -1200 with two visible zeros, and as `-1.2c3`. -/
theorem compare_orders_values_of_spellings :
    let a : Quantity := ⟨-120000, 2, 0⟩
    let b : Quantity := ⟨-12, -2, 3⟩
    a.compare b = .eq ∧ SameNumber a b ∧ (a.compare ⟨0, 0, 0⟩).isLE = true ∧
      a.complement? = some (ofInt 1199) ∧
      ∃ back, (ofInt 1199).complement? = some back ∧ back.compare a = .eq := by
  intro a b
  have hcompare : a.compare b = .eq := by decide
  have hzero : (b.compare ⟨0, 0, 0⟩).isLE = true := by decide
  have hcomplement : a.complement? = some (ofInt 1199) := by decide
  obtain ⟨-, ⟨-, htrans⟩, hsame, -, -, hback⟩ := compare_orders_values a b ⟨0, 0, 0⟩
  exact ⟨hcompare, hsame hcompare, htrans (by rw [hcompare]; rfl) hzero, hcomplement,
    (hback _ hcomplement).2⟩

end PluralRules.Quantity
