import Mathlib.Data.Rat.Floor
import Mathlib.Tactic.FieldSimp
import Mathlib.Tactic.Linarith
import Mathlib.Tactic.Positivity
import PluralRules.Expr.Eval

/-!
# The numbers that quantities stand for

`Quantity.value` is the rational number of a quantity. What the operations on quantities do to
digits, scales and signs is expressed here by what they do to the values: comparison is the order of
the values, a quantity is an integer if its value is, and the remainder is that of division toward
zero.

The value has two forms that the proofs switch between. `value_eq_mul` scales the digits to any
scale that is fine enough, which is how two quantities are compared; `value_eq_div` has the visible
fraction digits in the denominator, which is how the parts before and behind the point are taken.
-/

namespace PluralRules

/-- The integer part of a number: the fraction is dropped, whatever the sign. -/
def truncated (x : ℚ) : ℤ := if 0 ≤ x then ⌊x⌋ else ⌈x⌉

theorem exists_int_of_isInt {x : ℚ} (h : x.isInt = true) : ∃ z : ℤ, x = z :=
  ⟨x.num, ((Rat.den_eq_one_iff x).mp (by simpa [Rat.isInt] using h)).symm⟩

namespace Quantity

/-- The number that a quantity stands for. -/
def value (q : Quantity) : ℚ := q.digits * 10 ^ (-q.scale)

variable {q a b : Quantity}

/-- The digits with all zeros that a negative scale stands for. -/
def spelledDigits (q : Quantity) : ℤ := q.digits * q.appended

/-! ### Two forms of the value -/

/-- The powers of ten are those of the natural numbers. -/
theorem powerOfTen_eq (n : ℕ) : powerOfTen n = 10 ^ n := rfl

/-- A number written with a finer scale has more zeros. -/
theorem value_eq_mul {scale : ℤ} (h : q.scale ≤ scale) :
    q.value = ((q.digits * powerOfTen (scale - q.scale).toNat : ℤ) : ℚ) * 10 ^ (-scale) := by
  have hexp : -q.scale = ((scale - q.scale).toNat : ℤ) + -scale := by omega
  rw [value, hexp, zpow_add₀ (by norm_num), zpow_natCast, powerOfTen_eq]
  push_cast
  ring

/-- A number is its spelled digits divided by a power of ten. -/
theorem value_eq_div (q : Quantity) : q.value = q.spelledDigits / (10 ^ q.places : ℕ) := by
  have hexp : -q.scale = ((-q.scale).toNat : ℤ) + -(q.places : ℤ) := by
    rw [places]
    omega
  rw [value, hexp, zpow_add₀ (by norm_num), zpow_natCast, zpow_neg, zpow_natCast, spelledDigits,
    appended, powerOfTen_eq]
  push_cast
  field_simp

/-! ### Comparison -/

/-- Quantities are compared by the numbers that they stand for. -/
theorem compare_eq (a b : Quantity) : a.compare b = Ord.compare a.value b.value := by
  have ha := value_eq_mul (q := a) (le_max_left a.scale b.scale)
  have hb := value_eq_mul (q := b) (le_max_right a.scale b.scale)
  -- on the finer of the two scales, the order of the values is the order of the scaled digits
  have hmono : StrictMono fun z : ℤ => (z : ℚ) * 10 ^ (-max a.scale b.scale) := by
    intro x y hxy
    have hcast : (x : ℚ) < y := Int.cast_lt.mpr hxy
    exact mul_lt_mul_of_pos_right hcast (zpow_pos (by norm_num) _)
  have hleft : (max a.scale b.scale - a.scale).toNat = (b.scale - a.scale).toNat := by omega
  have hright : (max a.scale b.scale - b.scale).toNat = (a.scale - b.scale).toNat := by omega
  rw [ha, hb, hleft, hright, ← cmp_eq_compare]
  exact ((cmp_eq_compare _ _).symm.trans (hmono.cmp_map_eq _ _).symm)

theorem compare_eq_eq_iff_value : a.compare b = .eq ↔ a.value = b.value := by
  rw [compare_eq, compare_eq_iff_eq]

/-! ### Integers -/

/-- If fraction digits show, no zeros are appended. -/
theorem places_eq_zero_or_appended_eq_one (q : Quantity) : q.places = 0 ∨ q.appended = 1 := by
  by_cases h : 0 ≤ q.scale
  · have hzero : (-q.scale).toNat = 0 := by omega
    exact Or.inr (by rw [appended, hzero, powerOfTen_eq, pow_zero])
  · exact Or.inl (by rw [places]; omega)

/-- A number is an integer exactly if the power of ten for its places divides its digits. -/
theorem isInteger_iff_dvd (q : Quantity) :
    q.isInteger = true ↔ ((10 ^ q.places : ℕ) : ℤ) ∣ q.spelledDigits := by
  rw [isInteger, beq_iff_eq, fraction, powerOfTen_eq, ← Nat.dvd_iff_mod_eq_zero, spelledDigits]
  rcases q.places_eq_zero_or_appended_eq_one with h | h
  · simp [h]
  · rw [h, Nat.cast_one, mul_one, Int.natCast_dvd]

/-- A quantity is an integer exactly if its number is one. -/
theorem isInteger_eq (q : Quantity) : q.isInteger = q.value.isInt := by
  have hne : ((10 ^ q.places : ℕ) : ℤ) ≠ 0 := by positivity
  have hden := Rat.den_div_intCast_eq_one_iff q.spelledDigits (10 ^ q.places : ℕ) hne
  rw [Bool.eq_iff_iff, isInteger_iff_dvd, Rat.isInt, beq_iff_eq, value_eq_div, ← hden]
  rfl

theorem tdiv_eq_natAbs_div (z : ℤ) (m : ℕ) :
    z.tdiv m = if z < 0 then -((z.natAbs / m : ℕ) : ℤ) else (z.natAbs / m : ℕ) := by
  cases z with
  | ofNat n => rw [if_neg (by simp)]; rfl
  | negSucc n => rw [if_pos (Int.negSucc_lt_zero n)]; rfl

/-- The integer that a quantity stands for is a quotient of its spelled digits. -/
theorem toInt?_eq (q : Quantity) :
    q.toInt? = if q.isInteger then some (q.spelledDigits.tdiv (10 ^ q.places : ℕ)) else none := by
  have hnatAbs : q.spelledDigits.natAbs = q.digits.natAbs * q.appended := by
    rw [spelledDigits, Int.natAbs_mul, Int.natAbs_natCast]
  have hsign : q.spelledDigits < 0 ↔ q.digits < 0 := by
    have hpos : (0 : ℤ) < q.appended := by rw [appended, powerOfTen_eq]; positivity
    exact ⟨fun h => neg_of_mul_neg_left h hpos.le, fun h => mul_neg_of_neg_of_pos h hpos⟩
  rw [toInt?, tdiv_eq_natAbs_div, hnatAbs, whole, powerOfTen_eq]
  simp only [hsign]

/-- A quantity is an integer if its value is that integer. -/
theorem toInt?_eq_some {z : ℤ} : q.toInt? = some z ↔ q.value = z := by
  have hpos : (0 : ℚ) < (10 ^ q.places : ℕ) := by positivity
  have hvalue : q.value = z ↔ q.spelledDigits = z * (10 ^ q.places : ℕ) := by
    rw [value_eq_div, div_eq_iff hpos.ne']
    exact_mod_cast Iff.rfl
  rw [hvalue, toInt?_eq]
  constructor
  · intro h
    split at h
    · next hint =>
      cases h
      exact (Int.tdiv_mul_cancel (q.isInteger_iff_dvd.mp hint)).symm
    · cases h
  · intro h
    have hne : ((10 ^ q.places : ℕ) : ℤ) ≠ 0 := by positivity
    rw [if_pos (q.isInteger_iff_dvd.mpr ⟨z, by rw [h, mul_comm]⟩), h, Int.mul_tdiv_cancel _ hne]

/-- A quantity is an integer of 64 bits exactly if its number is one. -/
theorem toInt64?_eq_some {z : ℤ} :
    q.toInt64? = some z ↔ q.value = z ∧ -2 ^ 63 ≤ z ∧ z ≤ 2 ^ 63 - 1 := by
  have hbounds : (-greatestInt64 - 1 ≤ z && z ≤ greatestInt64) = true ↔
      -2 ^ 63 ≤ z ∧ z ≤ 2 ^ 63 - 1 := by
    rw [Bool.and_eq_true, decide_eq_true_iff, decide_eq_true_iff]
    simp [greatestInt64]
  rw [toInt64?, Option.filter_eq_some_iff, toInt?_eq_some, hbounds]

/-- There is no integer of 64 bits for a fraction or for an integer out of bounds. -/
theorem toInt64?_eq_none_iff :
    q.toInt64? = none ↔ q.value.isInt = false ∨ q.value < -2 ^ 63 ∨ 2 ^ 63 - 1 < q.value := by
  constructor
  · intro h
    by_contra! hin
    obtain ⟨hint, hleast, hgreatest⟩ := hin
    obtain ⟨z, hz⟩ := exists_int_of_isInt (Bool.eq_true_of_not_eq_false hint)
    rw [hz] at hleast hgreatest
    have hsome := toInt64?_eq_some.mpr ⟨hz, by exact_mod_cast hleast, by exact_mod_cast hgreatest⟩
    cases h.symm.trans hsome
  · intro h
    cases hq : q.toInt64? with
    | none => rfl
    | some z =>
      obtain ⟨hvalue, hleast, hgreatest⟩ := toInt64?_eq_some.mp hq
      rw [hvalue] at h
      rcases h with hfraction | hless | hgreater
      · simp [Rat.isInt] at hfraction
      · have hlt : z < -2 ^ 63 := by exact_mod_cast hless
        omega
      · have hlt : 2 ^ 63 - 1 < z := by exact_mod_cast hgreater
        omega

section Congruence

variable (h : a.value = b.value)
include h

theorem isInteger_congr : a.isInteger = b.isInteger := by rw [isInteger_eq, isInteger_eq, h]

theorem toInt?_congr : a.toInt? = b.toInt? :=
  Option.ext fun z => by rw [toInt?_eq_some, toInt?_eq_some, h]

theorem toInt64?_congr : a.toInt64? = b.toInt64? := by rw [toInt64?, toInt64?, toInt?_congr h]

theorem complement?_congr : a.complement? = b.complement? := by
  rw [complement?, complement?, toInt?_congr h]

end Congruence

/-! ### Operations -/

theorem value_ofInt (z : ℤ) : (ofInt z).value = z := by simp [value, ofInt]

theorem value_negate (q : Quantity) : q.negate.value = -q.value := by simp [value, negate]

/-- The complement stands for the negative number less one. -/
theorem value_of_complement? {r : Quantity} (h : q.complement? = some r) :
    r.value = -q.value - 1 := by
  obtain ⟨z, hz, rfl⟩ := Option.map_eq_some_iff.mp h
  rw [toInt?_eq_some.mp hz, value_ofInt]
  push_cast
  ring

theorem complement?_eq_none (h : q.complement? = none) : q.isInteger = false := by
  have hnone := Option.map_eq_none_iff.mp h
  rw [toInt?_eq] at hnone
  cases hint : q.isInteger with
  | false => rfl
  | true => rw [if_pos hint] at hnone; cases hnone

/-- Truncating a quotient is division toward zero. -/
theorem truncated_div (z : ℤ) {m : ℕ} (hm : 0 < m) : truncated ((z : ℚ) / m) = z.tdiv m := by
  have hpos : (0 : ℚ) < m := by exact_mod_cast hm
  have hsign : 0 ≤ (z : ℚ) / m ↔ 0 ≤ z := by
    rw [le_div_iff₀ hpos, zero_mul]
    exact_mod_cast Iff.rfl
  rw [truncated]
  by_cases h : 0 ≤ z
  · rw [if_pos (hsign.mpr h), Rat.floor_intCast_div_natCast, Int.tdiv_eq_ediv_of_nonneg h]
  · have hneg : 0 ≤ -z := by omega
    rw [if_neg (mt hsign.mp h), Rat.ceil_intCast_div_natCast, ← Int.tdiv_eq_ediv_of_nonneg hneg,
      Int.neg_tdiv, neg_neg]

/-- The digits of a remainder are a remainder of the digits that show. -/
theorem remainder_eq (q : Quantity) {d : ℤ} (hd : 0 < d) :
    q.remainder d = .ok ⟨q.spelledDigits.tmod (d * (10 ^ q.places : ℕ)), q.places, 0⟩ :=
  if_neg (Int.not_le.mpr hd)

/-- The remainder is the one of the spelled digits, with as many places. -/
theorem remainder_eq_ok_iff {r : Quantity} {d : ℤ} : q.remainder d = .ok r ↔
    0 < d ∧ r = ⟨q.spelledDigits.tmod (d * (10 ^ q.places : ℕ)), q.places, 0⟩ := by
  constructor
  · intro h
    have hd : 0 < d := by
      by_contra hle
      rw [remainder, if_pos (Int.not_lt.mp hle)] at h
      cases h
    exact ⟨hd, Except.ok.inj (h.symm.trans (q.remainder_eq hd))⟩
  · rintro ⟨hd, rfl⟩
    exact q.remainder_eq hd

/-- Division by a quantity is division by the integer of 64 bits that it stands for. -/
theorem remainderBy_eq_ok_iff {r : Quantity} :
    a.remainderBy b = .ok r ↔ ∃ d, b.toInt64? = some d ∧ a.remainder d = .ok r := by
  rw [remainderBy]
  cases b.toInt64? with
  | none => exact iff_of_false nofun nofun
  | some d => simp

/-- What is left of a number when a positive integer is divided into it toward zero. -/
theorem value_of_remainder {r : Quantity} {d : ℤ} (h : q.remainder d = .ok r) :
    r.value = q.value - d * truncated (q.value / d) := by
  obtain ⟨hd, rfl⟩ := remainder_eq_ok_iff.mp h
  obtain ⟨k, rfl⟩ := Int.eq_ofNat_of_zero_le hd.le
  have hk : 0 < k := by exact_mod_cast hd
  have hquotient : q.value / ((k : ℤ) : ℚ) = (q.spelledDigits : ℚ) / (k * 10 ^ q.places : ℕ) := by
    rw [value_eq_div]
    push_cast
    field_simp
  -- the remainder of the digits is the remainder of the value, on the scale of the places
  have hmod := Int.tmod_def q.spelledDigits (k * 10 ^ q.places : ℕ)
  rw [hquotient, truncated_div _ (by positivity), value_eq_div q]
  show ((q.spelledDigits.tmod ((k : ℤ) * (10 ^ q.places : ℕ)) : ℤ) : ℚ) * 10 ^ (-(q.places : ℤ)) = _
  push_cast at hmod ⊢
  rw [hmod, zpow_neg, zpow_natCast]
  push_cast
  field_simp

end Quantity

end PluralRules
