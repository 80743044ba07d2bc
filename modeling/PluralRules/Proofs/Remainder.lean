import Mathlib.Data.Sign.Basic
import PluralRules.Proofs.Operands

/-!
# Remainders

The remainder of a number by a positive integer is what is left of it when the integer is divided
into it toward zero:

    r = x - d * truncated (x / d)

It is taken of the part before the point; the digits behind the point stay as they are
(`IsRemainder`). So the digits of a remainder are the remainder of the digits, on the scale of the
places that show, and all that is said of remainders here follows from that and from the same fact
for integers. In particular a remainder by a multiple of the divisor can be taken first:
`x % 100 % 10` is `x % 10`.
-/

namespace PluralRules

/-- A remainder of integers is zero or has the sign of the dividend. -/
theorem tmod_eq_zero_or_sign_eq (a m : ℤ) : a.tmod m = 0 ∨ (a.tmod m).sign = a.sign := by
  by_cases h : m ∣ a
  · exact Or.inl (Int.tmod_eq_zero_of_dvd h)
  · exact Or.inr (by rw [Int.sign_tmod, if_neg h])

namespace Quantity

variable {x y r : Quantity} {d k : ℤ}

/-- What the remainder of a number by a positive integer is. The digits behind the point stay as
they are, and those before it are the digits of a remainder of integers. -/
structure IsRemainder (x : Quantity) (d : ℤ) (r : Quantity) : Prop where
  value : r.value = x.value - d * truncated (x.value / d)
  abs_lt : |r.value| < d
  sign : r.value = 0 ∨ SignType.sign r.value = SignType.sign x.value
  exponent : r.exponent = 0
  behind : ∀ operand ∈ [Operand.v, .w, .f, .t], r.operand operand = x.operand operand
  before : ∃ i : ℕ, x.operand .i = ofInt i ∧ r.operand .i = ofInt (i % d)

/-- The sign of a quantity is the sign of its digits. -/
theorem sign_value (q : Quantity) : (SignType.sign q.value : ℤ) = q.spelledDigits.sign := by
  have hpow : (0 : ℚ) < ((10 ^ q.places : ℕ) : ℚ)⁻¹ := by positivity
  rw [value_eq_div, div_eq_mul_inv, sign_mul, sign_pos hpow, mul_one, sign_intCast,
    Int.sign_eq_sign]

/-! ### The digits of a remainder -/

/-- Division fails exactly if the divisor is not positive. -/
theorem exists_remainder_eq_error_iff : (∃ error, x.remainder d = .error error) ↔ d ≤ 0 := by
  rw [remainder]
  constructor
  · rintro ⟨error, h⟩
    split at h
    · assumption
    · cases h
  · intro h
    exact ⟨_, if_pos h⟩

/-- Where digits have places behind the point, or just no zeros behind them, they all show. -/
theorem spelledDigits_mk (digits : ℤ) (places : ℕ) (exponent : ℤ) :
    spelledDigits ⟨digits, places, exponent⟩ = digits := by
  simp [spelledDigits, appended, powerOfTen_eq]

section Digits

variable (h : x.remainder d = .ok r)
include h

/-- The remainder shows as many fraction digits as what is divided. -/
theorem places_of_remainder : r.places = x.places := by
  obtain ⟨-, rfl⟩ := remainder_eq_ok_iff.mp h
  exact Int.toNat_natCast _

theorem spelledDigits_of_remainder :
    r.spelledDigits = x.spelledDigits.tmod (d * (10 ^ x.places : ℕ)) := by
  obtain ⟨-, rfl⟩ := remainder_eq_ok_iff.mp h
  exact spelledDigits_mk _ _ _

/-- Without signs, the remainder is that of natural numbers. -/
theorem natAbs_of_remainder :
    r.spelledDigits.natAbs = x.spelledDigits.natAbs % (d.natAbs * 10 ^ x.places) := by
  rw [spelledDigits_of_remainder h, Int.natAbs_tmod, Int.natAbs_mul, Int.natAbs_natCast]

/-- Division by an integer leaves the fraction as it is. -/
theorem fraction_of_remainder : r.fraction = x.fraction := by
  rw [fraction_eq, fraction_eq, natAbs_of_remainder h, places_of_remainder h, Nat.mod_mul_left_mod]

/-- The integer part of the remainder is the remainder of the integer part. -/
theorem whole_of_remainder : r.whole = x.whole % d.natAbs := by
  rw [whole_eq, whole_eq, natAbs_of_remainder h, places_of_remainder h, Nat.mod_mul_left_div_self]

/-- The remainder is smaller than the divisor. -/
theorem abs_value_of_remainder_lt : |r.value| < d := by
  obtain ⟨hd, -⟩ := remainder_eq_ok_iff.mp h
  have hpow : (0 : ℚ) < (10 ^ r.places : ℕ) := by positivity
  have hnatAbs : (d : ℚ) = d.natAbs := by rw [← Int.cast_natCast, Int.natAbs_of_nonneg hd.le]
  rw [abs_value_eq_div, div_lt_iff₀ hpow, hnatAbs, ← Nat.cast_mul, Nat.cast_lt,
    natAbs_of_remainder h, places_of_remainder h]
  exact Nat.mod_lt _ (by positivity)

theorem sign_of_remainder : r.value = 0 ∨ SignType.sign r.value = SignType.sign x.value := by
  rcases tmod_eq_zero_or_sign_eq x.spelledDigits (d * (10 ^ x.places : ℕ)) with hzero | hsign
  · left
    rw [value_eq_div, spelledDigits_of_remainder h, hzero, Int.cast_zero, zero_div]
  · right
    have hinjective : ∀ s t : SignType, (s : ℤ) = t → s = t := by decide
    apply hinjective
    rw [sign_value, sign_value, spelledDigits_of_remainder h, hsign]

/-- Taking the remainder changes the digits before the point and the exponent, and nothing else. -/
theorem isRemainder_of_remainder : IsRemainder x d r where
  value := value_of_remainder h
  abs_lt := abs_value_of_remainder_lt h
  sign := sign_of_remainder h
  exponent := by rw [(remainder_eq_ok_iff.mp h).2]
  behind := operand_congr_behind (places_of_remainder h) (fraction_of_remainder h)
  before := by
    have hd : (d.natAbs : ℤ) = d := Int.natAbs_of_nonneg (remainder_eq_ok_iff.mp h).1.le
    refine ⟨x.whole, rfl, congrArg ofInt ?_⟩
    rw [whole_of_remainder h, Int.natCast_mod, hd]

end Digits

/-- Division by a positive integer gives a remainder. -/
theorem exists_isRemainder (x : Quantity) (hd : 1 ≤ d) :
    ∃ r, x.remainder d = .ok r ∧ IsRemainder x d r := by
  have h := remainder_eq x hd
  exact ⟨_, h, isRemainder_of_remainder h⟩

/-- A remainder by a multiple of the divisor can be taken first. -/
theorem remainder_remainder (x : Quantity) (hd : 1 ≤ d) (hk : 1 ≤ k) :
    (x.remainder (d * k) >>= fun r => r.remainder d) = x.remainder d := by
  obtain ⟨r, hr, -⟩ := exists_isRemainder x (one_le_mul_of_one_le_of_one_le hd hk)
  have hdvd : d * (10 ^ x.places : ℕ) ∣ d * k * (10 ^ x.places : ℕ) := ⟨k, by ring⟩
  rw [hr, remainder_eq x hd, ← Int.tmod_tmod_of_dvd _ hdvd, ← spelledDigits_of_remainder hr,
    ← places_of_remainder hr]
  exact remainder_eq r hd

/-! ### What remainders are -/

/-- Remainders are taken toward zero, and of the part before the point only. There is one for every
positive divisor, and for no other. A remainder by a multiple of the divisor can be taken first. And
a divisor that is itself a quantity stands for the integer that it is; if it is not an integer of 64
bits, the error quotes it. -/
theorem remainder_toward_zero (x : Quantity) :
    (∀ d : ℤ, 1 ≤ d → ∃ r, x.remainder d = .ok r ∧ IsRemainder x d r) ∧
    (∀ d : ℤ, (∃ error, x.remainder d = .error error) ↔ d ≤ 0) ∧
    (∀ d k : ℤ, 1 ≤ d → 1 ≤ k → (x.remainder (d * k) >>= fun r => r.remainder d) = x.remainder d) ∧
    ∀ y : Quantity,
      (∀ d : ℤ, y.value = d → -2 ^ 63 ≤ d → d ≤ 2 ^ 63 - 1 → x.remainderBy y = x.remainder d) ∧
      (y.value.isInt = false ∨ y.value < -2 ^ 63 ∨ 2 ^ 63 - 1 < y.value →
        x.remainderBy y = .error (.divisorOutOfRange y.toString)) := by
  refine ⟨fun d => exists_isRemainder x, fun d => exists_remainder_eq_error_iff,
    fun d k => remainder_remainder x, fun y => ⟨fun d hvalue hleast hgreatest => ?_, fun h => ?_⟩⟩
  · rw [remainderBy, toInt64?_eq_some.mpr ⟨hvalue, hleast, hgreatest⟩]
  · rw [remainderBy, toInt64?_eq_none_iff.mpr h]

/-- Of `-1234.50`, dividing by ten leaves `-4.50`, at once or after dividing by a hundred. A divisor
may be written `10.00`, but `10.5` is none. -/
theorem remainder_toward_zero_of_visible_zeros :
    let x : Quantity := ⟨-123450, 2, 0⟩
    x.remainder 10 = .ok ⟨-450, 2, 0⟩ ∧ IsRemainder x 10 ⟨-450, 2, 0⟩ ∧
    (x.remainder (10 * 10) >>= fun r => r.remainder 10) = x.remainder 10 ∧
    x.remainderBy ⟨1000, 2, 0⟩ = x.remainder 10 ∧
    x.remainderBy ⟨105, 1, 0⟩ = .error (.divisorOutOfRange "10.5") := by
  intro x
  obtain ⟨hremainder, -, htwice, hquantity⟩ := remainder_toward_zero x
  have hten : value ⟨1000, 2, 0⟩ = (10 : ℤ) := by norm_num [value]
  have hfraction : (value ⟨105, 1, 0⟩).isInt = false := by
    rw [← isInteger_eq]
    decide
  have heq : x.remainder 10 = .ok ⟨-450, 2, 0⟩ := by decide
  obtain ⟨r, hr, hleft⟩ := hremainder 10 (by norm_num)
  cases hr.symm.trans heq
  exact ⟨heq, hleft, htwice 10 10 (by norm_num) (by norm_num),
    (hquantity _).1 10 hten (by norm_num) (by norm_num), (hquantity _).2 (Or.inl hfraction)⟩

end Quantity

end PluralRules
