import PluralRules.Proofs.Numeral
import PluralRules.Proofs.Shape
import PluralRules.Proofs.Value

/-!
# Quantities that are spelled alike

A quantity with a negative scale stands for zeros that its digits do not show. It is printed with
these zeros, so it is read back with a different scale (`Quantity.respelled`). The two are printed
alike, and nothing that evaluation does can tell them apart (`Quantity.Alike`).
-/

namespace PluralRules

/-- Zeros behind the digits of a number multiply it by powers of ten. -/
theorem Numeral.toDigits_mul_pow {n : Nat} (hn : 0 < n) (k : Nat) :
    Nat.toDigits 10 (n * 10 ^ k) = Nat.toDigits 10 n ++ List.replicate k '0' := by
  induction k with
  | zero => simp
  | succ k ih =>
    have hpos : 0 < n * 10 ^ k := by positivity
    have happend := Nat.toDigits_append_toDigits (b := 10) (by decide) hpos (show 0 < 10 by decide)
    rw [ih] at happend
    rw [pow_succ, ← mul_assoc, mul_comm _ 10, ← Nat.add_zero (10 * (n * 10 ^ k)), ← happend,
      List.replicate_succ', List.append_assoc]
    rfl

namespace Quantity

variable {a b q : Quantity}

/-! ### Printing -/

/-- Zeros may be digits or stand for a negative scale; the text is the same. -/
theorem plainChars_mul_pow (digits : Int) {scale : Int} (h : scale ≤ 0) :
    plainChars (digits * powerOfTen (-scale).toNat) 0 = plainChars digits scale := by
  rw [powerOfTen_eq, Nat.cast_pow, Nat.cast_ofNat]
  have hplaces : scale.toNat = 0 := by omega
  by_cases hzero : digits = 0
  · simp [plainChars, hzero, hplaces]
  · have hpow : (0 : Int) < 10 ^ (-scale).toNat := by positivity
    have hsign : digits * 10 ^ (-scale).toNat < 0 ↔ digits < 0 :=
      ⟨fun h => neg_of_mul_neg_left h hpow.le, fun h => mul_neg_of_neg_of_pos h hpow⟩
    have hnatAbs : (digits * 10 ^ (-scale).toNat).natAbs = digits.natAbs * 10 ^ (-scale).toNat := by
      rw [Int.natAbs_mul, Int.natAbs_pow]
      rfl
    simp only [plainChars, hplaces, hsign, hnatAbs, hzero,
      Numeral.toDigits_mul_pow (Int.natAbs_pos.mpr hzero)]
    simp

/-- A quantity and what reading makes of its text are printed alike. -/
theorem chars_respelled (q : Quantity) : q.respelled.chars = q.chars := by
  by_cases h : 0 ≤ q.scale + q.exponent
  · rw [respelled_eq_self h]
  · have hshift := plainChars_mul_pow q.digits (Int.not_le.mp h).le
    have hscale : ((q.scale + q.exponent).toNat : Int) - q.exponent + q.exponent = 0 := by omega
    simp only [chars, respelled, hscale, hshift]
    rfl

/-- Without an exponent, a quantity is read back with its zeros as digits. -/
theorem respelled_of_exponent_eq_zero (h : q.exponent = 0) :
    q.respelled = ⟨q.spelledDigits, q.places, 0⟩ := by
  rw [respelled, h, spelledDigits, appended, places]
  simp

/-! ### Evaluation -/

/-- Two quantities are spelled alike if they show the same digits before and behind the point and
neither is compact. -/
structure Alike (a b : Quantity) : Prop where
  spelledDigits : a.spelledDigits = b.spelledDigits
  places : a.places = b.places
  exponent_left : a.exponent = 0
  exponent_right : b.exponent = 0

theorem alike_self (h : q.exponent = 0) : Alike q q := ⟨rfl, rfl, h, h⟩

/-- A quantity without an exponent is read back as one that is alike. -/
theorem alike_respelled (h : q.exponent = 0) : Alike q.respelled q := by
  rw [respelled_of_exponent_eq_zero h]
  exact ⟨by simp [Quantity.spelledDigits, appended, powerOfTen_eq], Int.toNat_natCast _, rfl, h⟩

theorem Alike.chars (h : Alike a b) : a.chars = b.chars := by
  rw [← chars_respelled a, ← chars_respelled b, respelled_of_exponent_eq_zero h.exponent_left,
    respelled_of_exponent_eq_zero h.exponent_right, h.spelledDigits, h.places]

theorem Alike.value (h : Alike a b) : a.value = b.value := by
  rw [value_eq_div, value_eq_div, h.spelledDigits, h.places]

theorem Alike.compare {c d : Quantity} (h : Alike a b) (h' : Alike c d) :
    a.compare c = b.compare d := by
  rw [compare_eq, compare_eq, h.value, h'.value]

theorem Alike.isInteger (h : Alike a b) : a.isInteger = b.isInteger := isInteger_congr h.value

theorem Alike.toInt64? (h : Alike a b) : a.toInt64? = b.toInt64? := toInt64?_congr h.value

/-- Quantities that are alike have opposites that are alike. -/
theorem Alike.negate (h : Alike a b) : Alike a.negate b.negate where
  spelledDigits := by
    have hdigits := h.spelledDigits
    simp only [Quantity.spelledDigits, appended] at hdigits ⊢
    simp only [Quantity.negate, Int.neg_mul, hdigits]
  places := h.places
  exponent_left := h.exponent_left
  exponent_right := h.exponent_right

/-- Quantities that are alike have the same complement. -/
theorem Alike.complement? (h : Alike a b) : a.complement? = b.complement? :=
  complement?_congr h.value

/-- Quantities that are alike leave the same remainder by divisors that are alike. -/
theorem Alike.remainderBy {c d : Quantity} (h : Alike a b) (h' : Alike c d) :
    a.remainderBy c = b.remainderBy d := by
  -- the divisor enters by its integer, and the dividend by the digits that it shows
  have hremainder : ∀ z : Int, a.remainder z = b.remainder z := by
    intro z
    have hdigits := h.spelledDigits
    rw [Quantity.spelledDigits, Quantity.spelledDigits] at hdigits
    rw [remainder, remainder, hdigits, h.places]
  rw [Quantity.remainderBy, Quantity.remainderBy, h'.toInt64?, toString, toString, h'.chars]
  cases d.toInt64? with
  | none => rfl
  | some z => exact hremainder z

theorem exponent_of_remainderBy {r : Quantity} (h : a.remainderBy b = .ok r) : r.exponent = 0 := by
  obtain ⟨d, -, hr⟩ := remainderBy_eq_ok_iff.mp h
  rw [(remainder_eq_ok_iff.mp hr).2]

/-- The value of an operand has no exponent. -/
theorem exponent_operand (q : Quantity) (feature : Operand) : (q.operand feature).exponent = 0 := by
  cases feature <;> rfl

end Quantity

end PluralRules
