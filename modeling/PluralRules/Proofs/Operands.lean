import PluralRules.Proofs.Decimal
import PluralRules.Quantity.Operand

/-!
# The operands of a number

The operands take a number apart: `i` and `f` are the digits before and behind the point, `v` says
how many digits stand behind it, and `t` and `w` leave trailing zeros out of account. The parts make
up the number again:

    n = |x| = i + f * 10 ^ -v        f = t * 10 ^ (v - w)

A compact numeral has the operands of the numeral that is written out (`Numeral.plain`), in which
the point stands where the exponent moves it. Both rest on one observation: the operands other than
the exponent depend only on the digits that show and on how many of them stand behind the point.
-/

namespace PluralRules

namespace Quantity

variable {a b q : Quantity}

/-! ### The digits before and behind the point -/

/-- Spelling out the zeros of a negative scale multiplies by a power of ten. -/
theorem natAbs_spelledDigits (q : Quantity) :
    q.spelledDigits.natAbs = q.digits.natAbs * q.appended := by
  rw [spelledDigits, Int.natAbs_mul, Int.natAbs_natCast]

/-- The integer part is a quotient of the spelled digits. -/
theorem whole_eq (q : Quantity) : q.whole = q.spelledDigits.natAbs / 10 ^ q.places := by
  rw [whole, natAbs_spelledDigits, powerOfTen_eq]

/-- The fraction digits are a remainder of the spelled digits. -/
theorem fraction_eq (q : Quantity) : q.fraction = q.spelledDigits.natAbs % 10 ^ q.places := by
  rw [fraction, natAbs_spelledDigits, powerOfTen_eq]
  rcases q.places_eq_zero_or_appended_eq_one with h | h
  · rw [h, pow_zero, Nat.mod_one, Nat.mod_one]
  · rw [h, Nat.mul_one]

/-- The fraction has no more digits than show. -/
theorem fraction_lt (q : Quantity) : q.fraction < 10 ^ q.places := by
  rw [fraction_eq]
  exact Nat.mod_lt _ (by positivity)

/-- A number is an integer exactly if its fraction digits are zeros. -/
theorem isInteger_iff (q : Quantity) : q.isInteger = true ↔ q.fraction = 0 := beq_iff_eq

/-- The magnitude of a quantity stands for the absolute value. -/
theorem value_magnitude (q : Quantity) : q.magnitude.value = |q.value| := by
  have hpow : (0 : ℚ) ≤ 10 ^ (-q.scale) := zpow_nonneg (by norm_num) _
  rw [value, value, abs_mul, abs_of_nonneg hpow]
  simp [magnitude]

theorem abs_value_eq_div (q : Quantity) :
    |q.value| = q.spelledDigits.natAbs / (10 ^ q.places : ℕ) := by
  have hpow : (0 : ℚ) < (10 ^ q.places : ℕ) := by positivity
  rw [value_eq_div, abs_div, abs_of_pos hpow, ← Int.cast_abs, Int.abs_eq_natAbs, Int.cast_natCast]

/-- The magnitude of a number is made of its digits before and behind the point. -/
theorem abs_value_eq (q : Quantity) :
    |q.value| = q.whole + q.fraction * (10 : ℚ) ^ (-(q.places : ℤ)) := by
  have hdigits : ((10 ^ q.places * q.whole + q.fraction : ℕ) : ℚ) = q.spelledDigits.natAbs := by
    rw [whole_eq, fraction_eq, Nat.div_add_mod]
  rw [abs_value_eq_div, ← hdigits, zpow_neg, zpow_natCast]
  push_cast
  field_simp

/-! ### Trailing zeros -/

/-- What is left of a fraction and how many digits it has: with the zeros it is the fraction again,
and no zero is left at its end. -/
theorem dropTrailingZeros_eq {len fraction t w : ℕ} (hlt : fraction < 10 ^ len)
    (h : dropTrailingZeros len fraction = (t, w)) :
    w ≤ len ∧ fraction = t * 10 ^ (len - w) ∧ (t = 0 ↔ w = 0) ∧ (t ≠ 0 → t % 10 ≠ 0) := by
  induction len generalizing fraction with
  | zero =>
    cases h
    have hzero : t = 0 := by rwa [pow_zero, Nat.lt_one_iff] at hlt
    exact ⟨le_rfl, (Nat.mul_one _).symm, iff_of_true hzero rfl, fun hne => absurd hzero hne⟩
  | succ len ih =>
    rw [dropTrailingZeros] at h
    split at h
    -- a zero goes, and with it one of the places
    · next hmod =>
      have hten : fraction = fraction / 10 * 10 :=
        (Nat.div_mul_cancel (Nat.dvd_of_mod_eq_zero hmod)).symm
      have hlt' : fraction / 10 < 10 ^ len := by rw [pow_succ] at hlt; omega
      obtain ⟨hle, heq, hzero, hlast⟩ := ih hlt' h
      refine ⟨Nat.le_succ_of_le hle, ?_, hzero, hlast⟩
      rw [Nat.succ_sub hle, pow_succ, ← Nat.mul_assoc, ← heq]
      exact hten
    · next hmod =>
      cases h
      have hne : t ≠ 0 := fun hzero => hmod (by rw [hzero])
      refine ⟨le_rfl, ?_, iff_of_false hne (Nat.succ_ne_zero len), fun _ => hmod⟩
      rw [Nat.sub_self, pow_zero, Nat.mul_one]

/-! ### What the operands depend on -/

/-- The operands behind the point depend only on the fraction digits that show and on their
number. -/
theorem operand_congr_behind (hplaces : a.places = b.places) (hfraction : a.fraction = b.fraction) :
    ∀ operand ∈ [Operand.v, .w, .f, .t], a.operand operand = b.operand operand := by
  have hsignificant : a.significantFraction = b.significantFraction := by
    rw [significantFraction, significantFraction, hplaces, hfraction]
  simp [operand, hplaces, hfraction, hsignificant]

/-- The operands other than the exponent depend only on the digits that show and on their places. -/
theorem operand_congr (hdigits : a.spelledDigits = b.spelledDigits)
    (hplaces : a.places = b.places) :
    ∀ operand, operand ≠ .n → operand ≠ .e → operand ≠ .c →
      a.operand operand = b.operand operand := by
  have hwhole : a.whole = b.whole := by rw [whole_eq, whole_eq, hdigits, hplaces]
  have hfraction : a.fraction = b.fraction := by rw [fraction_eq, fraction_eq, hdigits, hplaces]
  intro operand hn he hc
  cases operand with
  | n => exact absurd rfl hn
  | e => exact absurd rfl he
  | c => exact absurd rfl hc
  | i => simp only [operand, hwhole]
  | v | w | f | t => exact operand_congr_behind hplaces hfraction _ (by decide)

/-- The magnitude and the operands other than the exponent, as numbers. -/
theorem value_operand_congr (hdigits : a.spelledDigits = b.spelledDigits)
    (hplaces : a.places = b.places) {operand : Operand} (he : operand ≠ .e) (hc : operand ≠ .c) :
    (a.operand operand).value = (b.operand operand).value := by
  by_cases hn : operand = .n
  · subst hn
    show a.magnitude.value = b.magnitude.value
    rw [value_magnitude, value_magnitude, value_eq_div, value_eq_div, hdigits, hplaces]
  · rw [operand_congr hdigits hplaces operand hn he hc]

end Quantity

/-! ### Moving the point -/

namespace Numeral

/-- The digits before and behind the point when the point is moved to the right, past zeros where
there are no digits. -/
def pointRight (k : ℕ) (whole fraction : List Char) : List Char × List Char :=
  (whole ++ (fraction.take k ++ List.replicate (k - fraction.length) '0'), fraction.drop k)

/-- The digits before and behind the point when the point is moved to the left. One digit stays
before the point, if need be a zero. -/
def pointLeft (k : ℕ) (whole fraction : List Char) : List Char × List Char :=
  let padded := List.replicate (k + 1 - whole.length) '0' ++ whole
  (padded.take (padded.length - k), padded.drop (padded.length - k) ++ fraction)

/-- The digits before and behind the point when the point is moved: to the right, or to the left if
the distance is negative. -/
def movePoint : ℤ → List Char → List Char → List Char × List Char
  | .ofNat k => pointRight k
  | .negSucc k => pointLeft (k + 1)

/-- The numeral written out without an exponent. -/
def plain (n : Numeral) : Numeral :=
  let moved := movePoint n.exponentValue n.whole n.fraction
  ⟨n.negative, moved.1, moved.2, none⟩

/-- Leading zeros do not count. -/
theorem valueOf_replicate_append (k : ℕ) (s : List Char) :
    valueOf (List.replicate k '0' ++ s) = valueOf s := by
  simp [valueOf, Nat.ofDigitChars_append]

/-- Zeros at the end multiply by a power of ten. -/
theorem valueOf_append_replicate (s : List Char) (k : ℕ) :
    valueOf (s ++ List.replicate k '0') = valueOf s * 10 ^ k := by
  simp [valueOf, Nat.ofDigitChars_append, Nat.mul_comm]

section Points

variable {whole fraction : List Char} (k : ℕ)

theorem isDigit_of_mem_replicate {c : Char} (h : c ∈ List.replicate k '0') : c.isDigit = true := by
  rw [List.eq_of_mem_replicate h]
  rfl

/-- Zeros are appended when the point is moved past the last digit. -/
theorem valueOf_pointRight :
    valueOf ((pointRight k whole fraction).1 ++ (pointRight k whole fraction).2) =
    valueOf (whole ++ fraction) * 10 ^ (k - fraction.length) := by
  have htext : (pointRight k whole fraction).1 ++ (pointRight k whole fraction).2 =
      (whole ++ fraction) ++ List.replicate (k - fraction.length) '0' := by
    rcases Nat.le_total k fraction.length with h | h
    · simp [pointRight, Nat.sub_eq_zero_of_le h]
    · simp [pointRight, List.take_of_length_le h, List.drop_of_length_le h]
  rw [htext, valueOf_append_replicate]

/-- Moving the point to the right leaves digits on both sides. -/
theorem isDigits_pointRight (hwhole : IsDigits whole)
    (hfraction : ∀ c ∈ fraction, c.isDigit = true) : IsDigits (pointRight k whole fraction).1 ∧
      ∀ c ∈ (pointRight k whole fraction).2, c.isDigit = true := by
  refine ⟨⟨List.append_ne_nil_of_left_ne_nil hwhole.1 _, fun c hc => ?_⟩, fun c hc => ?_⟩
  · rcases List.mem_append.mp hc with hc | hc
    · exact hwhole.2 c hc
    · rcases List.mem_append.mp hc with hc | hc
      · exact hfraction c (List.mem_of_mem_take hc)
      · exact isDigit_of_mem_replicate _ hc
  · exact hfraction c (List.mem_of_mem_drop hc)

/-- Moving the point to the left changes no digit but zeros in front. -/
theorem valueOf_pointLeft :
    valueOf ((pointLeft k whole fraction).1 ++ (pointLeft k whole fraction).2) =
    valueOf (whole ++ fraction) := by
  rw [pointLeft, ← List.append_assoc, List.take_append_drop, List.append_assoc,
    valueOf_replicate_append]

/-- Moving the point to the left adds a fraction digit for each place. -/
theorem length_pointLeft : (pointLeft k whole fraction).2.length = fraction.length + k := by
  simp only [pointLeft, List.length_append, List.length_drop, List.length_replicate]
  omega

theorem isDigits_pointLeft (hwhole : IsDigits whole)
    (hfraction : ∀ c ∈ fraction, c.isDigit = true) : IsDigits (pointLeft k whole fraction).1 ∧
      ∀ c ∈ (pointLeft k whole fraction).2, c.isDigit = true := by
  have hpadded : ∀ c ∈ List.replicate (k + 1 - whole.length) '0' ++ whole, c.isDigit = true := by
    intro c hc
    rcases List.mem_append.mp hc with hc | hc
    · exact isDigit_of_mem_replicate _ hc
    · exact hwhole.2 c hc
  refine ⟨⟨fun hnil => ?_, fun c hc => hpadded c (List.mem_of_mem_take hc)⟩, fun c hc => ?_⟩
  · have hlen := congrArg List.length hnil
    simp only [pointLeft, List.length_take, List.length_append, List.length_replicate,
      List.length_nil] at hlen
    omega
  · rcases List.mem_append.mp hc with hc | hc
    · exact hpadded c (List.mem_of_mem_drop hc)
    · exact hfraction c hc

end Points

section Point

variable {whole fraction : List Char} (z : ℤ)

/-- Moving the point adds zeros where digits are missing and changes none. -/
theorem valueOf_movePoint :
    valueOf ((movePoint z whole fraction).1 ++ (movePoint z whole fraction).2) =
    valueOf (whole ++ fraction) * 10 ^ (z - fraction.length).toNat := by
  cases z with
  | ofNat k =>
    have hzeros : (Int.ofNat k - fraction.length).toNat = k - fraction.length := by
      rw [Int.ofNat_eq_natCast]
      omega
    rw [hzeros]
    exact valueOf_pointRight k
  | negSucc k =>
    have hzeros : (Int.negSucc k - fraction.length).toNat = 0 := by omega
    rw [hzeros, pow_zero, Nat.mul_one]
    exact valueOf_pointLeft (k + 1)

/-- The fraction digits that remain when the point is moved. -/
theorem length_movePoint :
    (movePoint z whole fraction).2.length = ((fraction.length : ℤ) - z).toNat := by
  cases z with
  | ofNat k =>
    show (fraction.drop k).length = _
    rw [List.length_drop, Int.ofNat_eq_natCast]
    omega
  | negSucc k =>
    show (pointLeft (k + 1) whole fraction).2.length = _
    rw [length_pointLeft]
    omega

theorem isDigits_movePoint (hwhole : IsDigits whole)
    (hfraction : ∀ c ∈ fraction, c.isDigit = true) : IsDigits (movePoint z whole fraction).1 ∧
      ∀ c ∈ (movePoint z whole fraction).2, c.isDigit = true := by
  cases z with
  | ofNat k => exact isDigits_pointRight k hwhole hfraction
  | negSucc k => exact isDigits_pointLeft (k + 1) hwhole hfraction

end Point

variable {n : Numeral}

/-- Writing out an exponent gives a numeral again. -/
theorem isValid_plain (hwhole : IsDigits n.whole) (hfraction : ∀ c ∈ n.fraction, c.isDigit = true) :
    n.plain.IsValid where
  whole := (isDigits_movePoint n.exponentValue hwhole hfraction).1
  fraction := (isDigits_movePoint n.exponentValue hwhole hfraction).2
  exponent := nofun

theorem signed_mul (negative : Bool) (k m : ℕ) :
    signed negative (k * m) = signed negative k * m := by
  cases negative <;> simp [signed]

/-- The numeral written out shows the digits that the compact one stands for, at the same places. -/
theorem quantity_plain (n : Numeral) :
    n.plain.quantity.spelledDigits = n.quantity.spelledDigits ∧
      n.plain.quantity.places = n.quantity.places := by
  constructor
  · have hplain : n.plain.quantity.spelledDigits =
        signed n.negative (valueOf (n.plain.whole ++ n.plain.fraction)) := by
      simp [Quantity.spelledDigits, Quantity.appended, Quantity.powerOfTen_eq, quantity,
        exponentValue, plain]
    rw [hplain, Quantity.spelledDigits, Quantity.appended, Quantity.powerOfTen_eq,
      quantity, neg_sub, ← signed_mul, ← valueOf_movePoint]
    rfl
  · have hplain : n.plain.quantity.places = n.plain.fraction.length := by
      simp [Quantity.places, quantity, exponentValue, plain]
    rw [hplain]
    exact length_movePoint n.exponentValue

theorem Spells.isDigits {s : List Char} (h : Spells s n) :
    IsDigits n.whole ∧ ∀ c ∈ n.fraction, c.isDigit = true := by
  obtain ⟨-, hwhole, hfraction, -⟩ := h
  refine ⟨hwhole, ?_⟩
  cases hfraction with
  | absent => exact nofun
  | present hdigits => exact hdigits.2

end Numeral

namespace Quantity

/-- The operands of a quantity make up its magnitude, whatever its scale. -/
theorem exists_operands (q : Quantity) : ∃ i v w f t : ℕ,
    q.operand .i = ofInt i ∧ q.operand .v = ofInt v ∧ q.operand .w = ofInt w ∧
    q.operand .f = ofInt f ∧
    q.operand .t = ofInt t ∧ |q.value| = i + f * (10 : ℚ) ^ (-(v : ℤ)) ∧ f < 10 ^ v ∧ w ≤ v ∧
    f = t * 10 ^ (v - w) ∧ (t = 0 ↔ w = 0) ∧ (w = 0 ↔ f = 0) ∧ (f = 0 ↔ q.isInteger = true) ∧
    (t ≠ 0 → t % 10 ≠ 0) := by
  obtain ⟨hle, hfraction, hzero, hlast⟩ :=
    dropTrailingZeros_eq (t := q.significantFraction.1)
      (w := q.significantFraction.2) q.fraction_lt rfl
  have hpow : 10 ^ (q.places - q.significantFraction.2) ≠ 0 := by positivity
  have hw : q.significantFraction.2 = 0 ↔ q.fraction = 0 := by
    rw [← hzero, hfraction, mul_eq_zero, or_iff_left hpow]
  exact ⟨q.whole, q.places, q.significantFraction.2, q.fraction, q.significantFraction.1,
    rfl, rfl, rfl,
    rfl, rfl, q.abs_value_eq, q.fraction_lt, hle, hfraction, hzero, hw, q.isInteger_iff.symm, hlast⟩

/-- The numeral written out is read, and its operands are those of the compact one. -/
theorem exists_ofString_plain {n : Numeral} {s : List Char} (h : Numeral.Spells s n) :
    ∃ p, ofString (String.ofList n.plain.chars) = .ok p ∧
      ∀ operand, operand ≠ .e → operand ≠ .c →
        (p.operand operand).value = (n.quantity.operand operand).value := by
  have hvalid := Numeral.isValid_plain h.isDigits.1 h.isDigits.2
  have hread : ofString (String.ofList n.plain.chars) = .ok n.plain.quantity := by
    rw [ofString, String.toList_ofList, ofChars, Numeral.trim_chars hvalid,
      Numeral.ofChars?_chars hvalid]
    rfl
  obtain ⟨hdigits, hplaces⟩ := n.quantity_plain
  exact ⟨_, hread, fun operand he hc => value_operand_congr hdigits hplaces he hc⟩

/-- The operands of a number that is read from a text.

They take apart the magnitude of the number that the numeral writes, the exponent is the one of the
numeral, and a compact numeral has the operands of the numeral that is written out: with the point
moved as far as the exponent says, past zeros if need be, and without a point if no digits remain
behind it. -/
theorem operands_of_ofString {s : String} {q : Quantity} (h : ofString s = .ok q) :
    ∃ n, Numeral.Spells (Text.trim s.toList) n ∧ q.value = n.number ∧
      (q.operand .n).value = |q.value| ∧
      (∃ i v w f t : ℕ, q.operand .i = ofInt i ∧ q.operand .v = ofInt v ∧ q.operand .w = ofInt w ∧
        q.operand .f = ofInt f ∧ q.operand .t = ofInt t ∧
        |q.value| = i + f * (10 : ℚ) ^ (-(v : ℤ)) ∧
        f < 10 ^ v ∧ w ≤ v ∧ f = t * 10 ^ (v - w) ∧ (t = 0 ↔ w = 0) ∧ (w = 0 ↔ f = 0) ∧
        (f = 0 ↔ q.isInteger = true) ∧ (t ≠ 0 → t % 10 ≠ 0)) ∧
      q.operand .e = ofInt n.exponentValue ∧ q.operand .c = ofInt n.exponentValue ∧
      ∃ p, ofString (String.ofList n.plain.chars) = .ok p ∧
        ∀ operand, operand ≠ .e → operand ≠ .c →
          (p.operand operand).value = (q.operand operand).value := by
  obtain ⟨n, hspells, -, rfl⟩ := ofChars_eq_ok_iff.mp h
  exact ⟨n, hspells, n.value_quantity, value_magnitude _, exists_operands _, rfl, rfl,
    exists_ofString_plain hspells⟩

/-- The exponent uses up one of four fraction digits, and one of the zeros at the end is dropped. -/
theorem operands_of_ofString_compact : ∃ q, ofString " -1.0520c1 " = .ok q ∧
    (q.operand .n).value = 1052 / 100 ∧ q.operand .i = ofInt 10 ∧ q.operand .v = ofInt 3 ∧
    q.operand .w = ofInt 2 ∧ q.operand .f = ofInt 520 ∧ q.operand .t = ofInt 52 ∧
    ∃ p, ofString "-10.520" = .ok p ∧ (p.operand .n).value = (q.operand .n).value := by
  have hread : ofString " -1.0520c1 " = .ok ⟨-10520, 3, 1⟩ := by decide +kernel
  obtain ⟨n, hspells, -, hn, -, -, -, p, hp, hsame⟩ := operands_of_ofString hread
  have hnumeral : Numeral.ofChars? (Text.trim " -1.0520c1 ".toList) =
      some ⟨true, ['1'], ['0', '5', '2', '0'], some (false, ['1'])⟩ := by decide +kernel
  cases (Numeral.ofChars?_eq_some_iff.mp hnumeral).unique hspells
  refine ⟨_, hread, ?_, rfl, rfl, by decide, rfl, by decide, p, ?_, hsame .n nofun nofun⟩
  · rw [hn]
    norm_num [value]
  · rw [← hp]
    decide +kernel

end Quantity

end PluralRules
