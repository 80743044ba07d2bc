import PluralRules.Proofs.Spelling
import PluralRules.Quantity.Printer

/-!
# Numerals and quantities

A quantity is printed by way of a numeral (`Numeral.ofQuantity`), and the text of a numeral is read
back as that numeral. What reading makes of the text of a quantity is `Quantity.respelled`:

    Quantity.ofChars q.chars = .ok q.respelled

The two differ only where zeros had to be appended to the digits because the scale is negative;
every quantity that was itself read from a text comes back as it was.
-/

namespace PluralRules

namespace Numeral

/-! ### The text of a numeral -/

/-- The sign of a numeral, which is printed only if it is a minus. -/
def signChars (negative : Bool) : List Char := if negative then ['-'] else []

def pointChars : List Char → List Char
  | [] => []
  | fraction => '.' :: fraction

theorem pointChars_eq {fraction : List Char} (h : fraction ≠ []) :
    pointChars fraction = '.' :: fraction := by
  cases fraction with
  | nil => exact absurd rfl h
  | cons d ds => rfl

def exponentChars : Option (Bool × List Char) → List Char
  | none => []
  | some (negative, power) => 'c' :: (signChars negative ++ power)

def chars (n : Numeral) : List Char :=
  signChars n.negative ++ (n.whole ++ (pointChars n.fraction ++ exponentChars n.exponent))

/-- A numeral has digits before the point, and digits where it has an exponent. -/
structure IsValid (n : Numeral) : Prop where
  whole : IsDigits n.whole
  fraction : ∀ c ∈ n.fraction, c.isDigit = true
  exponent : ∀ x, n.exponent = some x → IsDigits x.2

/-! ### Reading the text of a numeral -/

variable {fraction : List Char} {n : Numeral}

/-- A sign is printed as numerals have it. -/
theorem isSign_signChars (negative : Bool) : IsSign (signChars negative) negative := by
  cases negative with
  | false => exact .absent
  | true => exact .minus

theorem isFraction_pointChars (h : ∀ c ∈ fraction, c.isDigit = true) :
    IsFraction (pointChars fraction) fraction := by
  cases fraction with
  | nil => exact .absent
  | cons d ds => exact .present ⟨List.cons_ne_nil d ds, h⟩

theorem isExponent_exponentChars (h : ∀ x, n.exponent = some x → IsDigits x.2) :
    IsExponent (exponentChars n.exponent) n.exponent := by
  cases hx : n.exponent with
  | none => exact .absent
  | some x => exact .present List.mem_cons_self (isSign_signChars x.1) (h x hx)

/-- The text of a numeral is one of the texts that spell it. -/
theorem spells_chars (h : n.IsValid) : Spells n.chars n :=
  .parts (isSign_signChars n.negative) h.whole (isFraction_pointChars h.fraction)
    (isExponent_exponentChars h.exponent)

/-- The text of a numeral is read as that numeral. -/
theorem ofChars?_chars (h : n.IsValid) : ofChars? n.chars = some n :=
  ofChars?_eq_some_iff.mpr (spells_chars h)

def IsNumeralChar (c : Char) : Prop := c.isDigit = true ∨ c = '-' ∨ c = '.' ∨ c = 'c'

/-- The text of a numeral holds digits, signs, points and exponent marks only. -/
theorem isNumeralChar_of_mem_chars (h : n.IsValid) : ∀ c ∈ n.chars, IsNumeralChar c := by
  have hsign : ∀ (b : Bool), ∀ c ∈ signChars b, IsNumeralChar c := by
    intro b c hc
    cases b with
    | false => cases hc
    | true => exact Or.inr (Or.inl (List.mem_singleton.mp hc))
  have hpoint : ∀ c ∈ pointChars n.fraction, IsNumeralChar c := by
    intro c hc
    cases hf : n.fraction with
    | nil => rw [hf] at hc; cases hc
    | cons d ds =>
      rw [hf] at hc
      rcases List.mem_cons.mp hc with rfl | hc
      · exact Or.inr (Or.inr (Or.inl rfl))
      · exact Or.inl (h.fraction c (hf ▸ hc))
  have hexponent : ∀ c ∈ exponentChars n.exponent, IsNumeralChar c := by
    intro c hc
    cases hx : n.exponent with
    | none => rw [hx] at hc; cases hc
    | some x =>
      rw [hx] at hc
      rcases List.mem_cons.mp hc with rfl | hc
      · exact Or.inr (Or.inr (Or.inr rfl))
      · rcases List.mem_append.mp hc with hc | hc
        · exact hsign x.1 c hc
        · exact Or.inl ((h.exponent x hx).2 c hc)
  intro c hc
  simp only [chars, List.mem_append] at hc
  rcases hc with hc | hc | hc | hc
  · exact hsign n.negative c hc
  · exact Or.inl (h.whole.2 c hc)
  · exact hpoint c hc
  · exact hexponent c hc

/-- At most one point stands in the text of a numeral. -/
theorem count_point_le (h : n.IsValid) : n.chars.count '.' ≤ 1 := by
  have hdigits : ∀ {s : List Char}, (∀ c ∈ s, c.isDigit = true) → s.count '.' = 0 :=
    fun hs => List.count_eq_zero.mpr fun hmem => by cases hs '.' hmem
  have hsign : ∀ b : Bool, (signChars b).count '.' = 0 := by decide
  have hpoint : (pointChars n.fraction).count '.' ≤ 1 := by
    cases hf : n.fraction with
    | nil => exact Nat.zero_le 1
    | cons d ds =>
      have hds := hdigits (hf ▸ h.fraction)
      simp only [pointChars, List.count_cons_self]
      omega
  have hexponent : (exponentChars n.exponent).count '.' = 0 := by
    cases hx : n.exponent with
    | none => rfl
    | some x =>
      have hpower := hdigits (h.exponent x hx).2
      simp [exponentChars, hsign, hpower]
  simp only [chars, List.count_append, hsign, hdigits h.whole.2, hexponent]
  omega

theorem isBlank_of_isNumeralChar {c : Char} (h : IsNumeralChar c) : Text.isBlank c = false := by
  rcases h with h | rfl | rfl | rfl
  · exact Grammar.isBlank_of_isNameChar (Grammar.isNameChar_of_isDigit h)
  all_goals decide

/-- No blanks stand around the text of a numeral. -/
theorem trim_chars (h : n.IsValid) : Text.trim n.chars = n.chars :=
  Text.trim_eq_self (Text.isTrimmed_of_forall fun c hc =>
    isBlank_of_isNumeralChar (isNumeralChar_of_mem_chars h c hc))

/-! ### The numeral of a quantity -/

theorem isDigits_toDigits (k : Nat) : IsDigits (Nat.toDigits 10 k) :=
  ⟨Nat.toDigits_ne_nil, fun _ => Nat.isDigit_of_mem_toDigits (by decide) (by decide)⟩

/-- The zeros that stand for a negative scale. Zero needs none. -/
def appendedZeros (k : Nat) (scale : Int) : List Char :=
  List.replicate (if k = 0 then 0 else (-scale).toNat) '0'

/-- The digits before and behind the point in the decimal text of `k * 10 ^ -scale`. -/
def parts (k : Nat) (scale : Int) : List Char × List Char :=
  if scale.toNat = 0 then (Nat.toDigits 10 k ++ appendedZeros k scale, [])
  else
    let all := Quantity.paddedDigits (scale.toNat + 1) k
    (all.take (all.length - scale.toNat), all.drop (all.length - scale.toNat))

/-- The numeral as which a quantity is printed. -/
def ofQuantity (q : Quantity) : Numeral where
  negative := q.digits < 0
  whole := (parts q.digits.natAbs (q.scale + q.exponent)).1
  fraction := (parts q.digits.natAbs (q.scale + q.exponent)).2
  exponent := if q.exponent = 0 then none
    else some (decide (q.exponent < 0), Nat.toDigits 10 q.exponent.natAbs)

theorem isDigit_of_mem_paddedDigits {width k : Nat} :
    ∀ c ∈ Quantity.paddedDigits width k, c.isDigit = true := by
  intro c hc
  rcases List.mem_append.mp hc with hc | hc
  · rw [List.eq_of_mem_replicate hc]; rfl
  · exact (isDigits_toDigits k).2 c hc

/-- Padded digits fill their width. -/
theorem le_length_paddedDigits (width k : Nat) :
    width ≤ (Quantity.paddedDigits width k).length := by
  simp only [Quantity.paddedDigits, List.length_append, List.length_replicate]
  omega

theorem isDigit_of_mem_appendedZeros {k : Nat} {scale : Int} :
    ∀ c ∈ appendedZeros k scale, c.isDigit = true := by
  intro c hc
  rw [List.eq_of_mem_replicate hc]
  rfl

theorem isDigits_parts (k : Nat) (scale : Int) : IsDigits (parts k scale).1 := by
  by_cases h : scale.toNat = 0
  · rw [parts, if_pos h]
    refine ⟨by simp [Nat.toDigits_ne_nil], fun c hc => ?_⟩
    rcases List.mem_append.mp hc with hc | hc
    · exact (isDigits_toDigits k).2 c hc
    · exact isDigit_of_mem_appendedZeros c hc
  · have hle := le_length_paddedDigits (scale.toNat + 1) k
    rw [parts, if_neg h]
    refine ⟨fun hnil => ?_, fun c hc => isDigit_of_mem_paddedDigits c (List.mem_of_mem_take hc)⟩
    have hlen := congrArg List.length hnil
    simp only [List.length_take, List.length_nil] at hlen
    omega

theorem isDigit_of_mem_parts (k : Nat) (scale : Int) :
    ∀ c ∈ (parts k scale).2, c.isDigit = true := by
  by_cases h : scale.toNat = 0
  · rw [parts, if_pos h]
    intro c hc
    cases hc
  · rw [parts, if_neg h]
    exact fun c hc => isDigit_of_mem_paddedDigits c (List.mem_of_mem_drop hc)

/-- As many digits stand behind the point as the scale says. -/
theorem length_parts (k : Nat) (scale : Int) : (parts k scale).2.length = scale.toNat := by
  by_cases h : scale.toNat = 0
  · rw [parts, if_pos h, h]
    rfl
  · have hle := le_length_paddedDigits (scale.toNat + 1) k
    rw [parts, if_neg h]
    simp only [List.length_drop]
    omega

/-- The digits of both parts together, read as one number. A negative scale appends zeros. -/
theorem valueOf_parts (k : Nat) (scale : Int) :
    valueOf ((parts k scale).1 ++ (parts k scale).2) = k * Quantity.powerOfTen (-scale).toNat := by
  by_cases h : scale.toNat = 0
  · rw [parts, if_pos h]
    by_cases hk : k = 0
    · simp [valueOf, appendedZeros, hk, Nat.ofDigitChars_cons]
    · simp [valueOf, Nat.ofDigitChars_append, appendedZeros, hk, Nat.mul_comm, Quantity.powerOfTen]
  · have hneg : (-scale).toNat = 0 := by omega
    rw [parts, if_neg h]
    simp [valueOf, Quantity.paddedDigits, Nat.ofDigitChars_append, hneg, Quantity.powerOfTen]

/-- The numeral as which a quantity is printed is valid. -/
theorem isValid_ofQuantity (q : Quantity) : (ofQuantity q).IsValid where
  whole := isDigits_parts _ _
  fraction := isDigit_of_mem_parts _ _
  exponent := by
    intro x hx
    simp only [ofQuantity] at hx
    split at hx
    · cases hx
    · cases hx
      exact isDigits_toDigits _

theorem signed_natAbs (z : Int) (k : Nat) : signed (z < 0) (z.natAbs * k) = z * k := by
  unfold signed
  split
  · next h =>
    have hz : (z.natAbs : Int) = -z := by
      have := of_decide_eq_true h
      omega
    rw [Int.natCast_mul, hz, Int.neg_mul, Int.neg_neg]
  · next h =>
    have hz : (z.natAbs : Int) = z := by
      have : ¬ z < 0 := by simpa using h
      omega
    rw [Int.natCast_mul, hz]

/-- The exponent of a quantity is the one of its numeral. -/
theorem exponentValue_ofQuantity (q : Quantity) : (ofQuantity q).exponentValue = q.exponent := by
  by_cases h : q.exponent = 0
  · simp [ofQuantity, exponentValue, h]
  · have hsigned := signed_natAbs q.exponent 1
    simp only [Nat.mul_one, Int.natCast_one, Int.mul_one] at hsigned
    simp [ofQuantity, exponentValue, h, valueOf, hsigned]

theorem exponentMagnitude_eq (n : Numeral) : n.exponentMagnitude = n.exponentValue.natAbs := by
  unfold exponentMagnitude exponentValue
  cases n.exponent with
  | none => rfl
  | some x =>
    obtain ⟨negative, power⟩ := x
    cases negative <;> simp [signed]

end Numeral

namespace Quantity

/-- What reading makes of the text of a quantity: zeros that a negative scale stands for have become
digits. -/
def respelled (q : Quantity) : Quantity :=
  ⟨q.digits * powerOfTen (-(q.scale + q.exponent)).toNat, (q.scale + q.exponent).toNat - q.exponent,
    q.exponent⟩

/-- A quantity that a text spells: the point stands at or behind the end of its digits, and the
exponent is within the limit. -/
def IsSpelled (q : Quantity) : Prop :=
  0 ≤ q.scale + q.exponent ∧ q.exponent.natAbs ≤ exponentLimit

/-- A quantity is read back as it was if its scale, with the exponent, is not negative. -/
theorem respelled_eq_self {q : Quantity} (hscale : 0 ≤ q.scale + q.exponent) : q.respelled = q := by
  -- no zeros are appended, and the places that show are the scale again
  have hzeros : (-(q.scale + q.exponent)).toNat = 0 := by omega
  have hplaces : ((q.scale + q.exponent).toNat : Int) - q.exponent = q.scale := by omega
  rw [respelled, hzeros, hplaces]
  exact congrArg (Quantity.mk · _ _) (Int.mul_one q.digits)

/-- The numeral of a quantity spells the respelled quantity. -/
theorem quantity_ofQuantity (q : Quantity) : (Numeral.ofQuantity q).quantity = q.respelled := by
  have hdigits : Numeral.signed (q.digits < 0)
      (Numeral.valueOf ((Numeral.ofQuantity q).whole ++ (Numeral.ofQuantity q).fraction)) =
        q.digits * powerOfTen (-(q.scale + q.exponent)).toNat := by
    have hvalue := Numeral.valueOf_parts q.digits.natAbs (q.scale + q.exponent)
    show Numeral.signed _ (Numeral.valueOf ((Numeral.parts _ _).1 ++ (Numeral.parts _ _).2)) = _
    rw [hvalue, Numeral.signed_natAbs]
  have hlength : (Numeral.ofQuantity q).fraction.length = (q.scale + q.exponent).toNat :=
    Numeral.length_parts _ _
  rw [Numeral.quantity, Numeral.exponentValue_ofQuantity, hlength]
  exact congrArg (Quantity.mk · _ _) hdigits

/-! ### The text of a quantity -/

/-- The decimal text of a number is a sign, digits and a fraction. -/
theorem plainChars_eq (digits scale : Int) :
    plainChars digits scale = Numeral.signChars (digits < 0) ++
      ((Numeral.parts digits.natAbs scale).1 ++
        Numeral.pointChars (Numeral.parts digits.natAbs scale).2) := by
  have hsign : (if digits < 0 then ['-'] else []) = Numeral.signChars (digits < 0) := by
    by_cases h : digits < 0 <;> simp [Numeral.signChars, h]
  by_cases hbehind : scale.toNat = 0
  · simp only [plainChars, Numeral.parts, if_pos hbehind, hsign, Numeral.appendedZeros,
      Int.natAbs_eq_zero, Numeral.pointChars, List.append_nil, List.append_assoc]
  · have hne : (Numeral.parts digits.natAbs scale).2 ≠ [] := by
      intro h
      have := Numeral.length_parts digits.natAbs scale
      rw [h] at this
      exact hbehind this.symm
    rw [Numeral.pointChars_eq hne]
    simp only [plainChars, Numeral.parts, if_neg hbehind, hsign, List.append_assoc]

theorem intChars_eq (z : Int) :
    intChars z = Numeral.signChars (z < 0) ++ Nat.toDigits 10 z.natAbs := by
  rw [intChars, plainChars_eq]
  simp [Numeral.parts, Numeral.appendedZeros, Numeral.pointChars]

/-- A quantity is printed as its numeral. -/
theorem chars_eq (q : Quantity) : q.chars = (Numeral.ofQuantity q).chars := by
  have hexponent : (if q.exponent = 0 then [] else 'c' :: intChars q.exponent) =
      Numeral.exponentChars (Numeral.ofQuantity q).exponent := by
    by_cases h : q.exponent = 0
    · simp [Numeral.ofQuantity, Numeral.exponentChars, h]
    · simp [Numeral.ofQuantity, Numeral.exponentChars, h, intChars_eq]
  rw [chars, plainChars_eq, hexponent]
  simp [Numeral.chars, Numeral.ofQuantity]

theorem isNumeralChar_of_mem_chars (q : Quantity) : ∀ c ∈ q.chars, Numeral.IsNumeralChar c := by
  rw [chars_eq]
  exact Numeral.isNumeralChar_of_mem_chars (Numeral.isValid_ofQuantity q)

/-- The text of a quantity has at most one point. -/
theorem count_point_le (q : Quantity) : q.chars.count '.' ≤ 1 := by
  rw [chars_eq]
  exact Numeral.count_point_le (Numeral.isValid_ofQuantity q)

theorem chars_ne_nil (q : Quantity) : q.chars ≠ [] := by
  have hwhole := (Numeral.isValid_ofQuantity q).whole.1
  rw [chars_eq, Numeral.chars]
  simp [hwhole]

/-- A character that numerals have no use for is in no text of a quantity. -/
theorem not_mem_chars {c : Char} (h : ¬ Numeral.IsNumeralChar c) (q : Quantity) : c ∉ q.chars :=
  fun hmem => h (isNumeralChar_of_mem_chars q c hmem)

/-- The text of a quantity is read back, up to zeros that were appended. -/
theorem ofChars_chars {q : Quantity} (h : q.exponent.natAbs ≤ exponentLimit) :
    ofChars q.chars = .ok q.respelled := by
  have hvalid := Numeral.isValid_ofQuantity q
  have hlimit : (Numeral.ofQuantity q).exponentMagnitude ≤ exponentLimit := by
    rw [Numeral.exponentMagnitude_eq, Numeral.exponentValue_ofQuantity]
    exact h
  rw [chars_eq, ofChars, Numeral.trim_chars hvalid, Numeral.ofChars?_chars hvalid]
  simp only [if_pos hlimit, quantity_ofQuantity]

/-- Whatever is read from a text is spelled by it. -/
theorem isSpelled_of_ofChars {s : List Char} {q : Quantity} (h : ofChars s = .ok q) :
    q.IsSpelled := by
  unfold ofChars at h
  split at h
  · cases h
  · next numeral _ =>
    split at h
    · next hlimit =>
      cases h
      rw [Numeral.exponentMagnitude_eq] at hlimit
      refine ⟨?_, hlimit⟩
      show (0 : Int) ≤ numeral.fraction.length - numeral.exponentValue + numeral.exponentValue
      omega
    · cases h

end Quantity

end PluralRules
