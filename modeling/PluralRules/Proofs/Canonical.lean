import PluralRules.Proofs.Operands
import PluralRules.Proofs.Respelling

/-!
# Numbers and their canonical texts

Printing and reading numbers are inverse to each other, in both directions:

* A quantity that was read from a text, made from an integer or computed from such quantities
  (`Quantity.Obtained`) is printed as a text that is read back as the same quantity. The only
  exception is the magnitude of a compact number, which may stand for zeros that its digits do not
  show. It is read back as a quantity of the same value with the same operands.
* A text in canonical spelling (`Numeral.IsCanonical`) is read, and the quantity is printed as that
  very text.

Both hold of numbers that can be printed at all (`Quantity.HasText`): the digits behind the point
and one before it are padded together, and only to a width that is limited.
-/

namespace PluralRules

/-! ### Digits without superfluous zeros -/

namespace Numeral

/-- No zero in front of the digits can be left out. -/
def HasNoLeadingZero (s : List Char) : Prop := s.head? = some '0' → s = ['0']

variable {s whole fraction : List Char} {n : Numeral}

/-- The value of a digit, and the digit of that value. -/
theorem digitChar_sub {d : Char} (h : d.isDigit = true) :
    d.toNat - '0'.toNat < 10 ∧ Nat.digitChar (d.toNat - '0'.toNat) = d := by
  obtain ⟨hle, hge⟩ := Grammar.isDigit_iff.mp h
  have hlt : d.toNat - '0'.toNat < 10 := by
    show d.toNat - 48 < 10
    omega
  refine ⟨hlt, Char.toNat_inj.mp ?_⟩
  rw [Nat.toNat_digitChar_of_lt_ten hlt]
  show 48 + (d.toNat - 48) = d.toNat
  omega

/-- Further digits behind those of a positive number. -/
theorem toDigits_append {acc : ℕ} (hacc : 0 < acc) (h : ∀ c ∈ s, c.isDigit = true) :
    Nat.toDigits 10 acc ++ s = Nat.toDigits 10 (Nat.ofDigitChars 10 s acc) := by
  induction s generalizing acc with
  | nil => simp
  | cons d ds ih =>
    obtain ⟨hd, hds⟩ := List.forall_mem_cons.mp h
    obtain ⟨hlt, hdigit⟩ := digitChar_sub hd
    have hstep := Nat.toDigits_append_toDigits (by decide) hacc hlt
    rw [Nat.toDigits_of_lt_base hlt, hdigit] at hstep
    rw [Nat.ofDigitChars_cons, ← ih (by omega) hds, ← hstep, List.append_assoc]
    rfl

/-- Digits without a superfluous zero are the digits of their value. -/
theorem toDigits_valueOf (h : IsDigits s) (hlead : HasNoLeadingZero s) :
    Nat.toDigits 10 (valueOf s) = s := by
  obtain ⟨hne, hall⟩ := h
  cases s with
  | nil => exact absurd rfl hne
  | cons d ds =>
    obtain ⟨hd, hds⟩ := List.forall_mem_cons.mp hall
    obtain ⟨hlt, hdigit⟩ := digitChar_sub hd
    by_cases hzero : d = '0'
    · rw [hlead (by rw [hzero]; rfl)]
      rfl
    · have hpos : 0 < d.toNat - '0'.toNat := by
        rcases Nat.eq_zero_or_pos (d.toNat - '0'.toNat) with h | h
        · rw [h] at hdigit
          exact absurd hdigit.symm hzero
        · exact h
      rw [valueOf, Nat.ofDigitChars_cons, Nat.mul_zero, Nat.zero_add, ← toDigits_append hpos hds,
        Nat.toDigits_of_lt_base hlt, hdigit]
      rfl

/-- A number that fits into a width gets one more zero if the width grows by one. -/
theorem paddedDigits_succ {width k : ℕ} (h : (Nat.toDigits 10 k).length ≤ width) :
    Quantity.paddedDigits (width + 1) k = '0' :: Quantity.paddedDigits width k := by
  simp only [Quantity.paddedDigits]
  rw [Nat.succ_sub h, List.replicate_succ, List.cons_append]

/-- Padded to their own number, digits are the digits of their value, whatever zeros they begin
with. -/
theorem paddedDigits_valueOf (h : IsDigits s) : Quantity.paddedDigits s.length (valueOf s) = s := by
  obtain ⟨hne, hall⟩ := h
  induction s with
  | nil => exact absurd rfl hne
  | cons d ds ih =>
    by_cases hlead : HasNoLeadingZero (d :: ds)
    · simp [Quantity.paddedDigits, toDigits_valueOf ⟨hne, hall⟩ hlead]
    · -- a superfluous zero does not count, and is put back by the padding
      obtain ⟨hhead, hmore⟩ := Classical.not_imp.mp hlead
      obtain rfl : d = '0' := Option.some.inj hhead
      have hds : ds ≠ [] := fun hnil => hmore (by rw [hnil])
      have hpadded := ih hds fun c hc => hall c (List.mem_cons_of_mem _ hc)
      have hvalue : valueOf ('0' :: ds) = valueOf ds := valueOf_replicate_append 1 ds
      have hlength : (Nat.toDigits 10 (valueOf ds)).length ≤ ds.length := by
        have hlen := congrArg List.length hpadded
        simp only [Quantity.paddedDigits, List.length_append, List.length_replicate] at hlen
        omega
      rw [List.length_cons, hvalue, paddedDigits_succ hlength, hpadded]

/-- The parts of the text of a number are the digits that the number is made of, if no zero before
the point is superfluous. -/
theorem parts_valueOf (hwhole : IsDigits whole) (hfraction : ∀ c ∈ fraction, c.isDigit = true)
    (hlead : HasNoLeadingZero whole) :
    parts (valueOf (whole ++ fraction)) fraction.length = (whole, fraction) := by
  have hall : IsDigits (whole ++ fraction) := by
    refine ⟨List.append_ne_nil_of_left_ne_nil hwhole.1 _, fun c hc => ?_⟩
    rcases List.mem_append.mp hc with hc | hc
    · exact hwhole.2 c hc
    · exact hfraction c hc
  have hpadded : Quantity.paddedDigits (fraction.length + 1) (valueOf (whole ++ fraction)) =
      whole ++ fraction := by
    by_cases hhead : whole.head? = some '0'
    · have hlength : (whole ++ fraction).length = fraction.length + 1 := by
        rw [hlead hhead, List.length_append, List.length_singleton, Nat.add_comm]
      rw [← hlength]
      exact paddedDigits_valueOf hall
    · -- there are digits enough, so that nothing is padded
      have hlead' : HasNoLeadingZero (whole ++ fraction) := by
        intro h
        rw [List.head?_append_of_ne_nil _ hwhole.1] at h
        exact absurd h hhead
      have hpos : 0 < whole.length := List.length_pos_of_ne_nil hwhole.1
      have hzeros : fraction.length + 1 - (whole ++ fraction).length = 0 := by
        rw [List.length_append]
        omega
      simp only [Quantity.paddedDigits, toDigits_valueOf hall hlead', hzeros]
      rfl
  unfold parts
  simp only [Int.toNat_natCast]
  split
  · next hnil =>
    obtain rfl := List.length_eq_zero_iff.mp hnil
    rw [List.append_nil, toDigits_valueOf hwhole hlead]
    simp [appendedZeros]
  · rw [hpadded]
    simp

/-! ### Canonical texts -/

/-- The text spells the numeral in the canonical way: without a plus, with a small `c` before the
exponent, without a zero that could be left out, without a minus on zero, and without an exponent of
zero. -/
structure IsCanonical (s : List Char) (n : Numeral) : Prop where
  spells : Spells s n
  plus : '+' ∉ s
  mark : ∀ c ∈ s, isExponentMark c = true → c = 'c'
  whole : HasNoLeadingZero n.whole
  minus : n.negative = true → valueOf (n.whole ++ n.fraction) ≠ 0
  exponent : ∀ negative power, n.exponent = some (negative, power) →
    HasNoLeadingZero power ∧ valueOf power ≠ 0 ∧ valueOf power ≤ Quantity.exponentLimit

/-- There is one canonical spelling of a numeral, which is the one it is printed in. -/
theorem IsCanonical.eq_chars (h : IsCanonical s n) : s = n.chars := by
  obtain ⟨hspells, hplus, hmark, -, -, -⟩ := h
  -- without a plus, a sign is spelled in one way only; the number and the exponent each have one
  have hsign : ∀ {sign : List Char} {negative : Bool}, IsSign sign negative → '+' ∉ sign →
      sign = signChars negative := by
    intro sign negative h hplus
    cases h with
    | absent => rfl
    | plus => exact absurd (List.mem_singleton_self _) hplus
    | minus => rfl
  obtain @⟨sign, whole, point, fraction, tail, negative, exponent, hs, hwhole, hf, he⟩ := hspells
  simp only [List.mem_append, not_or] at hplus
  obtain ⟨hplusSign, -, -, hplusTail⟩ := hplus
  have hpoint : point = pointChars fraction := by
    cases hf with
    | absent => rfl
    | present hdigits => exact (pointChars_eq hdigits.1).symm
  have htail : tail = exponentChars exponent := by
    cases he with
    | absent => rfl
    | @present mark sign power negative hmem hsignPower hpower =>
      have hc : mark = 'c' := hmark mark (by simp) (isExponentMark_iff.mpr hmem)
      have hplusPower : '+' ∉ sign := fun hmem => hplusTail (by simp [hmem])
      rw [hc, hsign hsignPower hplusPower]
      rfl
  rw [hsign hs hplusSign, hpoint, htail]
  rfl

theorem natAbs_signed (negative : Bool) (k : ℕ) : (signed negative k).natAbs = k := by
  cases negative <;> simp [signed]

/-- The number is negative exactly if its sign is a minus, where zero has none. -/
theorem signed_neg_iff {negative : Bool} {k : ℕ} (h : negative = true → k ≠ 0) :
    decide (signed negative k < 0) = negative := by
  cases negative with
  | false => simp [signed]
  | true =>
    have hpos := Nat.pos_of_ne_zero (h rfl)
    simpa [signed] using hpos

/-- The exponent moves the point, and in print the point is moved back: as many digits stand behind
it as in the numeral. -/
theorem scale_add_exponent (n : Numeral) :
    n.quantity.scale + n.quantity.exponent = n.fraction.length := by
  simp only [quantity]
  omega

/-- A canonical numeral is the numeral as which its quantity is printed. -/
theorem IsCanonical.ofQuantity_quantity (h : IsCanonical s n) : ofQuantity n.quantity = n := by
  obtain ⟨hwhole, hfraction⟩ := h.spells.isDigits
  have hscale := n.scale_add_exponent
  have hdigits : n.quantity.digits.natAbs = valueOf (n.whole ++ n.fraction) := natAbs_signed _ _
  have hexponent : (if n.exponentValue = 0 then none
      else some (decide (n.exponentValue < 0), Nat.toDigits 10 n.exponentValue.natAbs)) =
        n.exponent := by
    cases he : n.exponent with
    | none => simp [exponentValue, he]
    | some x =>
      obtain ⟨negative, power⟩ := x
      obtain ⟨hlead, hne, -⟩ := h.exponent negative power he
      have hpower : IsDigits power := by
        obtain @⟨_, _, _, _, _, _, _, -, -, -, hspelled⟩ := h.spells
        cases he
        cases hspelled with
        | present _ _ hdigits => exact hdigits
      have hvalue : n.exponentValue = signed negative (valueOf power) := by rw [exponentValue, he]
      -- an exponent of zero would not be printed
      have hnonzero : n.exponentValue ≠ 0 := by
        rw [hvalue, ← Int.natAbs_ne_zero, natAbs_signed]
        exact hne
      rw [if_neg hnonzero, hvalue, signed_neg_iff fun _ => hne, natAbs_signed,
        toDigits_valueOf hpower hlead]
  rw [ofQuantity, hdigits, hscale, parts_valueOf hwhole hfraction h.whole]
  show Numeral.mk (decide (signed n.negative _ < 0)) n.whole n.fraction _ = n
  rw [signed_neg_iff h.minus]
  exact congrArg (Numeral.mk n.negative n.whole n.fraction) hexponent

/-- Zero with any number of zeros behind the point is in canonical spelling. -/
theorem isCanonical_zeros {k : ℕ} (hk : k ≠ 0) : IsCanonical ('0' :: '.' :: List.replicate k '0')
    ⟨false, ['0'], List.replicate k '0', none⟩ := by
  have hzeros : ∀ c ∈ List.replicate k '0', c.isDigit = true :=
    fun c hc => by rw [List.eq_of_mem_replicate hc]; rfl
  have hwhole : IsDigits ['0'] := ⟨List.cons_ne_nil _ _, List.forall_mem_singleton.mpr rfl⟩
  have hvalid : IsValid ⟨false, ['0'], List.replicate k '0', none⟩ := ⟨hwhole, hzeros, by simp⟩
  have hpoint : pointChars (List.replicate k '0') = '.' :: List.replicate k '0' :=
    pointChars_eq (by simpa using hk)
  have hchars : chars ⟨false, ['0'], List.replicate k '0', none⟩ =
      '0' :: '.' :: List.replicate k '0' := by
    simp [chars, signChars, exponentChars, hpoint]
  refine ⟨hchars ▸ spells_chars hvalid, by simp, ?_, fun _ => rfl, by simp, by simp⟩
  intro c hc hmark
  rcases List.mem_cons.mp hc with rfl | hc
  · cases hmark
  · rcases List.mem_cons.mp hc with rfl | hc
    · cases hmark
    · rw [List.eq_of_mem_replicate hc] at hmark
      cases hmark

end Numeral

namespace Quantity

variable {a b q : Quantity}

/-! ### Quantities that can be obtained -/

/-- The quantity is read from a text, made from an integer, or computed from such a quantity. -/
inductive Obtained : Quantity → Prop
  | ofString {s : String} {q : Quantity} : ofString s = .ok q → Obtained q
  | ofInt (z : ℤ) : Obtained (ofInt z)
  | negate {q : Quantity} : Obtained q → Obtained q.negate
  | complement {q r : Quantity} : Obtained q → q.complement? = some r → Obtained r
  | remainder {q r : Quantity} {d : ℤ} : Obtained q → q.remainder d = .ok r → Obtained r
  | remainderBy {q d r : Quantity} : Obtained q → q.remainderBy d = .ok r → Obtained r
  | operand {q : Quantity} (operand : Operand) : Obtained q → Obtained (q.operand operand)

/-- Every integer is spelled by a text. -/
theorem isSpelled_ofInt (z : ℤ) : (Quantity.ofInt z).IsSpelled := ⟨le_rfl, Nat.zero_le _⟩

/-- A remainder is spelled by a text, whatever is divided. -/
theorem isSpelled_of_remainder {r : Quantity} {d : ℤ} (h : q.remainder d = .ok r) :
    r.IsSpelled := by
  obtain ⟨-, rfl⟩ := remainder_eq_ok_iff.mp h
  exact ⟨by simp, Nat.zero_le _⟩

theorem negate_negate (q : Quantity) : q.negate.negate = q := by
  rw [negate, negate, neg_neg]

/-- Every quantity that can be obtained is spelled by a text, but for the magnitude of a number with
appended zeros and the opposite of such a magnitude. -/
theorem Obtained.isSpelled_or (h : Obtained q) : q.IsSpelled ∨
    ∃ p, Obtained p ∧ p.scale < 0 ∧ (q = p.operand .n ∨ q = (p.operand .n).negate) := by
  induction h with
  | ofString hread => exact Or.inl (isSpelled_of_ofChars hread)
  | ofInt z => exact Or.inl (isSpelled_ofInt z)
  | negate _ ih =>
    rcases ih with hspelled | ⟨p, hp, hscale, rfl | rfl⟩
    · exact Or.inl hspelled
    · exact Or.inr ⟨p, hp, hscale, Or.inr rfl⟩
    · exact Or.inr ⟨p, hp, hscale, Or.inl (negate_negate _)⟩
  | complement _ hr =>
    obtain ⟨z, -, rfl⟩ := Option.map_eq_some_iff.mp hr
    exact Or.inl (isSpelled_ofInt _)
  | remainder _ hr => exact Or.inl (isSpelled_of_remainder hr)
  | remainderBy _ hr =>
    obtain ⟨d, -, hr⟩ := remainderBy_eq_ok_iff.mp hr
    exact Or.inl (isSpelled_of_remainder hr)
  -- only the magnitude keeps the scale while the exponent is dropped
  | @operand p operand hp _ =>
    cases operand with
    | n =>
      by_cases hscale : p.scale < 0
      · exact Or.inr ⟨p, hp, hscale, Or.inl rfl⟩
      · exact Or.inl ⟨by simpa [Quantity.operand, magnitude] using hscale, Nat.zero_le _⟩
    | i | v | w | f | t | e | c => exact Or.inl (isSpelled_ofInt _)

/-- Quantities that are alike have magnitudes that are alike. -/
theorem Alike.magnitude (h : Alike a b) : Alike a.magnitude b.magnitude where
  spelledDigits := by
    have hdigits := congrArg Int.natAbs h.spelledDigits
    rw [natAbs_spelledDigits, natAbs_spelledDigits] at hdigits
    show (a.digits.natAbs : ℤ) * a.appended = b.digits.natAbs * b.appended
    exact_mod_cast hdigits
  places := h.places
  exponent_left := rfl
  exponent_right := rfl

/-- The operands of quantities that are spelled alike are equal, but for zeros that the magnitude
may or may not show. -/
theorem Alike.operand (h : Alike a b) (operand : Operand) :
    Alike (a.operand operand) (b.operand operand) ∧
      (operand ≠ .n → a.operand operand = b.operand operand) := by
  have heq : operand ≠ .n → a.operand operand = b.operand operand := by
    intro hn
    by_cases hexponent : operand = .e ∨ operand = .c
    · rcases hexponent with rfl | rfl <;>
        simp only [Quantity.operand, h.exponent_left, h.exponent_right]
    · rw [not_or] at hexponent
      exact operand_congr h.spelledDigits h.places operand hn hexponent.1 hexponent.2
  refine ⟨?_, heq⟩
  by_cases hn : operand = .n
  · subst hn
    exact h.magnitude
  · rw [heq hn]
    exact alike_self (exponent_operand b operand)

/-- What is spelled alike is printed alike, or cannot be printed either. -/
theorem Alike.text? (h : Alike a b) : a.text? = b.text? := by
  have hplaces : a.printedPlaces = b.printedPlaces := by
    rw [printedPlaces, printedPlaces, h.exponent_left, h.exponent_right, Int.add_zero, Int.add_zero]
    exact h.places
  have hchars : a.toString = b.toString := congrArg String.ofList h.chars
  have hiff : a.HasText ↔ b.HasText := by rw [HasText, HasText, hplaces]
  by_cases htext : a.HasText
  · rw [text?_eq_some htext, text?_eq_some (hiff.mp htext), hchars]
  · rw [text?_eq_none htext, text?_eq_none (mt hiff.mpr htext)]

/-- Quantities that are alike compare as equal. -/
theorem Alike.compare_eq_eq (h : Alike a b) : a.compare b = .eq :=
  compare_eq_eq_iff_value.mpr h.value

/-- A quantity that can be obtained is printed as a text that is read back as a quantity that is the
same, or spelled alike. -/
theorem Obtained.ofString_toString (h : Obtained q) :
    Quantity.ofString q.toString = .ok q.respelled := by
  rw [Quantity.ofString, toString, String.toList_ofList]
  apply ofChars_chars
  rcases h.isSpelled_or with hspelled | ⟨p, -, -, rfl | rfl⟩
  · exact hspelled.2
  · exact Nat.zero_le _
  · exact Nat.zero_le _

/-- A canonical text is read as the quantity of its numeral, whose text it is. -/
theorem ofString_of_isCanonical {s : String} {n : Numeral} (h : Numeral.IsCanonical s.toList n) :
    ofString s = .ok n.quantity ∧ n.quantity.toString = s := by
  have hvalid : n.IsValid := by
    have hquantity := Numeral.isValid_ofQuantity n.quantity
    rwa [h.ofQuantity_quantity] at hquantity
  have htrim : Text.trim s.toList = s.toList := by
    rw [h.eq_chars]
    exact Numeral.trim_chars hvalid
  have hlimit : n.exponentMagnitude ≤ exponentLimit := by
    unfold Numeral.exponentMagnitude
    cases he : n.exponent with
    | none => exact Nat.zero_le _
    | some x => exact (h.exponent x.1 x.2 he).2.2
  refine ⟨ofChars_eq_ok_iff.mpr ⟨n, by rw [htrim]; exact h.spells, hlimit, rfl⟩, ?_⟩
  rw [toString, chars_eq, h.ofQuantity_quantity, ← h.eq_chars, String.ofList_toList]

/-- Printing and reading numbers are inverse to each other, as long as the digits behind the point
are not too many to be printed.

The text of a quantity that can be obtained is read back as the same quantity, except where zeros
are appended that the digits do not show. This happens only to the magnitude of a number with such
zeros, and there the quantity that is read compares equal, and so do all operands; they also print
alike, and all but the magnitude itself are the same. And a text in canonical spelling is read as a
quantity that is printed as this text. -/
theorem text_ofString_inverse (q : Quantity) (s : String) (n : Numeral) :
    (Obtained q → q.scale + q.exponent < 65535 →
      ∃ text r, q.text? = some text ∧ ofString text = .ok r ∧
        (0 ≤ q.scale + q.exponent → r = q) ∧
        (q.scale + q.exponent < 0 →
          (∃ p, Obtained p ∧ p.scale < 0 ∧ (q = p.operand .n ∨ q = (p.operand .n).negate)) ∧
          r.compare q = .eq ∧
          ∀ operand, (r.operand operand).compare (q.operand operand) = .eq ∧
            (r.operand operand).text? = (q.operand operand).text? ∧
            (operand ≠ .n → r.operand operand = q.operand operand))) ∧
    (Numeral.IsCanonical s.toList n → n.fraction.length < 65535 →
      ∃ q, ofString s = .ok q ∧ q.text? = some s) := by
  constructor
  · intro h hplaces
    refine ⟨q.toString, q.respelled, text?_eq_some (hasText_iff.mpr hplaces), h.ofString_toString,
      respelled_eq_self, fun hlt => ?_⟩
    rcases h.isSpelled_or with hspelled | hmagnitude
    · exact absurd hspelled.1 (not_le.mpr hlt)
    · have hexponent : q.exponent = 0 := by
        obtain ⟨p, -, -, rfl | rfl⟩ := hmagnitude <;> rfl
      have halike := alike_respelled hexponent
      refine ⟨hmagnitude, halike.compare_eq_eq, fun operand => ?_⟩
      obtain ⟨hoperand, heq⟩ := halike.operand operand
      exact ⟨hoperand.compare_eq_eq, hoperand.text?, heq⟩
  · intro h hplaces
    obtain ⟨hread, htext⟩ := ofString_of_isCanonical h
    have hprinted : n.quantity.HasText := by
      rw [hasText_iff, n.scale_add_exponent]
      exact Int.ofNat_lt.mpr hplaces
    exact ⟨n.quantity, hread, (text?_eq_some hprinted).trans (congrArg some htext)⟩

/-- The opposite of the magnitude of a number with two appended zeros, and a canonical text with
zeros at both ends of the fraction. -/
theorem text_ofString_inverse_of_appended_zeros :
    (∃ text r, text? ⟨-12, -2, 0⟩ = some text ∧ ofString text = .ok r ∧
      r.compare ⟨-12, -2, 0⟩ = .eq ∧
      ∀ operand, (r.operand operand).compare (Quantity.operand ⟨-12, -2, 0⟩ operand) = .eq) ∧
    ∃ q, ofString "-0.050c-2" = .ok q ∧ q.text? = some "-0.050c-2" := by
  obtain ⟨hquantity, htext⟩ := text_ofString_inverse ⟨-12, -2, 0⟩ "-0.050c-2"
    ⟨true, ['0'], ['0', '5', '0'], some (true, ['2'])⟩
  constructor
  · have hread : ofString "1.2c3" = .ok ⟨12, -2, 3⟩ := by decide +kernel
    have hobtained : Obtained ⟨-12, -2, 0⟩ := .negate (.operand .n (.ofString hread))
    obtain ⟨text, r, hprinted, hr, -, hsame⟩ := hquantity hobtained (by decide)
    obtain ⟨-, hcompare, hoperands⟩ := hsame (by decide)
    exact ⟨text, r, hprinted, hr, hcompare, fun operand => (hoperands operand).1⟩
  · have hnumeral : Numeral.ofChars? "-0.050c-2".toList =
        some ⟨true, ['0'], ['0', '5', '0'], some (true, ['2'])⟩ := by decide +kernel
    refine htext ⟨Numeral.ofChars?_eq_some_iff.mp hnumeral, by decide,
      by simp [Numeral.isExponentMark], fun _ => rfl, fun _ => by decide, ?_⟩ (by decide)
    rintro _ _ ⟨⟩
    exact ⟨fun h => absurd h (by decide), by decide, by decide⟩

/-- Behind the point of this zero stand as many digits as the padding is wide at most. With the
digit before the point they are one too many, so the text is read, and the quantity cannot be
printed. -/
theorem not_printed_of_wide_zero :
    let s := String.ofList ('0' :: '.' :: List.replicate 65535 '0')
    ∃ q n, Numeral.IsCanonical s.toList n ∧ ofString s = .ok q ∧ Obtained q ∧
      0 ≤ q.scale + q.exponent ∧ q.text? = none := by
  intro s
  have hcanonical := Numeral.isCanonical_zeros (k := 65535) (by decide)
  rw [← String.toList_ofList (l := _ :: _)] at hcanonical
  have hread := (ofString_of_isCanonical hcanonical).1
  have hplaces := Numeral.scale_add_exponent ⟨false, ['0'], List.replicate 65535 '0', none⟩
  rw [List.length_replicate] at hplaces
  refine ⟨_, _, hcanonical, hread, .ofString hread, by rw [hplaces]; decide, text?_eq_none ?_⟩
  rw [hasText_iff, hplaces]
  decide

end Quantity

end PluralRules
