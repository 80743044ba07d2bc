import PluralRules.Proofs.Numeral
import PluralRules.Proofs.Value

/-!
# The numbers that texts write

A numeral writes a number in the way everybody reads it: the digits before the point count in tens,
those behind it in tenths, and the exponent moves the point. `Numeral.number` says so digit by digit
and without the digits, the scale and the exponent of a quantity. The quantity that a numeral spells
stands for exactly that number, however many digits there are.

With the spelling of numerals this settles what reading a text does: which texts are read, what they
are read as, and how each of the others fails.
-/

namespace PluralRules

namespace Numeral

/-- The number that digits behind a point write: each digit counts a tenth of the one before it. -/
def decimals : List Char → ℚ
  | [] => 0
  | d :: ds => ((d.toNat - '0'.toNat : ℕ) + decimals ds) / 10

def number (n : Numeral) : ℚ :=
  (if n.negative then -1 else 1) * (valueOf n.whole + decimals n.fraction) * 10 ^ n.exponentValue

theorem valueOf_append_singleton (s : List Char) (d : Char) :
    valueOf (s ++ [d]) = 10 * valueOf s + (d.toNat - '0'.toNat) := by
  rw [valueOf, Nat.ofDigitChars_append, Nat.ofDigitChars_cons, Nat.ofDigitChars_nil, valueOf]

/-- Digits behind a point are worth as many powers of ten less as there are of them. -/
theorem valueOf_append (whole fraction : List Char) :
    (valueOf (whole ++ fraction) : ℚ) =
      (valueOf whole + decimals fraction) * 10 ^ fraction.length := by
  induction fraction generalizing whole with
  | nil => simp [decimals]
  | cons d ds ih =>
    -- moving the point past one digit makes it the last digit of the whole
    have hmove : whole ++ d :: ds = (whole ++ [d]) ++ ds := by simp
    rw [hmove, ih, valueOf_append_singleton, decimals, List.length_cons, pow_succ]
    push_cast
    ring

/-- A sign is a factor of one or minus one. -/
theorem cast_signed (negative : Bool) (k : ℕ) :
    (signed negative k : ℚ) = (if negative then -1 else 1) * k := by
  cases negative <;> simp [signed]

/-- The quantity that a numeral spells stands for the number that the numeral writes. -/
theorem value_quantity (n : Numeral) : n.quantity.value = n.number := by
  have hscale : -((n.fraction.length : ℤ) - n.exponentValue) =
      -(n.fraction.length : ℤ) + n.exponentValue := by omega
  rw [Quantity.value, quantity, cast_signed, valueOf_append, hscale,
    zpow_add₀ (by norm_num), zpow_neg, zpow_natCast, number]
  field_simp

end Numeral

namespace Quantity

variable {s : List Char}

/-- A text that spells a numeral fails only if the exponent is too great. -/
theorem ofChars_of_spells {n : Numeral} (h : Numeral.Spells (Text.trim s) n) :
    ofChars s = if n.exponentMagnitude ≤ exponentLimit then .ok n.quantity
      else .error (.exponentOutOfRange (String.ofList (Text.trim s))) := by
  rw [ofChars, Numeral.ofChars?_eq_some_iff.mpr h]

/-- What is no numeral is malformed. -/
theorem ofChars_of_not_spells (h : ¬ ∃ n, Numeral.Spells (Text.trim s) n) :
    ofChars s = .error (.malformed (String.ofList s)) := by
  rw [ofChars, Numeral.ofChars?_eq_none_iff.mpr h]

/-- A text is read as a quantity exactly if it spells a numeral of the quantity, with an exponent
within the limit. -/
theorem ofChars_eq_ok_iff {q : Quantity} : ofChars s = .ok q ↔
    ∃ n, Numeral.Spells (Text.trim s) n ∧ n.exponentMagnitude ≤ exponentLimit ∧ n.quantity = q := by
  by_cases hspells : ∃ n, Numeral.Spells (Text.trim s) n
  · obtain ⟨n, hn⟩ := hspells
    rw [ofChars_of_spells hn]
    constructor
    · intro h
      split at h
      · next hlimit => exact ⟨n, hn, hlimit, Except.ok.inj h⟩
      · cases h
    · rintro ⟨n', hn', hlimit, rfl⟩
      rw [hn.unique hn', if_pos hlimit]
  · rw [ofChars_of_not_spells hspells]
    exact ⟨nofun, fun ⟨n, hn, _⟩ => absurd ⟨n, hn⟩ hspells⟩

/-- A text is rejected either for its exponent or because it is no numeral. -/
theorem ofChars_eq_error_iff {error : QuantityError} : ofChars s = .error error ↔
    (∃ n, Numeral.Spells (Text.trim s) n ∧ exponentLimit < n.exponentMagnitude ∧
      error = .exponentOutOfRange (String.ofList (Text.trim s))) ∨
    ((¬ ∃ n, Numeral.Spells (Text.trim s) n) ∧ error = .malformed (String.ofList s)) := by
  by_cases hspells : ∃ n, Numeral.Spells (Text.trim s) n
  · obtain ⟨n, hn⟩ := hspells
    rw [ofChars_of_spells hn]
    constructor
    · intro h
      split at h
      · cases h
      · next hlimit => exact Or.inl ⟨n, hn, Nat.lt_of_not_le hlimit, (Except.error.inj h).symm⟩
    · rintro (⟨n', hn', hlimit, rfl⟩ | ⟨hno, -⟩)
      · rw [hn.unique hn', if_neg (Nat.not_le_of_lt hlimit)]
      · exact absurd ⟨n, hn⟩ hno
  · rw [ofChars_of_not_spells hspells]
    constructor
    · intro h
      exact Or.inr ⟨hspells, (Except.error.inj h).symm⟩
    · rintro (⟨n, hn, -⟩ | ⟨-, rfl⟩)
      · exact absurd ⟨n, hn⟩ hspells
      · rfl

/-- What a text is read as. A text is read exactly if it spells a numeral, blanks around it apart,
whose exponent is at most 1024; the quantity has the digits of the numeral, and its value is the
number that the numeral writes. A greater exponent is out of range, and any other text is
malformed. -/
theorem ofString_iff_spells (s : String) :
    (∀ q, ofString s = .ok q ↔
      ∃ n, Numeral.Spells (Text.trim s.toList) n ∧ n.exponentMagnitude ≤ 1024 ∧
        q.exponent = n.exponentValue ∧ q.scale = n.fraction.length - n.exponentValue ∧
        q.digits = Numeral.signed n.negative (Numeral.valueOf (n.whole ++ n.fraction)) ∧
        q.value = n.number) ∧
    (∀ error, ofString s = .error error ↔
      (∃ n, Numeral.Spells (Text.trim s.toList) n ∧ 1024 < n.exponentMagnitude ∧
        error = .exponentOutOfRange (String.ofList (Text.trim s.toList))) ∨
      ((¬ ∃ n, Numeral.Spells (Text.trim s.toList) n) ∧ error = .malformed s)) := by
  constructor
  · intro q
    rw [ofString, ofChars_eq_ok_iff]
    constructor
    · rintro ⟨n, hspells, hlimit, rfl⟩
      exact ⟨n, hspells, hlimit, rfl, rfl, rfl, n.value_quantity⟩
    · rintro ⟨n, hspells, hlimit, hexponent, hscale, hdigits, -⟩
      refine ⟨n, hspells, hlimit, ?_⟩
      rw [Numeral.quantity, ← hdigits, ← hscale, ← hexponent]
  · intro error
    rw [ofString, ofChars_eq_error_iff, String.ofList_toList]
    exact Iff.rfl

end Quantity

end PluralRules
