import PluralRules.Proofs.Reader
import PluralRules.Quantity.Numeral

/-!
# The spelling of numerals

    [+-]? digits ('.' digits)? ([cCeE] [+-]? digits)?

The form of numerals is written down here without a reader: `Numeral.Spells` says what a text that
spells a numeral is made of. The reader of numerals takes the longest run of digits wherever it can
and never looks back. Nothing is lost by that, because what comes after a run of digits never begins
with a digit:

    Numeral.ofChars? s = some n ↔ Numeral.Spells s n

In particular, no text spells two numerals (`Numeral.Spells.unique`).
-/

namespace PluralRules.Numeral

open Reader

/-! ### The form of numerals -/

def IsDigits (s : List Char) : Prop := s ≠ [] ∧ ∀ c ∈ s, c.isDigit = true

inductive IsSign : List Char → Bool → Prop
  | absent : IsSign [] false
  | plus : IsSign ['+'] false
  | minus : IsSign ['-'] true

inductive IsFraction : List Char → List Char → Prop
  | absent : IsFraction [] []
  | present {digits : List Char} : IsDigits digits → IsFraction ('.' :: digits) digits

/-- How an exponent is spelled; whether it is negative, and its digits. -/
inductive IsExponent : List Char → Option (Bool × List Char) → Prop
  | absent : IsExponent [] none
  | present {mark : Char} {sign power : List Char} {negative : Bool} : mark ∈ ['c', 'C', 'e', 'E'] →
      IsSign sign negative → IsDigits power →
      IsExponent (mark :: (sign ++ power)) (some (negative, power))

inductive Spells : List Char → Numeral → Prop
  | parts {sign whole point fraction tail : List Char} {negative : Bool}
      {exponent : Option (Bool × List Char)} : IsSign sign negative → IsDigits whole →
      IsFraction point fraction → IsExponent tail exponent →
      Spells (sign ++ (whole ++ (point ++ tail))) ⟨negative, whole, fraction, exponent⟩

/-! ### What is spelled is read -/

variable {s rest sign whole point fraction tail : List Char} {negative : Bool}
  {exponent : Option (Bool × List Char)} {n : Numeral}

/-- Digits are read to their end. -/
theorem digits_append (h : IsDigits s) (hrest : rest.head?.any Char.isDigit = false) :
    digits (s ++ rest) = some (s, rest) :=
  run_append h.1 h.2 hrest

theorem sign_append (h : IsSign sign negative) (hs : IsDigits s) :
    Numeral.sign (sign ++ (s ++ rest)) = (negative, s ++ rest) := by
  cases h with
  | plus => rfl
  | minus => rfl
  | absent =>
    obtain ⟨hne, hdigits⟩ := hs
    cases s with
    | nil => exact absurd rfl hne
    | cons d ds =>
      -- digits begin with no sign
      have hd : d.isDigit = true := hdigits d List.mem_cons_self
      show Numeral.sign (d :: (ds ++ rest)) = _
      unfold Numeral.sign
      split
      · next heq => cases heq; cases hd
      · next heq => cases heq; cases hd
      · rfl

/-- Without a point there is no fraction. -/
theorem pointAndDigits_eq_none (h : s.head? ≠ some '.') : pointAndDigits s = none := by
  simp [pointAndDigits, char_eq_none h]

/-- The digits behind the point are read, be there any or not. -/
theorem optional_pointAndDigits (h : IsFraction point fraction)
    (hrest : rest.head?.any Char.isDigit = false) (hpoint : pointAndDigits rest = none) :
    ∃ found, Reader.optional pointAndDigits (point ++ rest) = (found, rest) ∧
      found.getD [] = fraction := by
  cases h with
  | absent => exact ⟨none, optional_of_none hpoint, rfl⟩
  | present hdigits =>
    refine ⟨some fraction, optional_of_some ?_, rfl⟩
    simp [pointAndDigits, char_cons, digits_append hdigits hrest]

theorem IsFraction.isDigit_head (h : IsFraction point fraction)
    (hrest : rest.head?.any Char.isDigit = false) :
    (point ++ rest).head?.any Char.isDigit = false := by
  cases h with
  | absent => exact hrest
  | present => rfl

/-- An exponent begins neither with a digit nor with a point. -/
theorem IsExponent.head (h : IsExponent tail exponent) :
    tail.head?.any Char.isDigit = false ∧ tail.head? ≠ some '.' := by
  cases h with
  | absent => exact ⟨rfl, nofun⟩
  | @present mark _ _ _ hmark =>
    have hmark : mark = 'c' ∨ mark = 'C' ∨ mark = 'e' ∨ mark = 'E' := by simpa using hmark
    rcases hmark with rfl | rfl | rfl | rfl <;> exact ⟨rfl, by simp⟩

theorem isExponentMark_iff {c : Char} : isExponentMark c = true ↔ c ∈ ['c', 'C', 'e', 'E'] := by
  simp [isExponentMark, or_assoc]

theorem optional_exponentPart (h : IsExponent tail exponent) :
    Reader.optional exponentPart tail = (exponent, []) := by
  cases h with
  | absent => rfl
  | @present mark sign power negative hmark hsign hpower =>
    apply optional_of_some
    have hread : Numeral.sign (sign ++ (power ++ [])) = (negative, power ++ []) :=
      sign_append hsign hpower
    have hdigits : digits (power ++ []) = some (power, []) := digits_append hpower rfl
    rw [List.append_nil] at hread hdigits
    simp [exponentPart, isExponentMark_iff.mpr hmark, hread, hdigits]

/-- A numeral is read from every text that spells it. -/
theorem reader_of_spells (h : Spells s n) : reader s = some (n, []) := by
  obtain ⟨hsign, hwhole, hfraction, hexponent⟩ := h
  obtain ⟨hdigit, hpoint⟩ := hexponent.head
  obtain ⟨found, hread, hfound⟩ :=
    optional_pointAndDigits hfraction hdigit (pointAndDigits_eq_none hpoint)
  simp [reader, sign_append hsign hwhole, digits_append hwhole (hfraction.isDigit_head hdigit),
    hread, hfound, optional_exponentPart hexponent]

/-! ### What is read is spelled -/

/-- A sign is a plus, a minus or nothing. -/
theorem isSign_sign (s : List Char) :
    ∃ sign, s = sign ++ (Numeral.sign s).2 ∧ IsSign sign (Numeral.sign s).1 := by
  unfold Numeral.sign
  split
  · exact ⟨['-'], rfl, .minus⟩
  · exact ⟨['+'], rfl, .plus⟩
  · exact ⟨[], rfl, .absent⟩

theorem takes_digits : Takes digits fun text ds => ds = text ∧ IsDigits text :=
  takes_run Char.isDigit

theorem takes_pointAndDigits : Takes pointAndDigits fun text fraction =>
    text = '.' :: fraction ∧ IsDigits fraction := by
  intro s ds rest hs
  obtain ⟨⟨_, s₁⟩, hpoint, hdigits⟩ := Option.bind_eq_some_iff.mp hs
  obtain ⟨_, rfl, rfl⟩ := takes_char '.' hpoint
  obtain ⟨_, rfl, rfl, hds⟩ := takes_digits hdigits
  exact ⟨'.' :: ds, rfl, rfl, hds⟩

/-- An exponent is a mark, a sign that may be missing, and digits. -/
theorem takes_exponentPart : Takes exponentPart fun text x => IsExponent text (some x) := by
  intro s x rest hs
  cases s with
  | nil => cases hs
  | cons mark s =>
    rw [exponentPart] at hs
    split at hs
    · next hmark =>
      obtain ⟨sign, hsign, hspelled⟩ := isSign_sign s
      obtain ⟨⟨power, s₁⟩, hdigits, heq⟩ := Option.bind_eq_some_iff.mp hs
      obtain ⟨_, htext, rfl, hpower⟩ := takes_digits hdigits
      cases heq
      refine ⟨mark :: (sign ++ power), ?_, .present (isExponentMark_iff.mp hmark) hspelled hpower⟩
      calc mark :: s = mark :: (sign ++ (Numeral.sign s).2) := congrArg (fun t => mark :: t) hsign
        _ = mark :: (sign ++ (power ++ rest)) := congrArg (fun t => mark :: (sign ++ t)) htext
        _ = mark :: (sign ++ power) ++ rest := by simp
    · cases hs

/-- Whatever is read as a numeral spells it. -/
theorem takes_reader : Takes reader Spells := by
  intro s n rest hs
  obtain ⟨sign, hsign, hsignSpelled⟩ := isSign_sign s
  obtain ⟨⟨whole, s₁⟩, hdigits, heq⟩ := Option.bind_eq_some_iff.mp hs
  obtain ⟨_, hwhole, rfl, hwholeDigits⟩ := takes_digits hdigits
  obtain ⟨point, hpoint, hfraction⟩ :=
    takes_pointAndDigits.optional (R := fun text found => IsFraction text (found.getD [])) .absent
      (by rintro _ ds ⟨rfl, hds⟩; exact .present hds) s₁
  obtain ⟨tail, htail, hexponent⟩ :=
    takes_exponentPart.optional (R := IsExponent) .absent (fun _ _ h => h)
      (Reader.optional pointAndDigits s₁).2
  cases heq
  refine ⟨sign ++ (whole ++ (point ++ tail)), ?_,
    .parts hsignSpelled hwholeDigits hfraction hexponent⟩
  calc s = sign ++ (Numeral.sign s).2 := hsign
    _ = sign ++ (whole ++ s₁) := congrArg (fun t => sign ++ t) hwhole
    _ = sign ++ (whole ++ (point ++ (Reader.optional pointAndDigits s₁).2)) :=
      congrArg (fun t => sign ++ (whole ++ t)) hpoint
    _ = sign ++ (whole ++ (point ++ (tail ++ (Reader.optional exponentPart
          (Reader.optional pointAndDigits s₁).2).2))) :=
      congrArg (fun t => sign ++ (whole ++ (point ++ t))) htail
    _ = sign ++ (whole ++ (point ++ tail)) ++ (Reader.optional exponentPart
          (Reader.optional pointAndDigits s₁).2).2 := by simp only [List.append_assoc]

/-- A whole text is read as a numeral exactly if it spells the numeral. -/
theorem ofChars?_eq_some_iff : ofChars? s = some n ↔ Spells s n := by
  constructor
  · intro h
    unfold ofChars? at h
    split at h
    · next numeral hread =>
      cases h
      obtain ⟨text, htext, hspells⟩ := takes_reader hread
      rw [List.append_nil] at htext
      rwa [htext]
    · cases h
  · intro h
    rw [ofChars?, reader_of_spells h]

/-- A text spells at most one numeral. -/
theorem Spells.unique {n' : Numeral} (h : Spells s n) (h' : Spells s n') : n = n' := by
  rw [← ofChars?_eq_some_iff] at h h'
  exact Option.some.inj (h.symm.trans h')

/-- Exactly the texts that spell no numeral cannot be read. -/
theorem ofChars?_eq_none_iff : ofChars? s = none ↔ ¬ ∃ n, Spells s n := by
  simp only [← ofChars?_eq_some_iff, Option.eq_none_iff_forall_ne_some, not_exists, ne_eq]

end PluralRules.Numeral
