import Mathlib.Data.List.TakeWhile
import PluralRules.Line.Grammar
import PluralRules.Text.Split

/-!
# Scanning

What the scans of the readers take off a text that is known to begin with a run of some characters,
and which characters belong to which runs. A run ends where the text ends or where a character does
not belong to it, so the statements ask of what follows a run only how it begins.
-/

namespace PluralRules

/-! ### Runs of characters -/

section Runs

variable {p : Char → Bool} {run rest : List Char}

/-- There is no run in front of a text that does not begin with one. -/
theorem takeWhile_eq_nil (h : rest.head?.any p = false) : rest.takeWhile p = [] := by
  cases rest with
  | nil => rfl
  | cons c s => exact List.takeWhile_cons_of_neg (by simpa using h)

theorem dropWhile_eq_self (h : rest.head?.any p = false) : rest.dropWhile p = rest := by
  cases rest with
  | nil => rfl
  | cons c s => exact List.dropWhile_cons_of_neg (by simpa using h)

/-- The longest run at the front is the one that was put there, if what follows does not prolong
it. -/
theorem takeWhile_run (hrun : ∀ c ∈ run, p c = true) (hrest : rest.head?.any p = false) :
    (run ++ rest).takeWhile p = run := by
  rw [List.takeWhile_append_of_pos hrun, takeWhile_eq_nil hrest, List.append_nil]

/-- A run is dropped to its end and no further. -/
theorem dropWhile_run (hrun : ∀ c ∈ run, p c = true) (hrest : rest.head?.any p = false) :
    (run ++ rest).dropWhile p = rest := by
  rw [List.dropWhile_append_of_pos hrun, dropWhile_eq_self hrest]

/-- Where a longest run ends, the text does not go on with it. -/
theorem head?_dropWhile_any (p : Char → Bool) (s : List Char) :
    (s.dropWhile p).head?.any p = false := by
  have h := List.head?_dropWhile_not p s
  cases hs : (s.dropWhile p).head? with
  | none => rfl
  | some c => rw [hs] at h; simpa using h

end Runs

/-! ### Blanks -/

namespace Text

/-- Nothing is skipped at a character that is not blank. -/
theorem skipBlanks_eq_self {s : List Char} (h : s.head?.any isBlank = false) : skipBlanks s = s :=
  dropWhile_eq_self h

/-- Behind skipped blanks there are none to skip. -/
theorem skipBlanks_skipBlanks (s : List Char) : skipBlanks (skipBlanks s) = skipBlanks s :=
  skipBlanks_eq_self (head?_dropWhile_any isBlank s)

@[simp] theorem skipBlanks_blank (s : List Char) : skipBlanks (' ' :: s) = skipBlanks s := by
  simp [skipBlanks, show isBlank ' ' = true by decide]

/-- A text that begins with a character other than a blank. -/
def IsSolid (s : List Char) : Prop := ∃ c t, s = c :: t ∧ isBlank c = false

theorem IsSolid.append {s : List Char} (h : IsSolid s) (rest : List Char) :
    IsSolid (s ++ rest) := by
  obtain ⟨c, t, rfl, hc⟩ := h
  exact ⟨c, t ++ rest, rfl, hc⟩

/-- Nothing is skipped before a text that begins with another character. -/
theorem IsSolid.skipBlanks_eq {s : List Char} (h : IsSolid s) : skipBlanks s = s := by
  obtain ⟨c, t, rfl, hc⟩ := h
  exact skipBlanks_eq_self (by simpa using hc)

/-- Blanks in front of a text that begins with none are skipped, and no more. -/
theorem skipBlanks_append {gap s : List Char} (hgap : ∀ c ∈ gap, isBlank c = true) (h : IsSolid s) :
    skipBlanks (gap ++ s) = s := by
  rw [skipBlanks, List.dropWhile_append_of_pos hgap]
  exact h.skipBlanks_eq

/-- A text is trimmed if it neither begins nor ends with a blank. -/
def IsTrimmed (s : List Char) : Prop :=
  s.head?.any isBlank = false ∧ s.getLast?.any isBlank = false

theorem trimEnd_eq_self {s : List Char} (h : s.getLast?.any isBlank = false) : trimEnd s = s := by
  have hr : s.reverse.dropWhile isBlank = s.reverse :=
    skipBlanks_eq_self (by rwa [List.head?_reverse])
  rw [trimEnd, hr, List.reverse_reverse]

/-- A trimmed text stays as it is. -/
theorem trim_eq_self {s : List Char} (h : IsTrimmed s) : trim s = s := by
  rw [trim, skipBlanks_eq_self h.1, trimEnd_eq_self h.2]

theorem trimEnd_prefix (s : List Char) : trimEnd s <+: s := by
  have h := List.dropWhile_suffix isBlank (l := s.reverse)
  rw [← List.reverse_reverse s]
  simpa [trimEnd] using List.reverse_prefix.mpr h

/-- What remains of a text without leading blanks when the blanks at its end are dropped. -/
theorem isTrimmed_trimEnd {s : List Char} (h : s.head?.any isBlank = false) :
    IsTrimmed (trimEnd s) := by
  refine ⟨?_, ?_⟩
  · obtain ⟨t, ht⟩ := trimEnd_prefix s
    cases hs : trimEnd s with
    | nil => rfl
    | cons c r => rw [← ht, hs] at h; simpa using h
  · rw [trimEnd, List.getLast?_reverse]
    exact head?_dropWhile_any isBlank s.reverse

/-- A text without blanks is trimmed. -/
theorem isTrimmed_of_forall {s : List Char} (h : ∀ c ∈ s, isBlank c = false) : IsTrimmed s := by
  constructor
  · cases hs : s.head? with
    | none => rfl
    | some c => simpa using h c (List.mem_of_mem_head? hs)
  · cases hs : s.getLast? with
    | none => rfl
    | some c => simpa using h c (List.mem_of_getLast? hs)

/-! ### Separators -/

/-- A text splits only where the separator stands. -/
theorem eq_of_splitFirst {separator : List Char} :
    ∀ {s before after : List Char}, splitFirst separator s = some (before, after) →
      s = before ++ separator ++ after
  | [], before, after, h => by
    rw [splitFirst] at h
    split at h
    · next hempty =>
      obtain ⟨rfl, rfl⟩ : [] = before ∧ [] = after := by simpa using h
      simpa using hempty
    · cases h
  | c :: rest, before, after, h => by
    rw [splitFirst] at h
    split at h
    · next hpre =>
      obtain ⟨rfl, rfl⟩ : [] = before ∧ (c :: rest).drop separator.length = after := by
        simpa using h
      obtain ⟨t, ht⟩ := List.isPrefixOf_iff_prefix.mp hpre
      rw [← ht]
      simp
    · cases hrest : splitFirst separator rest with
      | none => rw [hrest] at h; cases h
      | some halves =>
        obtain ⟨front, back⟩ := halves
        rw [hrest] at h
        obtain ⟨rfl, rfl⟩ : c :: front = before ∧ back = after := by simpa using h
        rw [eq_of_splitFirst hrest]
        simp

/-- A separator of one character splits a text at its first occurrence. -/
theorem splitFirst_char {d : Char} {after : List Char} :
    ∀ {before : List Char}, d ∉ before →
      splitFirst [d] (before ++ d :: after) = some (before, after)
  | [], _ => by simp [splitFirst]
  | c :: before, h => by
    -- the separator does not stand here, so the search moves on
    have hc : d ≠ c := fun hcd => h (hcd ▸ List.mem_cons_self)
    have hrest : splitFirst [d] (before ++ d :: after) = some (before, after) :=
      splitFirst_char fun hd => h (List.mem_cons_of_mem c hd)
    simp [splitFirst, hc, hrest]

end Text

/-! ### Classes of characters -/

namespace Grammar

variable {c : Char}

theorem isDigit_iff : c.isDigit = true ↔ 48 ≤ c.toNat ∧ c.toNat ≤ 57 := by
  simp [Char.isDigit, UInt32.le_iff_toNat_le]

theorem isAlpha_iff :
    c.isAlpha = true ↔ 65 ≤ c.toNat ∧ c.toNat ≤ 90 ∨ 97 ≤ c.toNat ∧ c.toNat ≤ 122 := by
  show (decide (65 ≤ c.val ∧ c.val ≤ 90) || decide (97 ≤ c.val) && decide (c.val ≤ 122)) = true ↔ _
  simp [UInt32.le_iff_toNat_le]

theorem isWordChar_iff : isWordChar c = true ↔ c.isAlpha = true ∨ c = '_' := by
  simp [isWordChar]

theorem isNameChar_iff : isNameChar c = true ↔ c.isAlpha = true ∨ c.isDigit = true ∨ c = '_' := by
  simp [isNameChar, Char.isAlphanum, or_assoc]

/-- The characters of words are characters of names. -/
theorem isNameChar_of_isWordChar (h : isWordChar c = true) : isNameChar c = true := by
  rw [isNameChar_iff]
  rcases isWordChar_iff.mp h with h | h
  · exact Or.inl h
  · exact Or.inr (Or.inr h)

theorem isNameChar_of_isDigit (h : c.isDigit = true) : isNameChar c = true :=
  isNameChar_iff.mpr (Or.inr (Or.inl h))

/-- No word holds a digit. -/
theorem isDigit_of_isWordChar (h : isWordChar c = true) : c.isDigit = false := by
  rcases isWordChar_iff.mp h with h | rfl
  · have hc := isAlpha_iff.mp h
    rw [Bool.eq_false_iff, Ne, isDigit_iff]
    omega
  · rfl

/-- No name holds a blank. -/
theorem isBlank_of_isNameChar (h : isNameChar c = true) : Text.isBlank c = false := by
  rcases isNameChar_iff.mp h with h | h | rfl
  · have hc := isAlpha_iff.mp h
    simp [Text.isBlank, Text.blankRanges]
    omega
  · have hc := isDigit_iff.mp h
    simp [Text.isBlank, Text.blankRanges]
    omega
  · decide

/-- The characters of names may stand in samples. -/
theorem isSampleChar_of_isNameChar (h : isNameChar c = true) : isSampleChar c = true := by
  have hcomma : c ≠ ',' := by rintro rfl; cases h
  have hat : c ≠ '@' := by rintro rfl; cases h
  simp [isSampleChar, hcomma, hat, isBlank_of_isNameChar h]

/-- The value of an entry ends at the next comma or bracket, whatever blanks are left out of it. -/
theorem entryValue_rest (s : List Char) :
    (entryValue s).2 = s.dropWhile fun c => c != ',' && c != ']' := by
  have hsplit := List.takeWhile_append_dropWhile (p := fun c => c != ',' && c != ']') (l := s)
  exact (congrArg (List.drop _) hsplit.symm).trans List.drop_left

end Grammar

end PluralRules
