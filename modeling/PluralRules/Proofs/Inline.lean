import PluralRules.Proofs.Rules

/-!
# A rule takes one line

What is printed for a rule holds no newline, and it does not end in a carriage return, which would
be taken for a part of the end of the line. For the case, the condition and the samples this follows
from what they are made of (`Rule.isInline_bodyChars`). The texts of the label are different: they
may be anything that stood between the brackets of a line, and a carriage return can stand there.
But the label is never last.
-/

namespace PluralRules

/-! ### Texts that end no line -/

namespace Text

/-- A text without a character that ends a line. -/
def IsInline (s : List Char) : Prop := ∀ c ∈ s, c ≠ '\n' ∧ c ≠ '\r'

instance : DecidablePred IsInline := List.decidableBAll fun c => c ≠ '\n' ∧ c ≠ '\r'

variable {s t separator : List Char} {texts : List (List Char)}

/-- A text without blanks stays in one line. -/
theorem isInline_of_isBlank (h : ∀ c ∈ s, isBlank c = false) : IsInline s := by
  intro c hc
  have hblank := h c hc
  constructor <;>
  · rintro rfl
    exact absurd hblank (by decide)

theorem IsInline.append (hs : IsInline s) (ht : IsInline t) : IsInline (s ++ t) :=
  List.forall_mem_append.mpr ⟨hs, ht⟩

theorem IsInline.cons {c : Char} (hs : IsInline s) (hc : c ≠ '\n' ∧ c ≠ '\r') : IsInline (c :: s) :=
  List.forall_mem_cons.mpr ⟨hc, hs⟩

/-- Whatever stands in a row of texts stands in one of them or in the separator. -/
theorem mem_or_mem_of_mem_intercalate {c : Char} (h : c ∈ separator.intercalate texts) :
    c ∈ separator ∨ ∃ text ∈ texts, c ∈ text := by
  cases texts with
  | nil => cases h
  | cons first more =>
    rw [Reader.intercalate_cons, List.mem_append, List.mem_flatMap] at h
    rcases h with h | ⟨text, htext, h⟩
    · exact Or.inr ⟨first, List.mem_cons_self, h⟩
    · rcases List.mem_append.mp h with h | h
      · exact Or.inl h
      · exact Or.inr ⟨text, List.mem_cons_of_mem _ htext, h⟩

/-- Texts that stay in one line do so together, with a separator that does. -/
theorem isInline_intercalate (hseparator : IsInline separator) (h : ∀ text ∈ texts, IsInline text) :
    IsInline (separator.intercalate texts) := by
  intro c hc
  rcases mem_or_mem_of_mem_intercalate hc with hc | ⟨text, htext, hc⟩
  · exact hseparator c hc
  · exact h text htext c hc

end Text

open Text

theorem Quantity.isInline_chars (q : Quantity) : IsInline q.chars :=
  isInline_of_isBlank fun c hc => Numeral.isBlank_of_isNumeralChar
    (q.isNumeralChar_of_mem_chars c hc)

theorem UnaryOp.isInline_lead (op : UnaryOp) : IsInline op.lead := by
  rcases op with _ | _ | _ | _ <;> decide

theorem BinaryOp.isInline_symbol (op : BinaryOp) : IsInline op.symbol.toList := by
  rcases op with _ | (_ | _ | _) | (_ | _ | _ | _ | _ | _) <;> decide

/-! ### Conditions -/

namespace Expr

variable {admitted : Admitted} {sets : Bool} {e left right : Expr}

theorem isInline_enclosedIf {condition : Bool} {text : List Char} (h : IsInline text) :
    IsInline (enclosedIf condition text) := by
  cases condition with
  | false => exact h
  | true => exact (h.cons (by decide)).append (by decide)

theorem isInline_chars_unary (op : UnaryOp) (h : IsInline e.chars) :
    IsInline (unary op e).chars := by
  rw [chars]
  exact op.isInline_lead.append (isInline_enclosedIf h)

theorem isInline_chars_binary (op : BinaryOp) (hl : IsInline left.chars)
    (hr : IsInline right.chars) : IsInline (binary op left right).chars := by
  rw [chars]
  refine .append ?_ ((isInline_enclosedIf hr).cons (by decide))
  exact (isInline_enclosedIf hl).append (op.isInline_symbol.cons (by decide))

theorem isInline_chars_paren (h : IsInline e.chars) : IsInline (paren e).chars := by
  rw [chars]
  exact (h.cons (by decide)).append (by decide)

theorem isInline_chars_range (least greatest : Quantity) :
    IsInline (range least greatest).chars := by
  rw [chars]
  exact least.isInline_chars.append
    ((greatest.isInline_chars.cons (by decide)).cons (by decide))

theorem IsElement.isInline_chars (h : e.IsElement admitted) : IsInline e.chars := by
  cases h with
  | @literal q _ => exact q.isInline_chars
  | range => exact isInline_chars_range _ _

theorem IsValue.isInline_chars (h : e.IsValue admitted sets) : IsInline e.chars := by
  induction h with
  | @literal _ q _ => exact q.isInline_chars
  | operand hname =>
    exact isInline_of_isBlank fun c hc =>
      Grammar.isBlank_of_isNameChar (Grammar.isNameChar_of_isWordChar (hname.2.1 c hc))
  | signed _ ih => exact isInline_chars_unary _ ih
  | modulo _ _ _ ihl ihr => exact isInline_chars_binary _ ihl ihr
  | range => exact isInline_chars_range _ _
  | group _ hitems =>
    rw [chars, itemChars_eq]
    exact isInline_intercalate (by decide)
      (List.forall_mem_map.mpr fun item hitem => (hitems item hitem).isInline_chars)
  | paren _ ih => exact isInline_chars_paren ih

/-- A condition is printed in one line. -/
theorem IsCondition.isInline_chars (h : e.IsCondition admitted) : IsInline e.chars := by
  induction h with
  | @truth b => cases b <;> decide
  | not _ ih => exact isInline_chars_unary _ ih
  | logic _ _ ihl ihr => exact isInline_chars_binary _ ihl ihr
  | relation hl hr => exact isInline_chars_binary _ hl.isInline_chars hr.isInline_chars
  | paren _ ih => exact isInline_chars_paren ih

end Expr

/-! ### Samples and cases -/

theorem Sample.isInline_chars (sample : Sample) : IsInline sample.chars := by
  refine isInline_of_isBlank fun c hc => ?_
  have hsample := sample.isSampleChar_of_mem_chars c hc
  simp only [Grammar.isSampleChar, Bool.and_eq_true, Bool.not_eq_true'] at hsample
  exact hsample.2

theorem Samples.isInline_chars {samples : Samples} (h : samples.IsPrintable) :
    IsInline samples.chars := by
  have hname : IsInline samples.name.toList :=
    isInline_of_isBlank fun c hc => Grammar.isBlank_of_isNameChar (h.isNameChar_of_mem_name c hc)
  have hvalues : IsInline ([',', ' '].intercalate (samples.values.map Sample.chars)) :=
    isInline_intercalate (by decide) (List.forall_mem_map.mpr fun sample _ => sample.isInline_chars)
  refine (hname.cons (by decide)).append ?_
  split
  · exact nofun
  · exact hvalues.cons (by decide)

namespace Rule

variable {rule : Rule}

/-- The line of a rule behind its label. -/
def bodyChars (rule : Rule) : List Char :=
  rule.caseChars ++ rule.samples.flatMap fun samples => ' ' :: samples.chars

theorem bodyChars_ne_nil (h : IsCaseName rule.case.toList) : rule.bodyChars ≠ [] := by
  rw [bodyChars, caseChars_eq h]
  obtain ⟨c, t, heq, -⟩ := h
  simp [heq]

theorem IsCaseName.isInline {name : List Char} (h : IsCaseName name) : IsInline name := by
  obtain ⟨c, t, rfl, hc, ht⟩ := h
  refine isInline_of_isBlank (List.forall_mem_cons.mpr ⟨?_, fun d hd => ?_⟩)
  · exact Grammar.isBlank_of_isNameChar (Grammar.isNameChar_iff.mpr (Or.inl hc))
  · rcases Bool.or_eq_true_iff.mp (ht d hd) with hd | hd
    · exact Grammar.isBlank_of_isNameChar hd
    · rw [beq_iff_eq.mp hd]
      decide

/-- What is printed of a rule behind its label stays in one line. -/
theorem isInline_bodyChars (h : rule.IsPrintable) : IsInline rule.bodyChars := by
  have hcondition : IsInline (conditionChars rule.condition) := by
    cases hrule : rule.condition with
    | none => exact nofun
    | some e => exact ((h.condition e hrule).1.isInline_chars.cons (by decide)).cons (by decide)
  rw [bodyChars, caseChars_eq h.case]
  refine (h.case.isInline.append hcondition).append fun c hc => ?_
  obtain ⟨samples, hsamples, hc⟩ := List.mem_flatMap.mp hc
  exact (samples.isInline_chars (h.samples samples hsamples)).cons (by decide) c hc

/-! ### The label and the line -/

/-- A rule that a line spells. The texts of its label stood in the line. -/
structure FitsLine (rule : Rule) : Prop where
  printable : rule.IsPrintable
  texts : rule.label.HasTexts ('\n' ∉ ·)

theorem not_mem_pairChars {label : Label} (h : label.HasTexts ('\n' ∉ ·)) {pair : String × String}
    (hpair : pair ∈ label.pairs) : '\n' ∉ Label.pairChars pair := by
  obtain ⟨-, hname, -⟩ := Label.key_of_mem_pairs hpair
  have hkey : '\n' ∉ pair.1.toList := fun hmem => absurd (hname _ hmem) (by decide)
  have hvalue : '\n' ∉ pair.2.toList := h.value_of_mem_pairs (by decide) hpair
  simp [Label.pairChars, hkey, hvalue]

/-- A label is printed in one line if none of its parts holds a newline. -/
theorem not_mem_labelChars (h : rule.label.HasTexts ('\n' ∉ ·)) : '\n' ∉ rule.labelChars := by
  have hentries : '\n' ∉ [',', ' '].intercalate rule.label.entries := by
    intro hmem
    rcases mem_or_mem_of_mem_intercalate hmem with hmem | ⟨entry, hentry, hmem⟩
    · exact absurd hmem (by decide)
    · rw [Label.entries_eq] at hentry
      obtain ⟨pair, hpair, rfl⟩ := List.mem_map.mp hentry
      exact not_mem_pairChars h hpair hmem
  unfold labelChars Label.chars
  split
  · exact List.not_mem_nil
  · split <;> simp [hentries]

variable (h : rule.FitsLine)

include h

/-- The line of a rule holds no newline. -/
theorem FitsLine.not_mem_chars : '\n' ∉ rule.chars := by
  rw [chars_eq h.printable.case, List.mem_append, not_or]
  exact ⟨not_mem_labelChars h.texts, fun hmem => (isInline_bodyChars h.printable _ hmem).1 rfl⟩

theorem FitsLine.chars_ne_nil : rule.chars ≠ [] := by
  rw [chars_eq h.printable.case]
  exact List.append_ne_nil_of_right_ne_nil _ (bodyChars_ne_nil h.printable.case)

/-- The line of a rule does not end in a carriage return. -/
theorem FitsLine.getLast?_chars : rule.chars.getLast? ≠ some '\r' := by
  obtain ⟨last, hlast⟩ : ∃ last, rule.bodyChars.getLast? = some last :=
    Option.ne_none_iff_exists'.mp
      (mt List.getLast?_eq_none_iff.mp (bodyChars_ne_nil h.printable.case))
  have hreturn := (isInline_bodyChars h.printable last (List.mem_of_getLast? hlast)).2
  have hchars : rule.chars.getLast? = some last := by
    rw [chars_eq h.printable.case, List.getLast?_append]
    exact congrArg (Option.or · _) hlast
  rw [hchars]
  exact fun heq => hreturn (Option.some.inj heq)

end Rule

end PluralRules
