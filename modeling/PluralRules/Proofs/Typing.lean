import PluralRules.Proofs.Contributions
import PluralRules.Proofs.Printed
import PluralRules.Proofs.Value

/-!
# The conditions of rules make sense

The grammar reads operators, lists and ranges more widely than they mean anything, and turning a
phrase into an expression sorts out what does not. What passes is a condition in the sense of
`Expr.IsCondition`: truth values where truth values are wanted, numbers where numbers are wanted,
sets at the sides of comparisons and nowhere else. Its literals are written as rule texts write
numbers, and a divisor that is spelled out is a positive integer of 64 bits
(`Expr.Admitted.ofText`).

Nothing else is ruled out. The conditions of rules are exactly the trees that make sense in this way
and that have parentheses wherever their operators need them (`Rule.exists_parse_iff`).
-/

namespace PluralRules

namespace Expr

/-- What texts of rules admit: literals as conditions write them, and divisors that are positive
integers of 64 bits if they are literals, in parentheses or not. -/
def Admitted.ofText : Admitted where
  Literal := Quantity.IsWritten
  Divisor e := ∀ q, e.bare = .literal q → ∃ z : ℤ, q.value = z ∧ 1 ≤ z ∧ z ≤ 2 ^ 63 - 1

/-- The check of a divisor looks for what divisors in rules have to be. -/
theorem canDivide_iff {e : Expr} : Phrase.canDivide e = true ↔ Admitted.ofText.Divisor e := by
  have hint (q : Quantity) :
      q.toInt64?.any (1 ≤ ·) = true ↔ ∃ z : ℤ, q.value = z ∧ 1 ≤ z ∧ z ≤ 2 ^ 63 - 1 := by
    rw [Option.any_eq_true]
    simp only [Quantity.toInt64?_eq_some, decide_eq_true_eq]
    constructor
    · rintro ⟨z, ⟨hvalue, -, hle⟩, hone⟩
      exact ⟨z, hvalue, hone, hle⟩
    · rintro ⟨z, hvalue, hone, hle⟩
      exact ⟨z, ⟨hvalue, by omega, hle⟩, hone⟩
  unfold Phrase.canDivide
  split
  · next q hbare =>
    rw [hint]
    constructor
    · intro h q' hq'
      cases hbare.symm.trans hq'
      exact h
    · intro h
      exact h q hbare
  · next hbare => exact ⟨fun _ q hq => absurd hq (hbare q), fun _ => rfl⟩

/-! ### The shapes of trees -/

section Shapes

variable {admitted admitted' : Admitted} {sets : Bool} {e : Expr}

theorem IsElement.mono (hliteral : ∀ q, admitted.Literal q → admitted'.Literal q)
    (h : e.IsElement admitted) : e.IsElement admitted' := by
  cases h with
  | literal hq => exact .literal (hliteral _ hq)
  | range hleast hgreatest => exact .range (hliteral _ hleast) (hliteral _ hgreatest)

/-- A tree that makes sense still does if more literals and divisors are admitted. -/
theorem IsValue.mono (hliteral : ∀ q, admitted.Literal q → admitted'.Literal q)
    (hdivisor : ∀ e, admitted.Divisor e → admitted'.Divisor e) (h : e.IsValue admitted sets) :
    e.IsValue admitted' sets := by
  induction h with
  | literal hq => exact .literal (hliteral _ hq)
  | operand hname => exact .operand hname
  | signed _ ih => exact .signed ih
  | modulo _ _ hright ihl ihr => exact .modulo ihl ihr (hdivisor _ hright)
  | range hleast hgreatest => exact .range (hliteral _ hleast) (hliteral _ hgreatest)
  | group hlength hitems => exact .group hlength fun item hitem => (hitems item hitem).mono hliteral
  | paren _ ih => exact .paren ih

/-- A condition stays one when more literals and divisors are admitted. -/
theorem IsCondition.mono (hliteral : ∀ q, admitted.Literal q → admitted'.Literal q)
    (hdivisor : ∀ e, admitted.Divisor e → admitted'.Divisor e) (h : e.IsCondition admitted) :
    e.IsCondition admitted' := by
  induction h with
  | truth => exact .truth
  | not _ ih => exact .not ih
  | logic _ _ ihl ihr => exact .logic ihl ihr
  | relation hl hr => exact .relation (hl.mono hliteral hdivisor) (hr.mono hliteral hdivisor)
  | paren _ ih => exact .paren ih

theorem isCondition_ofText_iff : e.IsCondition .ofText ↔ e.IsCondition .written :=
  ⟨.mono (fun _ hq => hq) fun _ => canDivide_iff.mpr, .mono (fun _ hq => hq) fun _ =>
    canDivide_iff.mp⟩

end Shapes

end Expr

namespace Rule

variable {text : String} {rule : Rule} {e : Expr}

/-- A rule that parses is the rule of a line that can be read. -/
theorem exists_line_of_parse (h : parse text = .ok rule) :
    ∃ line, Line.read text.toList = .ok line ∧ ofLine 1 line = .ok rule := by
  obtain ⟨line, hread, hline⟩ := bind_eq_ok.mp (mapError_eq_ok.mp h)
  exact ⟨line, mapError_eq_ok.mp hread, hline⟩

/-- A rule that a text spells is printable, or it comes from a header and is nothing but a label. -/
theorem isPrintable_or_of_parse (h : parse text = .ok rule) :
    rule.IsPrintable ∨ rule.condition = none ∧ rule.samples = [] := by
  obtain ⟨line, hread, hline⟩ := exists_line_of_parse h
  cases hcase : line.case with
  | none =>
    have hheader : line.isHeader = true := by rw [Line.isHeader, hcase]; rfl
    rw [ofLine_of_isHeader hread hheader] at hline
    obtain ⟨label, -, rfl⟩ := map_eq_ok.mp hline
    exact Or.inr ⟨rfl, rfl⟩
  | some segment => exact Or.inl (isPrintable_of_ofLine hread (by rw [hcase]; rfl) hline).1

/-- Whether or not a rule is a header, its condition and its samples are those of printable
rules. -/
theorem isPrintable_of_parse (h : parse text = .ok rule) :
    (∀ e, rule.condition = some e → e.IsCondition .written ∧ e.IsGrouped) ∧
      ∀ samples ∈ rule.samples, samples.IsPrintable := by
  rcases isPrintable_or_of_parse h with hprintable | ⟨hcondition, hsamples⟩
  · exact ⟨hprintable.condition, hprintable.samples⟩
  · rw [hcondition, hsamples]
    exact ⟨nofun, nofun⟩

/-- The condition of a rule that parses makes sense. -/
theorem isCondition_of_parse (h : parse text = .ok rule) (he : rule.condition = some e) :
    e.IsCondition .ofText :=
  Expr.isCondition_ofText_iff.mpr ((isPrintable_of_parse h).1 e he).1

/-- The conditions of rules are the trees that make sense and have the parentheses they need. -/
theorem exists_parse_iff : (∃ text rule, parse text = .ok rule ∧ rule.condition = some e) ↔
    e.IsCondition .ofText ∧ e.IsGrouped := by
  constructor
  · rintro ⟨text, rule, h, he⟩
    exact ⟨isCondition_of_parse h he, ((isPrintable_of_parse h).1 e he).2⟩
  · rintro ⟨hcondition, hgrouped⟩
    exact ⟨_, _, parse_case (Expr.isCondition_ofText_iff.mp hcondition) hgrouped, rfl⟩

/-- What a text spells makes sense. The condition of a rule is a condition, whose literals are
written as rule texts write numbers and whose divisors, if they are literals, are positive integers
of 64 bits. The samples of a rule are numbers, ranges and ellipses, with numbers that a text
spells. -/
theorem makesSense_of_parse (h : parse text = .ok rule) :
    (∀ e, rule.condition = some e → e.IsCondition .ofText) ∧
    ∀ samples ∈ rule.samples, ∀ sample ∈ samples.values,
      (∃ q, sample.toExpr = .literal q ∧ q.IsSpelled) ∨
      (∃ least greatest, sample.toExpr = .range least greatest ∧ least.IsSpelled ∧
        greatest.IsSpelled) ∨
      sample.toExpr = .ellipsis := by
  refine ⟨fun e he => isCondition_of_parse h he, fun samples hsamples sample hsample => ?_⟩
  have hprintable := ((isPrintable_of_parse h).2 samples hsamples).values sample hsample
  cases sample with
  | single q => exact Or.inl ⟨q, rfl, hprintable⟩
  | range least greatest => exact Or.inr (Or.inl ⟨least, greatest, rfl, hprintable⟩)
  | ellipsis => exact Or.inr (Or.inr rfl)

/-- A divisor and a list in parentheses, a list on the left, and samples of all three kinds. -/
theorem makesSense_of_parse_nested :
    let rule : Rule :=
      { label := { case := "few" }
        condition := some (.binary (.logic .and)
          (.unary .not (.binary (.relation .eq)
            (.binary .modulo (.operand "n") (.paren (.literal ⟨100, 1, 0⟩)))
            (.paren (.group [.range ⟨2, 0, 0⟩ ⟨4, 0, 0⟩, .literal ⟨7, 0, 0⟩]))))
          (.binary (.relation .ne) (.range ⟨1, 0, 0⟩ ⟨5, 0, 0⟩)
            (.unary (.sign .minus) (.operand "v"))))
        samples := [⟨"integer", [.range ⟨1, 0, 0⟩ ⟨5, 0, 0⟩, .single ⟨2, -3, 3⟩, .ellipsis]⟩]
        line := 1 }
    parse "few: not n % (10.0) = (2..4,7) and 1..5 != -v @integer 1~5, 2c3, …" = .ok rule ∧
      (∀ e, rule.condition = some e → e.IsCondition .ofText) ∧
      ∀ samples ∈ rule.samples, ∀ sample ∈ samples.values,
        (∃ q, sample.toExpr = .literal q ∧ q.IsSpelled) ∨
        (∃ least greatest, sample.toExpr = .range least greatest ∧ least.IsSpelled ∧
          greatest.IsSpelled) ∨
        sample.toExpr = .ellipsis := by
  intro rule
  have hrule : parse "few: not n % (10.0) = (2..4,7) and 1..5 != -v @integer 1~5, 2c3, …" =
      .ok rule := by decide +kernel
  exact ⟨hrule, makesSense_of_parse hrule⟩

end Rule

end PluralRules
