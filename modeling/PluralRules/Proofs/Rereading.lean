import PluralRules.Proofs.Reformatting
import PluralRules.Proofs.Selection
import PluralRules.Proofs.Typing

/-!
# Selectors read back

A selector is printed as rule text, with one clause in a line. What the text tells of a selector is
the case and the predicate of each clause, in their order (`Selector.bare`); culture and type are
not printed. Reading the text gives just that: no errors, and rules whose selector has the same
cases and predicates and selects the same case for every number (`Selector.reread_toString`).

This takes four steps. The text of a predicate spells a condition that has the same predicate; this
is of use also without a selector (`Predicate.ofExpr_faithful`). A clause of a rule fits a line,
like the rule. The printed clauses all belong to one group and have their catch-alls last, so they
stay in their order. And a selector of clauses that are in their order has the same clauses.
-/

namespace PluralRules

/-! ### Predicates -/

namespace Predicate

variable {e e' : Expr} {predicate : Predicate}

def equation (z : ℤ) : Expr := .binary (.relation .eq) (.operand "n") (.literal (.ofInt z))

/-- The condition that the text of a predicate spells. -/
def condition? : Predicate → Option Expr
  | zero => some (equation 0)
  | one => some (equation 1)
  | always => none
  | condition e => some e

/-- The text of a predicate is the text of the condition that it spells. -/
theorem chars_of_condition? (h : predicate.condition? = some e) : predicate.chars = e.chars := by
  cases predicate with
  | zero => cases h; decide
  | one => cases h; decide
  | always => cases h
  | condition e => cases h; rfl

/-- The condition `n = z` can be read back. -/
theorem isCondition_equation {z : ℤ} (hz : 0 ≤ z) :
    (equation z).IsCondition .written ∧ (equation z).IsGrouped := by
  constructor
  · refine .relation (.operand ?_) (.literal ⟨hz, le_rfl, rfl⟩)
    show Grammar.IsWord "n".toList
    decide
  · refine ⟨rfl, ?_, trivial, trivial⟩
    show BinaryOp.strength (.relation .eq) < 9
    decide

/-- What is printed for the predicate of a condition is that condition or an equation. It can be
read if the condition can, and it has the same predicate. -/
theorem exists_condition?_ofExpr (he : e.IsCondition .written) (hg : e.IsGrouped) :
    ∃ e', (ofExpr e).condition? = some e' ∧ ofExpr e' = ofExpr e ∧ e'.IsCondition .written ∧
      e'.IsGrouped := by
  cases h : ofEquation? e with
  | none =>
    have hcondition : ofExpr e = condition e := by rw [ofExpr, h, Option.getD_none]
    exact ⟨e, by rw [hcondition, condition?], rfl, he, hg⟩
  | some predicate =>
    have hpredicate : ofExpr e = predicate := by rw [ofExpr, h, Option.getD_some]
    rw [hpredicate]
    rcases ofEquation?_eq_some_iff.mp h with ⟨-, rfl⟩ | ⟨-, rfl⟩
    · exact ⟨equation 0, rfl, by decide, isCondition_equation le_rfl⟩
    · exact ⟨equation 1, rfl, by decide, isCondition_equation zero_le_one⟩

/-- The text of a predicate is read, behind the name of any case, as a condition with the same
predicate. -/
theorem exists_parse_ofExpr {name : String} (hname : Rule.IsCaseName name.toList)
    (he : e.IsCondition .written) (hg : e.IsGrouped) :
    ∃ e', Rule.parse (name ++ ": " ++ (ofExpr e).toString) =
      .ok ⟨{ case := name }, some e', [], 1⟩ ∧
      ofExpr e' = ofExpr e := by
  obtain ⟨e', hcondition, hpredicate, he', hg'⟩ := exists_condition?_ofExpr he hg
  have htext : (ofExpr e).toString = e'.toString :=
    congrArg String.ofList (chars_of_condition? hcondition)
  exact ⟨e', htext ▸ Rule.parse_named hname he' hg', hpredicate⟩

/-- Predicates without a tree do not show. The predicate of a condition holds where the condition
does, and fails where it does, with the same error; only the equations of `n` with zero and with one
need no tree. And the text of the predicate of a rule's condition is read, behind the name of any
case, as a condition with the same predicate. -/
theorem ofExpr_faithful (e : Expr) :
    (∀ x, (ofExpr e).eval x = e.evalBool x) ∧
    (ofExpr e = zero ↔ IsEquation 0 e) ∧ (ofExpr e = one ↔ IsEquation 1 e) ∧
    ∀ text rule name, Rule.parse text = .ok rule → rule.condition = some e →
      Rule.IsCaseName name.toList →
      ∃ e', Rule.parse (name ++ ": " ++ (ofExpr e).toString) =
        .ok ⟨{ case := name }, some e', [], 1⟩ ∧
        ofExpr e' = ofExpr e := by
  refine ⟨eval_ofExpr e, ofExpr_eq_zero_iff, ofExpr_eq_one_iff,
    fun text rule name hparse he hname => ?_⟩
  obtain ⟨hcondition, hgrouped⟩ := (Rule.isPrintable_of_parse hparse).1 e he
  exact exists_parse_ofExpr hname hcondition hgrouped

/-- A condition in three pairs of parentheses, read back behind a name that is also an operator. -/
theorem ofExpr_faithful_of_parentheses :
    let e : Expr :=
      .paren (.binary (.relation .eq) (.paren (.operand "n")) (.paren (.literal ⟨1, 0, 0⟩)))
    ∃ rule, Rule.parse "few: ((n) = (1)) @integer 1" = .ok rule ∧ rule.condition = some e ∧
      (∀ x, one.eval x = e.evalBool x) ∧
      ∃ e', Rule.parse "and: n = 1" = .ok ⟨{ case := "and" }, some e', [], 1⟩ ∧
        ofExpr e' = one := by
  intro e
  let rule : Rule := ⟨{ case := "few" }, some e, [⟨"integer", [.single ⟨1, 0, 0⟩]⟩], 1⟩
  have hparse : Rule.parse "few: ((n) = (1)) @integer 1" = .ok rule := by decide +kernel
  have hname : Rule.IsCaseName "and".toList :=
    ⟨'a', ['n', 'd'], by decide, rfl, by simp [Grammar.isCaseChar, Grammar.isNameChar]⟩
  have hone : ofExpr e = one := by decide
  have htext : "and: n = 1" = "and" ++ ": " ++ (ofExpr e).toString := by decide
  obtain ⟨heval, -, -, hreread⟩ := ofExpr_faithful e
  rw [← hone, htext]
  exact ⟨rule, hparse, rfl, heval, hreread _ rule "and" hparse rfl hname⟩

end Predicate

/-! ### Clauses -/

namespace Clause

variable {clause : Clause} {rule : Rule} {text : String}

/-- What the text of a clause tells of it. -/
def bare (clause : Clause) : Clause := ⟨{ case := clause.case }, clause.predicate⟩

/-- The rule that the text of a clause spells. -/
def asRule (clause : Clause) : Rule := ⟨{ case := clause.case }, clause.predicate.condition?, [], 1⟩

/-- A clause that a line spells. Only the case `other` can do without a condition. -/
structure FitsLine (clause : Clause) : Prop where
  case : Rule.IsCaseName clause.case.toList
  condition : ∀ e, clause.predicate.condition? = some e →
    (e.IsCondition .written ∧ e.IsGrouped) ∧ Predicate.ofExpr e = clause.predicate
  always : clause.predicate.condition? = none →
    clause.case = Selector.fallback ∧ clause.predicate = .always

theorem isCaseName_fallback : Rule.IsCaseName Selector.fallback.toList :=
  ⟨'o', ['t', 'h', 'e', 'r'], rfl, by decide, by simp [Grammar.isCaseChar, Grammar.isNameChar]⟩

/-- A clause of a rule that a text spells fits a line. -/
theorem FitsLine.of_parse (hparse : Rule.parse text = .ok rule) (h : ofRule rule = .ok clause) :
    clause.FitsLine := by
  cases he : rule.condition with
  | some e =>
    have hprintable := (Rule.isPrintable_or_of_parse hparse).resolve_right (by simp [he])
    cases (ofRule_of_condition he).symm.trans h
    obtain ⟨he', hg⟩ := hprintable.condition e he
    obtain ⟨e', hcondition, hpredicate, hreadable⟩ := Predicate.exists_condition?_ofExpr he' hg
    refine ⟨hprintable.case, fun e'' he'' => ?_, fun hnone => ?_⟩
    · cases hcondition.symm.trans he''
      exact ⟨hreadable, hpredicate⟩
    · cases hcondition.symm.trans hnone
  | none =>
    -- without a condition, only a catch-all makes a clause
    have hcatchAll : rule.isCatchAll = true := by
      by_contra hother
      have hsome := exists_ofRule_eq_ok.mp ⟨clause, h⟩ (Bool.eq_false_of_not_eq_true hother)
      simp [he] at hsome
    have hclause : clause = ⟨rule.label, .always⟩ := by simpa [ofRule, he, hcatchAll] using h.symm
    have hcase : rule.case = Selector.fallback :=
      (Bool.and_eq_true_iff.mp hcatchAll).2 |> beq_iff_eq.mp
    subst hclause
    refine ⟨?_, fun e he => absurd he.symm (Option.some_ne_none e), fun _ => ⟨hcase, rfl⟩⟩
    show Rule.IsCaseName rule.case.toList
    rw [hcase]
    exact isCaseName_fallback

section

variable (h : clause.FitsLine)
include h

/-- The text of a clause is the line of the rule that it spells. -/
theorem FitsLine.chars_asRule : clause.asRule.chars = clause.chars := by
  have hcase : Rule.IsCaseName clause.asRule.case.toList := h.case
  have hlabel : clause.asRule.labelChars = [] := if_pos rfl
  rw [Rule.chars_eq hcase, Rule.caseChars_eq hcase, hlabel, chars, isCatchAll]
  cases hcondition : clause.predicate.condition? with
  | none =>
    obtain ⟨-, halways⟩ := h.always hcondition
    simp [asRule, halways, Rule.conditionChars, Predicate.condition?, Rule.case]
  | some e =>
    have hne : clause.predicate ≠ .always := by
      intro halways
      rw [halways] at hcondition
      cases hcondition
    simp [asRule, hcondition, hne, Rule.conditionChars,
      Predicate.chars_of_condition? hcondition, Rule.case]

theorem FitsLine.fitsLine_asRule : clause.asRule.FitsLine := by
  refine ⟨⟨⟨Label.isEntryText_nil, Label.isEntryText_nil⟩, h.case, fun e he =>
    (h.condition e he).1, nofun⟩, ?_⟩
  exact ⟨List.not_mem_nil, List.not_mem_nil⟩

/-- Reading the text of a clause gives the case and the predicate. -/
theorem FitsLine.ofRule_asRule (n : ℕ) : ofRule (clause.asRule.atLine n) = .ok clause.bare := by
  cases hcondition : clause.predicate.condition? with
  | none =>
    obtain ⟨hcase, halways⟩ := h.always hcondition
    have hcatchAll : (clause.asRule.atLine n).isCatchAll = true := by
      simp [Rule.isCatchAll, Rule.atLine, Rule.case, asRule, hcondition, hcase, Selector.fallback]
    have hnone : (clause.asRule.atLine n).condition = none := hcondition
    rw [ofRule, hnone, bare, halways]
    exact if_pos hcatchAll
  | some e =>
    have he : (clause.asRule.atLine n).condition = some e := hcondition
    rw [ofRule_of_condition he, (h.condition e hcondition).2]
    rfl

/-- A clause is a catch-all exactly if the rule that it spells is one. -/
theorem FitsLine.isCatchAll_asRule : clause.asRule.isCatchAll = clause.isCatchAll :=
  (isCatchAll_of_ofRule (h.ofRule_asRule 1)).symm

end

end Clause

/-! ### Selectors -/

/-- Rules of one group with the catch-alls last are in the order of their groups as printed. -/
theorem Sheet.pairwise_numbered_of_groupKey {rules : List Rule}
    (hkey : ∀ a ∈ rules, ∀ b ∈ rules, a.groupKey = b.groupKey)
    (h : rules.Pairwise fun a b => a.isCatchAll = true → b.isCatchAll = true) :
    (numbered rules).Pairwise (Rule.Precedes (numbered rules)) := by
  have hcatchAlls : rules.zipIdx.Pairwise fun a b => a.1.isCatchAll = true →
      b.1.isCatchAll = true :=
    List.pairwise_map.mp ((List.zipIdx_map_fst 0 rules).symm ▸ h)
  refine List.pairwise_map.mpr ((hcatchAlls.and (pairwise_zipIdx rules 0)).imp_of_mem ?_)
  rintro ⟨a, i⟩ ⟨b, j⟩ ha hb ⟨hcatchAll, hlt⟩
  have hsame : (a.atLine (i + 1)).groupKey = (b.atLine (j + 1)).groupKey :=
    hkey a (List.fst_mem_of_mem_zipIdx ha) b (List.fst_mem_of_mem_zipIdx hb)
  exact ⟨fun hne => absurd hsame hne, fun _ => hcatchAll, fun _ _ => Nat.succ_lt_succ hlt⟩

namespace Selector

variable {clauses : List Clause} {rules : List Rule} {selector : Selector} {texts : List String}

/-- What the text of a selector tells of it. -/
def bare (selector : Selector) : Selector := ⟨"", none, selector.clauses.map Clause.bare⟩

/-- Which case is selected does not depend on what the text leaves out. -/
theorem caseAmong_bare (x : Quantity) : ∀ clauses : List Clause,
    caseAmong x (clauses.map Clause.bare) = caseAmong x clauses
  | [] => rfl
  | clause :: more => by
    rw [List.map_cons, caseAmong_cons, caseAmong_cons, caseAmong_bare x more]
    rfl

/-- Culture and type count only where there are no clauses, and there a selector of rules has
none. -/
theorem select_bare (h : ofRules rules = .ok selector) (x : Quantity) :
    selector.bare.select x = selector.select x := by
  by_cases hrules : rules = []
  · subst hrules
    cases h
    rfl
  · have hclauses : selector.clauses.isEmpty = false := by simpa using clauses_ne_nil hrules h
    have hbare : (selector.clauses.map Clause.bare).isEmpty = false := by rwa [List.isEmpty_map]
    rw [select, select, choose, choose, bare, hclauses, hbare]
    exact caseAmong_bare x selector.clauses

/-- The clauses of rules that texts spell fit lines. -/
theorem fitsLine_of_mem_clauses (hparse : texts.mapM Rule.parse = .ok rules)
    (h : ofRules rules = .ok selector) : ∀ clause ∈ selector.clauses, clause.FitsLine := by
  have hrules : ∀ rule ∈ rules, ∃ text, Rule.parse text = .ok rule :=
    forall_right (mapM_eq_ok.mp hparse) fun text _ rule hrule => ⟨text, hrule⟩
  obtain ⟨clauses, catchAlls, heq, hclauses, hcatchAlls⟩ := forall₂_of_ofRules h
  rw [heq]
  refine List.forall_mem_append.mpr ⟨forall_right hclauses ?_, forall_right hcatchAlls ?_⟩ <;>
  · intro rule hrule clause hclause
    obtain ⟨text, htext⟩ := hrules rule (List.mem_of_mem_filter hrule)
    exact .of_parse htext hclause

/-- In a selector the catch-alls come last. -/
theorem pairwise_isCatchAll (h : ofRules rules = .ok selector) :
    selector.clauses.Pairwise fun a b => a.isCatchAll = true → b.isCatchAll = true := by
  obtain ⟨clauses, -, rfl⟩ := ofRules_eq_ok.mp h
  rw [clauses_ofClauses, List.pairwise_append]
  refine ⟨List.pairwise_of_forall_mem_list fun a ha _ _ hcatchAll => ?_,
    List.pairwise_of_forall_mem_list fun _ _ b hb _ => (List.mem_filter.mp hb).2,
    fun _ _ b hb _ => (List.mem_filter.mp hb).2⟩
  simp [hcatchAll] at ha

/-- Clauses without culture and type that are in their order already are those of their selector. -/
theorem ofClauses_bare (h : clauses.Pairwise fun a b => a.isCatchAll = true → b.isCatchAll = true) :
    ofClauses (clauses.map Clause.bare) = ⟨"", none, clauses.map Clause.bare⟩ := by
  have hpairwise : (clauses.map Clause.bare).Pairwise fun a b => a.isCatchAll = true →
      b.isCatchAll = true :=
    List.pairwise_map.mpr h
  rw [ofClauses, Rule.filter_append_filter_of_pairwise hpairwise]
  cases clauses <;> rfl

/-- The rules that the clauses spell make the clauses again, less what the text leaves out. -/
theorem mapM_ofRule_numbered (hfits : ∀ clause ∈ clauses, clause.FitsLine) (k : ℕ) :
    (((clauses.map Clause.asRule).zipIdx k).map fun (rule, i) => rule.atLine (i + 1)).mapM
      Clause.ofRule =
      .ok (clauses.map Clause.bare) := by
  induction clauses generalizing k with
  | nil => rfl
  | cons clause clauses ih =>
    obtain ⟨hclause, hmore⟩ := List.forall_mem_cons.mp hfits
    simp only [List.map_cons, List.zipIdx_cons, List.mapM_cons, hclause.ofRule_asRule, ih hmore]
    rfl

/-- The text of a selector is the sheet of the rules that its clauses spell. -/
theorem toString_eq_print (hfits : ∀ clause ∈ selector.clauses, clause.FitsLine) :
    selector.toString = Sheet.print (selector.clauses.map Clause.asRule) := by
  have hchars : selector.clauses.map Clause.chars =
      ((selector.clauses.map Clause.asRule).map Rule.toString).map String.toList := by
    rw [List.map_map, List.map_map]
    refine List.map_congr_left fun clause hclause => ?_
    exact (hfits clause hclause).chars_asRule.symm.trans String.toList_ofList.symm
  rw [← String.toList_inj, toString, String.toList_ofList, chars, hchars, Sheet.print,
    String.toList_intercalate]
  rfl

/-- A printed selector reads back. For rules that texts spell, the text of their selector is read
without errors, and the rules in it have a selector of as many clauses, with the same cases and
predicates in the same order. So it selects the same case for every number, or fails with the same
error. -/
theorem reread_toString (hparse : texts.mapM Rule.parse = .ok rules)
    (h : ofRules rules = .ok selector) : (Sheet.parse selector.toString).errors = [] ∧
    ∃ selector', ofRules (Sheet.parse selector.toString).rules = .ok selector' ∧
      selector'.clauses.length = selector.clauses.length ∧ selector'.cases = selector.cases ∧
      selector'.clauses.map Clause.predicate = selector.clauses.map Clause.predicate ∧
      ∀ x, selector'.select x = selector.select x := by
  have hfits : ∀ clause ∈ selector.clauses, clause.FitsLine := fitsLine_of_mem_clauses hparse h
  have hcatchAlls := pairwise_isCatchAll h
  have hread : Sheet.parse selector.toString =
      ⟨Sheet.numbered (selector.clauses.map Clause.asRule), []⟩ := by
    rw [toString_eq_print hfits]
    refine Sheet.parse_print_of_numbered (List.forall_mem_map.mpr fun clause hclause => ?_) ?_
    · exact (hfits clause hclause).fitsLine_asRule
    -- all clauses are in one group, and the catch-alls stand last already
    · refine Sheet.pairwise_numbered_of_groupKey ?_ (List.pairwise_map.mpr ?_)
      · simp only [List.mem_map]
        rintro _ ⟨a, -, rfl⟩ _ ⟨b, -, rfl⟩
        rfl
      · refine hcatchAlls.imp_of_mem fun ha hb hab => ?_
        rwa [(hfits _ ha).isCatchAll_asRule, (hfits _ hb).isCatchAll_asRule]
  rw [hread]
  refine ⟨rfl, selector.bare, ?_, ?_, ?_, ?_, select_bare h⟩
  · rw [ofRules, Sheet.numbered, mapM_ofRule_numbered hfits]
    exact congrArg Except.ok (ofClauses_bare hcatchAlls)
  · exact List.length_map _
  · simp [cases, bare, Function.comp_def, Clause.case, Clause.bare]
  · simp [bare, Function.comp_def, Clause.bare]

/-- A catch-all before the other rules, a case named like a connective, a condition for `other`, and
an equation in parentheses. -/
theorem reread_toString_of_keyword_case :
    let texts :=
      ["[Case=other]", "and: (n) = ((0))", "[Culture=en] other: v = 2",
       "few: n % 10 = 2..4 @integer 2~4"]
    ∃ rules selector, texts.mapM Rule.parse = .ok rules ∧ ofRules rules = .ok selector ∧
      selector.toString = "and: n = 0\nother: v = 2\nfew: n % 10 = 2..4\nother" ∧
      (Sheet.parse selector.toString).errors = [] ∧
      ∃ selector', ofRules (Sheet.parse selector.toString).rules = .ok selector' ∧
        selector'.clauses.length = selector.clauses.length ∧ selector'.cases = selector.cases ∧
        selector'.clauses.map Clause.predicate = selector.clauses.map Clause.predicate ∧
        ∀ x, selector'.select x = selector.select x := by
  intro texts
  let zero : Expr := .paren (.paren (.literal ⟨0, 0, 0⟩))
  let two : Expr := .binary (.relation .eq) (.operand "v") (.literal ⟨2, 0, 0⟩)
  let few : Expr := .binary (.relation .eq) (.binary .modulo (.operand "n") (.literal ⟨10, 0, 0⟩))
    (.range ⟨2, 0, 0⟩ ⟨4, 0, 0⟩)
  let rules : List Rule :=
    [⟨{ case := "other" }, none, [], 1⟩,
      ⟨{ case := "and" }, some (.binary (.relation .eq) (.paren (.operand "n")) zero), [], 1⟩,
      ⟨{ culture := "en", case := "other" }, some two, [], 1⟩,
      ⟨{ case := "few" }, some few, [⟨"integer", [.range ⟨2, 0, 0⟩ ⟨4, 0, 0⟩]⟩], 1⟩]
  let selector : Selector := ⟨"", none, [⟨{ case := "and" }, .zero⟩,
    ⟨{ culture := "en", case := "other" }, .condition two⟩, ⟨{ case := "few" }, .condition few⟩,
    ⟨{ case := "other" }, .always⟩]⟩
  have hparse : texts.mapM Rule.parse = .ok rules := by decide +kernel
  have h : ofRules rules = .ok selector := by decide +kernel
  exact ⟨rules, selector, hparse, h, by decide +kernel, reread_toString hparse h⟩

end Selector

end PluralRules
