import PluralRules.Proofs.Findings
import PluralRules.Proofs.Sheets
import PluralRules.Proofs.Typing
import PluralRules.Proofs.Verdicts

/-!
# The findings of a sheet

The rules of a sheet have their catch-alls last in each group, so the clauses of a selector are
those of the rules in the same order, and a place among the rules is a place among the clauses. No
two rules are from the same line, so what is found about a sample is found about the rule that lists
it. Together these say what each finding means for the selector of a group (`Reports`).

Ranges are checked number by number only if their ends are integers of 64 bits. The findings do not
report what lies between greater ends (`not_reports_beyond_int64`).
-/

namespace PluralRules

/-- Where the catch-alls are last, the clauses are in the order of the rules. -/
theorem Selector.forall₂_of_catchAlls_last {rules : List Rule} {selector : Selector}
    (hlast : rules.Pairwise fun a b => a.isCatchAll = true → b.isCatchAll = true)
    (h : ofRules rules = .ok selector) :
    List.Forall₂ (fun rule clause => Clause.ofRule rule = .ok clause) rules selector.clauses := by
  obtain ⟨clauses, catchAlls, hselector, hclauses, hcatchAlls⟩ := forall₂_of_ofRules h
  have hall : List.Forall₂ (fun rule clause => Clause.ofRule rule = .ok clause)
      (Rule.catchAllsLast rules) (clauses ++ catchAlls) := List.rel_append hclauses hcatchAlls
  rwa [Rule.catchAllsLast_eq_self hlast, ← hselector] at hall

namespace Lint

/-- What findings say of a group of rules, in terms of the selector of the group. Nothing is said
about a sample if and only if the walk through the clauses ends at its rule, and then the case of
the rule is selected (`silent`, `selected`). The earlier case that takes a sample away is the one
that is selected, and a sample is a mismatch if and only if the predicate of its rule is false.
Every rule but the first of its case is reported. -/
structure Reports (admitted : ℤ → Prop) (findings : List Finding) (group : List Rule)
    (selector : Selector) : Prop where
  clauses : group.mapM Clause.ofRule = .ok selector.clauses
  silent : ∀ (i : Nat) (rule : Rule) (q : Quantity), group[i]? = some rule → rule.Lists admitted q →
    ((∀ finding ∈ findings, finding.site? ≠ some ⟨rule.line, rule.case, q⟩) ↔
      Clause.StopsAt q selector.clauses i)
  selected : ∀ (i : Nat) (rule : Rule) (q : Quantity), group[i]? = some rule →
    Clause.StopsAt q selector.clauses i → selector.select q = .ok rule.case
  shadowed : ∀ (i : Nat) (rule : Rule) (q : Quantity) (earlier : String), group[i]? = some rule →
    .shadowed ⟨rule.line, rule.case, q⟩ earlier ∈ findings → selector.select q = .ok earlier
  mismatch : ∀ (i : Nat) (rule : Rule) (q : Quantity), group[i]? = some rule →
    rule.Lists admitted q →
    (.mismatch ⟨rule.line, rule.case, q⟩ ∈ findings ↔
      ∃ clause, selector.clauses[i]? = some clause ∧ clause.takes q = .ok false)
  noCatchAll : (∃ culture type, .noCatchAll culture type ∈ findings.filter (·.isAbout group)) ↔
    group.countP Rule.isCatchAll = 0
  severalCatchAlls : ∀ count,
    (∃ culture type, .severalCatchAlls culture type count ∈ findings.filter (·.isAbout group)) ↔
      2 ≤ count ∧ group.countP Rule.isCatchAll = count
  repeatedCase : (findings.filter (·.isAbout group)).countP Finding.isRepeatedCase =
    group.length - (group.map Rule.case).toFinset.card

/-! ### Findings about a group as a whole -/

section Group

variable {group : List Rule}

/-- A finding about neither a sample nor a case seen before is one about the catch-alls. -/
theorem catchAllFinding_mem_iff {finding : Finding} (hsite : finding.site? = none)
    (hrepeated : finding.isRepeatedCase = false) :
    finding ∈ groupFindings group ↔ finding ∈ catchAllFindings group := by
  rw [mem_groupFindings]
  constructor
  · rintro (h | h | h)
    · exact h
    · rw [(isRepeatedCase_of_mem_caseFindings h).1] at hrepeated
      cases hrepeated
    · obtain ⟨_, _, _, _, _, _, h⟩ := mem_sampleFindings.mp h
      rw [site_of_sampleFinding? h] at hsite
      cases hsite
  · exact Or.inl

/-- A group is reported to lack a catch-all exactly if none of its rules is one. -/
theorem exists_noCatchAll_iff (hne : group ≠ []) :
    (∃ culture type, .noCatchAll culture type ∈ groupFindings group) ↔
      group.countP Rule.isCatchAll = 0 := by
  obtain ⟨first, more, rfl⟩ := List.exists_cons_of_ne_nil hne
  constructor
  · rintro ⟨culture, type, h⟩
    obtain ⟨_, -, ⟨-, hcount⟩ | ⟨heq, -⟩⟩ :=
      mem_catchAllFindings.mp ((catchAllFinding_mem_iff rfl rfl).mp h)
    · exact hcount
    · cases heq
  · intro hcount
    refine ⟨first.label.culture, first.label.type, (catchAllFinding_mem_iff rfl rfl).mpr ?_⟩
    exact mem_catchAllFindings.mpr ⟨first, rfl, Or.inl ⟨rfl, hcount⟩⟩

/-- A group is reported to have several catch-alls exactly if it has them, and their number is
right. -/
theorem exists_severalCatchAlls_iff (hne : group ≠ []) {count : Nat} :
    (∃ culture type, .severalCatchAlls culture type count ∈ groupFindings group) ↔
      2 ≤ count ∧ group.countP Rule.isCatchAll = count := by
  obtain ⟨first, more, rfl⟩ := List.exists_cons_of_ne_nil hne
  constructor
  · rintro ⟨culture, type, h⟩
    obtain ⟨_, -, ⟨heq, -⟩ | ⟨heq, hcount⟩⟩ :=
      mem_catchAllFindings.mp ((catchAllFinding_mem_iff rfl rfl).mp h)
    · cases heq
    · cases heq
      exact ⟨hcount, rfl⟩
  · rintro ⟨hcount, rfl⟩
    refine ⟨first.label.culture, first.label.type, (catchAllFinding_mem_iff rfl rfl).mpr ?_⟩
    exact mem_catchAllFindings.mpr ⟨first, rfl, Or.inr ⟨rfl, hcount⟩⟩

/-- There is one finding for each rule beyond the first one of its case. -/
theorem countP_isRepeatedCase : (groupFindings group).countP Finding.isRepeatedCase =
    group.length - (group.map Rule.case).toFinset.card := by
  have hcatchAlls : (catchAllFindings group).countP Finding.isRepeatedCase = 0 := by
    refine List.countP_eq_zero.mpr fun finding h => ?_
    obtain ⟨_, -, ⟨rfl, -⟩ | ⟨rfl, -⟩⟩ := mem_catchAllFindings.mp h <;> exact Bool.false_ne_true
  have hcases :
      (caseFindings [] group).countP Finding.isRepeatedCase = (caseFindings [] group).length :=
    List.countP_eq_length.mpr fun finding h => (isRepeatedCase_of_mem_caseFindings h).1
  have hsamples : (sampleFindings [] group).countP Finding.isRepeatedCase = 0 := by
    refine List.countP_eq_zero.mpr fun finding h => ?_
    obtain ⟨_, _, _, _, _, _, h⟩ := mem_sampleFindings.mp h
    have hsite := site_of_sampleFinding? h
    cases finding <;> first | exact Bool.false_ne_true | cases hsite
  have hlength := length_caseFindings [] group
  rw [List.toFinset_nil, Finset.sdiff_empty] at hlength
  rw [groupFindings, List.countP_append, List.countP_append, hcatchAlls, hcases, hsamples]
  omega

end Group

/-! ### Findings about samples -/

/-- A group among rules that are checked, and a selector with a clause for each rule of the group,
in the same order. No two rules are from the same line. -/
structure Aligned (rules group : List Rule) (selector : Selector) : Prop where
  lines : (rules.map Rule.line).Nodup
  samples : ∀ rule ∈ rules, ∀ samples ∈ rule.samples, samples.IsPrintable
  mem_groups : group ∈ Rule.groups rules
  clauses : List.Forall₂ (fun rule clause => Clause.ofRule rule = .ok clause) group selector.clauses

/-- Nothing is found about a number that a rule lists if and only if there is nothing wrong with it,
given the rules before in the same group. -/
theorem forall_site?_ne_iff {rules front back : List Rule} {rule : Rule} {q : Quantity}
    (hlines : (rules.map Rule.line).Nodup) (hgroup : front ++ rule :: back ∈ Rule.groups rules)
    (hq : q ∈ sampleNumbers rule) :
    (∀ finding ∈ findings rules, finding.site? ≠ some ⟨rule.line, rule.case, q⟩) ↔
      sampleFinding? front rule q = none := by
  have hmem : ∀ {finding : Finding}, finding.site? = some ⟨rule.line, rule.case, q⟩ →
      (finding ∈ findings rules ↔
        q ∈ sampleNumbers rule ∧ sampleFinding? front rule q = some finding) :=
    mem_findings_of_site hlines hgroup
  constructor
  · intro hall
    rw [Option.eq_none_iff_forall_ne_some]
    intro finding hfinding
    have hsite := site_of_sampleFinding? hfinding
    exact hall finding ((hmem hsite).mpr ⟨hq, hfinding⟩) hsite
  · intro hnone finding hfinding hsite
    rw [hnone] at hmem
    cases ((hmem hsite).mp hfinding).2

namespace Aligned

variable {rules group : List Rule} {selector : Selector} {i : Nat} {rule : Rule} {q : Quantity}
  (h : Aligned rules group selector) (hi : group[i]? = some rule)

include h hi

/-- What a rule lists is checked, if all ends of its ranges are integers of 64 bits. -/
theorem mem_sampleNumbers_of_lists (hq : rule.Lists FitsInt64 q) : q ∈ sampleNumbers rule :=
  (mem_sampleNumbers
    (h.samples rule (Rule.mem_of_mem_groups h.mem_groups (List.mem_of_getElem? hi)))).mpr hq

/-- There is no finding about a sample exactly if the walk through the clauses stops at its rule. -/
theorem silent_iff (hq : rule.Lists FitsInt64 q) :
    (∀ finding ∈ findings rules, finding.site? ≠ some ⟨rule.line, rule.case, q⟩) ↔
      Clause.StopsAt q selector.clauses i := by
  have hnumber := h.mem_sampleNumbers_of_lists hi hq
  obtain ⟨front, back, before, clause, after, rfl, heq, rfl, hclause, hfront⟩ :=
    exists_clause h.clauses hi
  rw [forall_site?_ne_iff h.lines h.mem_groups hnumber, sampleFinding?_eq_none hclause hfront, heq,
    Clause.stopsAt_iff]

/-- Where the walk stops at the clause of a rule, the case of the rule is selected. -/
theorem select_of_stopsAt (hstops : Clause.StopsAt q selector.clauses i) :
    selector.select q = .ok rule.case := by
  obtain ⟨front, back, before, clause, after, rfl, heq, rfl, hclause, -⟩ :=
    exists_clause h.clauses hi
  rw [heq] at hstops
  have hwalk := Clause.firstTaking?_of_stopsAt hstops
  rw [← heq] at hwalk
  rw [Clause.select_of_firstTaking? hwalk, Clause.case, Clause.label_of_ofRule hclause, Rule.case]

/-- The case that a sample is reported to be taken by is the case that is selected. -/
theorem select_of_shadowed {earlier : String}
    (hfinding : .shadowed ⟨rule.line, rule.case, q⟩ earlier ∈ findings rules) :
    selector.select q = .ok earlier := by
  obtain ⟨front, back, before, clause, after, rfl, heq, rfl, hclause, hfront⟩ :=
    exists_clause h.clauses hi
  obtain ⟨-, hfinding⟩ := (mem_findings_of_site h.lines h.mem_groups rfl).mp hfinding
  obtain ⟨found, hwalk, rfl⟩ := firstTaking?_of_shadowed hclause hfront hfinding
  have hwalk := Clause.firstTaking?_append_of_some hwalk (clause :: after)
  rw [← heq] at hwalk
  exact Clause.select_of_firstTaking? hwalk

/-- A sample is reported not to match its rule exactly if the clause of the rule does not take
it. -/
theorem mismatch_iff (hq : rule.Lists FitsInt64 q) :
    .mismatch ⟨rule.line, rule.case, q⟩ ∈ findings rules ↔
      ∃ clause, selector.clauses[i]? = some clause ∧ clause.takes q = .ok false := by
  have hnumber := h.mem_sampleNumbers_of_lists hi hq
  obtain ⟨front, back, before, clause, after, rfl, heq, rfl, hclause, hfront⟩ :=
    exists_clause h.clauses hi
  rw [mem_findings_of_site h.lines h.mem_groups rfl, and_iff_right hnumber,
    sampleFinding?_eq_mismatch hclause hfront, heq]
  simp

end Aligned

end Lint

namespace Sheet

variable {text : List Char} {group : List Rule} {selector : Selector}

/-! ### The groups of a sheet -/

/-- The samples of the rules of a sheet can be printed. -/
theorem isPrintable_of_mem_rules {rule : Rule} (h : rule ∈ (ofChars text).rules) :
    ∀ samples ∈ rule.samples, samples.IsPrintable := by
  obtain ⟨i, line, -, -, own, hown, rfl⟩ := mem_ungrouped.mp (mem_rules.mp h)
  have hparse : Rule.parse (String.ofList line) = .ok own := by
    rw [Rule.parse, String.toList_ofList]
    exact hown
  exact (Rule.isPrintable_of_parse hparse).2

/-- The groups of a sheet have their catch-alls last, so a place among the rules is one among the
clauses. -/
theorem aligned_of_mem_groups (hgroup : group ∈ Rule.groups (ofChars text).rules)
    (h : Selector.ofRules group = .ok selector) :
    Lint.Aligned (ofChars text).rules group selector := by
  refine ⟨nodup_lines text, fun rule => isPrintable_of_mem_rules, hgroup, ?_⟩
  obtain ⟨first, -, rfl⟩ := Rule.mem_groups.mp hgroup
  refine Selector.forall₂_of_catchAlls_last ?_ h
  refine ((pairwise_rules text).filter _).imp_of_mem fun {a b} ha hb hab => hab.catchAll ?_
  rw [beq_iff_eq.mp (List.mem_filter.mp ha).2, beq_iff_eq.mp (List.mem_filter.mp hb).2]

/-! ### The theorem -/

/-- The findings about the rules of a sheet tell which samples a selector does not select as they
say, and what is wrong with the catch-alls and the cases of each group. -/
theorem reports_findings (hgroup : group ∈ Rule.groups (ofChars text).rules)
    (h : Selector.ofRules group = .ok selector) :
    Lint.Reports FitsInt64 (Lint.findings (ofChars text).rules) group selector := by
  have hlocal := Lint.findings_filter_isAbout (nodup_lines text) hgroup
  have hne := Rule.ne_nil_of_mem_groups hgroup
  have haligned := aligned_of_mem_groups hgroup h
  constructor
  case clauses => exact mapM_eq_ok.mpr haligned.clauses
  case silent => exact fun _ _ _ hi hq => haligned.silent_iff hi hq
  case selected => exact fun _ _ _ hi hstops => haligned.select_of_stopsAt hi hstops
  case shadowed => exact fun _ _ _ _ hi hfinding => haligned.select_of_shadowed hi hfinding
  case mismatch => exact fun _ _ _ hi hq => haligned.mismatch_iff hi hq
  case noCatchAll =>
    rw [hlocal]
    exact Lint.exists_noCatchAll_iff hne
  case severalCatchAlls =>
    rw [hlocal]
    exact fun _ => Lint.exists_severalCatchAlls_iff hne
  case repeatedCase =>
    rw [hlocal]
    exact Lint.countP_isRepeatedCase

/-- A sample that its rule does not take, samples that an earlier rule takes, and one catch-all too
many. -/
theorem reports_findings_of_mistakes :
    let rules := (ofChars ("one: n = 1 @integer 1, 2\nother @integer 0, 1\n" ++
      "two: n = 1, 2 @integer 1~3\nother").toList).rules
    ∃ selector, Selector.ofRules rules = .ok selector ∧
      Lint.findings rules =
        [.severalCatchAlls "" none 2, .repeatedCase 4 "" "other", .mismatch ⟨1, "one", ⟨2, 0, 0⟩⟩,
          .shadowed ⟨3, "two", ⟨1, 0, 0⟩⟩ "one", .mismatch ⟨3, "two", ⟨3, 0, 0⟩⟩,
          .shadowed ⟨2, "other", ⟨1, 0, 0⟩⟩ "one"] ∧
      Lint.Reports FitsInt64 (Lint.findings rules) rules selector := by
  intro rules
  let two : Expr :=
    .binary (.relation .eq) (.operand "n") (.group [.literal ⟨1, 0, 0⟩, .literal ⟨2, 0, 0⟩])
  let other : Clause := ⟨{ case := "other" }, .always⟩
  have hselector : Selector.ofRules rules =
      .ok ⟨"", none,
        [⟨{ case := "one" }, .one⟩, ⟨{ case := "two" }, .condition two⟩, other, other]⟩ := by
    decide +kernel
  exact ⟨_, hselector, by decide +kernel, reports_findings (by decide +kernel) hselector⟩

/-- Between ends beyond 64 bits no number is checked, so a sample there can be a mismatch that is
not found. -/
theorem not_reports_beyond_int64 :
    ¬ ∀ (text : List Char) (group : List Rule) (selector : Selector),
      group ∈ Rule.groups (ofChars text).rules → Selector.ofRules group = .ok selector →
        Lint.Reports (fun _ => True) (Lint.findings (ofChars text).rules) group selector := by
  intro h
  let text := ("few: n = 10000000000000000000000, 10000000000000000000005 " ++
    "@integer 10000000000000000000000~10000000000000000000005\nother").toList
  let least : Quantity := .ofInt (10 ^ 22)
  let greatest : Quantity := .ofInt (10 ^ 22 + 5)
  let ends : Expr :=
    .binary (.relation .eq) (.operand "n") (.group [.literal least, .literal greatest])
  let rule : Rule := ⟨{ case := "few" }, some ends, [⟨"integer", [.range least greatest]⟩], 1⟩
  let rules : List Rule := [rule, ⟨{ case := "other" }, none, [], 2⟩]
  let clause : Clause := ⟨{ case := "few" }, .condition ends⟩
  have hrules : (ofChars text).rules = rules := by decide +kernel
  have hgroup : rules ∈ Rule.groups (ofChars text).rules := by rw [hrules]; decide +kernel
  have hselector :
      Selector.ofRules rules = .ok ⟨"", none, [clause, ⟨{ case := "other" }, .always⟩]⟩ := by
    decide +kernel
  have hfindings : Lint.findings (ofChars text).rules = [] := by rw [hrules]; decide +kernel
  have hlists : rule.Lists (fun _ => True) (.ofInt (10 ^ 22 + 1)) := by
    have hplain (z : ℤ) : (Quantity.ofInt z).IsPlainInt z := ⟨rfl, rfl, Quantity.value_ofInt z⟩
    refine ⟨_, List.mem_cons_self, _, List.mem_cons_self, ?_⟩
    exact .between (hplain _) (hplain _) trivial trivial (by decide) (by decide) (by decide)
  have hmismatch := ((h text rules _ hgroup hselector).mismatch 0 rule _ rfl hlists).mpr
    ⟨clause, rfl, by decide +kernel⟩
  rw [hfindings] at hmismatch
  cases hmismatch

end Sheet

end PluralRules
