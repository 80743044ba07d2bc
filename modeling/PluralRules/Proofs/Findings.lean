import Mathlib.Data.Finset.Card
import PluralRules.Lint
import PluralRules.Proofs.Groups
import PluralRules.Proofs.Result

/-!
# The findings of a group

Rules are checked group by group, and every finding tells which rule it is about, by the line of the
rule or by what the group has in common. So as long as no two rules are from the same line, the
findings about a group can be picked out of all findings, and they are those of the group checked
alone (`findings_filter_isAbout`).
-/

namespace PluralRules

namespace Finding

def site? : Finding → Option SampleSite
  | mismatch site | shadowed site _ | failed site _ => some site
  | noCatchAll _ _ | severalCatchAlls _ _ _ | repeatedCase _ _ _ => none

def isRepeatedCase : Finding → Bool
  | repeatedCase _ _ _ => true
  | _ => false

/-- Whether a finding is about a rule, or about the group of the rule. -/
def concerns (rule : Rule) : Finding → Bool
  | mismatch site | shadowed site _ | failed site _ => site.line == rule.line
  | noCatchAll culture type | severalCatchAlls culture type _ =>
    ⟨Culture.canonical culture, type⟩ == rule.groupKey
  | repeatedCase line _ _ => line == rule.line

/-- Whether a finding is about a group of rules or one of its rules. -/
def isAbout (group : List Rule) (finding : Finding) : Bool := group.any finding.concerns

/-- Rules that a finding is about, both of them, belong together. -/
theorem groupKey_of_concerns {finding : Finding} {rules : List Rule} {a b : Rule}
    (hlines : (rules.map Rule.line).Nodup) (ha : a ∈ rules) (hb : b ∈ rules)
    (hfa : finding.concerns a = true) (hfb : finding.concerns b = true) :
    a.groupKey = b.groupKey := by
  have hline : a.line = b.line → a.groupKey = b.groupKey := fun heq =>
    congrArg Rule.groupKey (List.inj_on_of_nodup_map hlines ha hb heq)
  cases finding with
  | mismatch site => exact hline ((beq_iff_eq.mp hfa).symm.trans (beq_iff_eq.mp hfb))
  | shadowed site earlier => exact hline ((beq_iff_eq.mp hfa).symm.trans (beq_iff_eq.mp hfb))
  | failed site error => exact hline ((beq_iff_eq.mp hfa).symm.trans (beq_iff_eq.mp hfb))
  | repeatedCase line culture case =>
    exact hline ((beq_iff_eq.mp hfa).symm.trans (beq_iff_eq.mp hfb))
  | noCatchAll culture type => exact (beq_iff_eq.mp hfa).symm.trans (beq_iff_eq.mp hfb)
  | severalCatchAlls culture type count => exact (beq_iff_eq.mp hfa).symm.trans (beq_iff_eq.mp hfb)

end Finding

namespace Lint

variable {rules group earlier : List Rule} {rule : Rule} {finding : Finding} {q : Quantity}

/-- No two rules of a group have the same line, if no two rules at all do. -/
theorem nodup_lines_of_mem_groups (hlines : (rules.map Rule.line).Nodup)
    (hgroup : group ∈ Rule.groups rules) : (group.map Rule.line).Nodup := by
  obtain ⟨first, -, rfl⟩ := Rule.mem_groups.mp hgroup
  exact hlines.sublist (List.filter_sublist.map _)

/-! ### Samples -/

/-- The finding about a sample names the sample and its rule. -/
theorem site_of_sampleFinding? (h : sampleFinding? earlier rule q = some finding) :
    finding.site? = some ⟨rule.line, rule.case, q⟩ := by
  unfold sampleFinding? at h
  split at h
  · next hcheck =>
    obtain ⟨applies, -, hcheck⟩ := bind_eq_ok.mp hcheck
    split at hcheck
    · cases hcheck; cases h
    · cases hcheck; cases h; rfl
    · obtain ⟨found, -, hcheck⟩ := bind_eq_ok.mp hcheck
      cases found <;> cases hcheck <;> cases h
      rfl
  · cases h
    rfl

/-- The findings about samples are those about the samples of each rule, given the rules before
it. -/
theorem mem_sampleFindings : finding ∈ sampleFindings earlier rules ↔
    ∃ front rule back, rules = front ++ rule :: back ∧
      ∃ q ∈ sampleNumbers rule, sampleFinding? (earlier ++ front) rule q = some finding := by
  -- the rules that have been passed grow along the way
  induction rules generalizing earlier with
  | nil =>
    constructor
    · nofun
    · rintro ⟨front, rule, back, h, -⟩
      cases front <;> cases h
  | cons first rules ih =>
    rw [sampleFindings, List.mem_append, List.mem_filterMap, ih]
    constructor
    · rintro (⟨q, hq, h⟩ | ⟨front, rule, back, rfl, q, hq, h⟩)
      · exact ⟨[], first, rules, rfl, q, hq, by rwa [List.append_nil]⟩
      · exact ⟨first :: front, rule, back, rfl, q, hq, by rwa [List.append_assoc] at h⟩
    · rintro ⟨front, rule, back, heq, q, hq, h⟩
      cases front with
      | nil =>
        obtain ⟨rfl, rfl⟩ := List.cons.inj heq
        exact Or.inl ⟨q, hq, by rwa [List.append_nil] at h⟩
      | cons _ front =>
        obtain ⟨rfl, rfl⟩ := List.cons.inj heq
        exact Or.inr ⟨front, rule, back, rfl, q, hq, by rwa [List.append_assoc]⟩

/-! ### Cases and catch-alls -/

/-- The findings about cases are about cases seen before, and concern a rule of the group. -/
theorem isRepeatedCase_of_mem_caseFindings {seen : List String}
    (h : finding ∈ caseFindings seen group) :
    finding.isRepeatedCase = true ∧ ∃ rule ∈ group, finding.concerns rule = true := by
  induction group generalizing seen with
  | nil => cases h
  | cons rule group ih =>
    have hmore : ∀ {seen}, finding ∈ caseFindings seen group → finding.isRepeatedCase = true ∧
        ∃ other ∈ rule :: group, finding.concerns other = true := fun h =>
      let ⟨hcase, other, hother, hconcerns⟩ := ih h
      ⟨hcase, other, List.mem_cons_of_mem _ hother, hconcerns⟩
    rw [caseFindings] at h
    split at h
    · rcases List.mem_cons.mp h with rfl | h
      · exact ⟨rfl, rule, List.mem_cons_self, beq_self_eq_true _⟩
      · exact hmore h
    · exact hmore h

/-- There is a finding for every rule but the first one of each case. -/
theorem length_caseFindings (seen : List String) (group : List Rule) :
    (caseFindings seen group).length +
    ((group.map Rule.case).toFinset \ seen.toFinset).card = group.length := by
  induction group generalizing seen with
  | nil => simp [caseFindings]
  | cons rule group ih =>
    rw [caseFindings, List.map_cons, List.toFinset_cons, List.length_cons]
    split
    · next hseen =>
      have hmem : rule.case ∈ seen.toFinset := by simpa using hseen
      rw [Finset.insert_sdiff_of_mem _ hmem, List.length_cons, Nat.add_right_comm, ih]
    · next hseen =>
      have hmem : rule.case ∉ seen.toFinset := by simpa using hseen
      have hfirst : insert rule.case (group.map Rule.case).toFinset \ seen.toFinset =
          insert rule.case ((group.map Rule.case).toFinset \ (rule.case :: seen).toFinset) := by
        ext case
        simp only [List.toFinset_cons, Finset.mem_sdiff, Finset.mem_insert]
        by_cases hcase : case = rule.case
        · subst hcase; simp [hmem]
        · simp [hcase]
      rw [hfirst, Finset.card_insert_of_notMem (by simp), ← Nat.add_assoc, ih]

/-- A group with catch-alls other than one gets a finding about them, which says how many there
are. -/
theorem mem_catchAllFindings : finding ∈ catchAllFindings group ↔
    ∃ first ∈ group.head?,
      finding = .noCatchAll first.label.culture first.label.type ∧
      group.countP Rule.isCatchAll = 0 ∨
      finding = .severalCatchAlls first.label.culture first.label.type
        (group.countP Rule.isCatchAll) ∧
        2 ≤ group.countP Rule.isCatchAll := by
  cases group with
  | nil => simp [catchAllFindings]
  | cons first more =>
    rw [catchAllFindings]
    rcases hcount : (first :: more).countP Rule.isCatchAll with _ | _ | count <;> simp

/-! ### The findings of a group among all findings -/

/-- The findings about a group are of three sorts. -/
theorem mem_groupFindings : finding ∈ groupFindings group ↔
    finding ∈ catchAllFindings group ∨ finding ∈ caseFindings [] group ∨
      finding ∈ sampleFindings [] group := by
  rw [groupFindings, List.mem_append, List.mem_append, or_assoc]

/-- A finding about a sample concerns the rule in whose line the sample stands. -/
theorem concerns_of_site {case : String} (h : finding.site? = some ⟨rule.line, case, q⟩) :
    finding.concerns rule = true := by
  cases finding <;> cases h <;> exact beq_self_eq_true _

/-- The findings about a group are about it or about one of its rules. -/
theorem isAbout_of_mem_groupFindings (h : finding ∈ groupFindings group) :
    finding.isAbout group = true := by
  rw [Finding.isAbout, List.any_eq_true]
  rcases mem_groupFindings.mp h with h | h | h
  · obtain ⟨first, hfirst, h⟩ := mem_catchAllFindings.mp h
    refine ⟨first, List.mem_of_head? hfirst, ?_⟩
    rcases h with ⟨rfl, -⟩ | ⟨rfl, -⟩ <;> exact beq_self_eq_true _
  · exact (isRepeatedCase_of_mem_caseFindings h).2
  · obtain ⟨front, rule, back, rfl, q, -, h⟩ := mem_sampleFindings.mp h
    exact ⟨rule, List.mem_append_right _ List.mem_cons_self,
      concerns_of_site (site_of_sampleFinding? h)⟩

/-- Two groups that a finding is about are the same group. -/
theorem eq_of_isAbout {group' : List Rule} (hlines : (rules.map Rule.line).Nodup)
    (hgroup : group ∈ Rule.groups rules) (hgroup' : group' ∈ Rule.groups rules)
    (h : finding.isAbout group = true) (h' : finding.isAbout group' = true) : group = group' := by
  obtain ⟨first, -, rfl⟩ := Rule.mem_groups.mp hgroup
  obtain ⟨first', -, rfl⟩ := Rule.mem_groups.mp hgroup'
  obtain ⟨rule, hrule, hconcerns⟩ := List.any_eq_true.mp h
  obtain ⟨rule', hrule', hconcerns'⟩ := List.any_eq_true.mp h'
  obtain ⟨hrule, hkey⟩ := List.mem_filter.mp hrule
  obtain ⟨hrule', hkey'⟩ := List.mem_filter.mp hrule'
  have hsame := Finding.groupKey_of_concerns hlines hrule hrule' hconcerns hconcerns'
  rw [← beq_iff_eq.mp hkey, ← beq_iff_eq.mp hkey', hsame]

/-- Where only one element of a list without repetitions gives anything, it gives all. -/
theorem flatMap_eq_of_nodup {α β : Type} {f : α → List β} {x : α} {xs : List α} (hnodup : xs.Nodup)
    (hx : x ∈ xs) (h : ∀ y ∈ xs, y ≠ x → f y = []) : xs.flatMap f = f x := by
  induction xs with
  | nil => cases hx
  | cons y xs ih =>
    obtain ⟨hy, hnodup⟩ := List.nodup_cons.mp hnodup
    rw [List.flatMap_cons]
    rcases List.mem_cons.mp hx with rfl | hx
    · have hnil : xs.flatMap f = [] := List.flatMap_eq_nil_iff.mpr fun z hz =>
        h z (List.mem_cons_of_mem _ hz) fun heq => hy (heq ▸ hz)
      rw [hnil, List.append_nil]
    · have hnil : f y = [] := h y List.mem_cons_self fun heq => hy (heq ▸ hx)
      rw [hnil, List.nil_append, ih hnodup hx fun z hz => h z (List.mem_cons_of_mem _ hz)]

/-- The findings about a group are those of the group checked alone. -/
theorem findings_filter_isAbout (hlines : (rules.map Rule.line).Nodup)
    (hgroup : group ∈ Rule.groups rules) :
    (findings rules).filter (·.isAbout group) = groupFindings group := by
  have hothers : ∀ group' ∈ Rule.groups rules, group' ≠ group →
      (groupFindings group').filter (·.isAbout group) = [] := by
    intro group' hgroup' hne
    refine List.filter_eq_nil_iff.mpr fun finding hfinding habout => hne ?_
    exact eq_of_isAbout hlines hgroup' hgroup (isAbout_of_mem_groupFindings hfinding) habout
  have hown : (groupFindings group).filter (·.isAbout group) = groupFindings group :=
    List.filter_eq_self.mpr fun _ => isAbout_of_mem_groupFindings
  rw [findings, List.filter_flatMap, flatMap_eq_of_nodup (Rule.nodup_groups rules) hgroup hothers,
    hown]

/-- A rule of a group is known by its line, and so are the rules before it. -/
theorem eq_of_split {front front' back back' : List Rule} {rule' : Rule}
    (hlines : ((front ++ rule :: back).map Rule.line).Nodup) (hline : rule'.line = rule.line)
    (heq : front ++ rule :: back = front' ++ rule' :: back') : front' = front ∧ rule' = rule := by
  have hmem : rule' ∈ front ++ rule :: back := heq ▸ List.mem_append_right _ List.mem_cons_self
  obtain rfl : rule' = rule := List.inj_on_of_nodup_map hlines hmem (by simp) hline
  have hnodup : (front ++ rule' :: back).Nodup := List.Nodup.of_map _ hlines
  obtain ⟨hfront, hback⟩ : rule' ∉ front ∧ rule' ∉ back := by
    simpa using (List.nodup_cons.mp (List.nodup_middle.mp hnodup)).1
  obtain ⟨rfl, -, -⟩ := (List.append_cons_inj_of_notMem hfront hback).mp heq
  exact ⟨rfl, rfl⟩

/-- Only the check of the samples finds what concerns a sample. -/
theorem mem_groupFindings_of_site {site : SampleSite} (hsite : finding.site? = some site) :
    finding ∈ groupFindings group ↔ finding ∈ sampleFindings [] group := by
  rw [mem_groupFindings]
  refine ⟨?_, fun h => Or.inr (Or.inr h)⟩
  rintro (h | h | h)
  · obtain ⟨first, -, ⟨rfl, -⟩ | ⟨rfl, -⟩⟩ := mem_catchAllFindings.mp h <;> cases hsite
  · have hrepeated := (isRepeatedCase_of_mem_caseFindings h).1
    cases finding <;> cases hrepeated
    cases hsite
  · exact h

/-- A finding about a sample is what is wrong with the sample, given the rules before it in its
group. -/
theorem mem_findings_of_site {front back : List Rule} (hlines : (rules.map Rule.line).Nodup)
    (hgroup : front ++ rule :: back ∈ Rule.groups rules)
    (hsite : finding.site? = some ⟨rule.line, rule.case, q⟩) :
    finding ∈ findings rules ↔
      q ∈ sampleNumbers rule ∧ sampleFinding? front rule q = some finding := by
  have habout : finding.isAbout (front ++ rule :: back) = true :=
    List.any_eq_true.mpr ⟨rule, by simp, concerns_of_site hsite⟩
  have hlocal : finding ∈ findings rules ↔ finding ∈ groupFindings (front ++ rule :: back) := by
    rw [← findings_filter_isAbout hlines hgroup, List.mem_filter, and_iff_left habout]
  rw [hlocal, mem_groupFindings_of_site hsite, mem_sampleFindings]
  constructor
  · rintro ⟨front', rule', back', heq, q', hq', hfinding⟩
    have hsite' := (site_of_sampleFinding? hfinding).symm.trans hsite
    simp only [Option.some.injEq, SampleSite.mk.injEq] at hsite'
    obtain ⟨hline, -, rfl⟩ := hsite'
    obtain ⟨rfl, rfl⟩ := eq_of_split (nodup_lines_of_mem_groups hlines hgroup) hline heq
    exact ⟨hq', hfinding⟩
  · rintro ⟨hq, h⟩
    exact ⟨front, rule, back, rfl, q, hq, h⟩

/-- Only samples of rules are found to be doubtful. -/
theorem exists_rule_of_site {site : SampleSite} (h : finding ∈ findings rules)
    (hsite : finding.site? = some site) :
    ∃ rule ∈ rules, ∃ q, site = ⟨rule.line, rule.case, q⟩ := by
  obtain ⟨group, hgroup, h⟩ := List.mem_flatMap.mp h
  obtain ⟨front, rule, back, rfl, q, -, h⟩ :=
    mem_sampleFindings.mp ((mem_groupFindings_of_site hsite).mp h)
  refine ⟨rule, Rule.mem_of_mem_groups hgroup (by simp), q, ?_⟩
  exact Option.some.inj (hsite.symm.trans (site_of_sampleFinding? h))

end Lint

end PluralRules
