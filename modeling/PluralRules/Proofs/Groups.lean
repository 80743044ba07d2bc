import Mathlib.Data.List.Perm.Basic
import Mathlib.Data.List.Nodup
import PluralRules.Rule.Basic

/-!
# Groups of rules

Grouping rules by what they have in common loses none and adds none. It changes their order, in a
way that can be told without the groups themselves: from where two rules stand among the rules of a
text it follows which of them comes first (`Rule.Precedes`). Of two groups the one that begins
earlier comes first, within a group the catch-alls come last, and otherwise the lines decide.
-/

namespace PluralRules.Rule

variable {rules rules' group : List Rule} {rule : Rule}

/-! ### Members of groups -/

/-- A group consists of all rules with the key of one of the rules. -/
theorem mem_groups : group ∈ groups rules ↔
    ∃ first ∈ rules, group = rules.filter fun rule => rule.groupKey == first.groupKey := by
  simp only [groups, List.mem_map, List.mem_eraseDups]
  constructor
  · rintro ⟨key, ⟨first, hfirst, rfl⟩, rfl⟩
    exact ⟨first, hfirst, rfl⟩
  · rintro ⟨first, hfirst, rfl⟩
    exact ⟨first.groupKey, ⟨first, hfirst, rfl⟩, rfl⟩

theorem mem_of_mem_groups (hgroup : group ∈ groups rules) (h : rule ∈ group) : rule ∈ rules := by
  obtain ⟨first, -, rfl⟩ := mem_groups.mp hgroup
  exact List.mem_of_mem_filter h

theorem ne_nil_of_mem_groups (hgroup : group ∈ groups rules) : group ≠ [] := by
  obtain ⟨first, hfirst, rfl⟩ := mem_groups.mp hgroup
  exact List.ne_nil_of_mem (List.mem_filter.mpr ⟨hfirst, beq_self_eq_true _⟩)

/-- Nothing occurs twice once repetitions are dropped. -/
theorem nodup_eraseDups {α : Type} [BEq α] [LawfulBEq α] : ∀ xs : List α, xs.eraseDups.Nodup
  | [] => .nil
  | x :: xs => by
    rw [List.eraseDups_cons]
    refine List.nodup_cons.mpr ⟨fun hmem => ?_, nodup_eraseDups _⟩
    simpa using (List.mem_filter.mp (List.mem_eraseDups.mp hmem)).2
termination_by xs => xs.length
decreasing_by exact Nat.lt_succ_of_le (List.length_filter_le _ _)

/-- No group is there twice. -/
theorem nodup_groups (rules : List Rule) : (groups rules).Nodup := by
  refine List.Nodup.map_on ?_ (nodup_eraseDups _)
  intro key hkey key' _ heq
  -- a group has a rule with its key
  obtain ⟨rule, hrule, rfl⟩ := List.mem_map.mp (List.mem_eraseDups.mp hkey)
  have hmem : rule ∈ rules.filter (·.groupKey == rule.groupKey) :=
    List.mem_filter.mpr ⟨hrule, beq_self_eq_true _⟩
  rw [heq] at hmem
  exact beq_iff_eq.mp (List.mem_filter.mp hmem).2

theorem mem_catchAllsLast : rule ∈ catchAllsLast rules ↔ rule ∈ rules := by
  rw [catchAllsLast, List.mem_append, List.mem_filter, List.mem_filter, ← and_or_left, and_iff_left]
  cases rule.isCatchAll <;> decide

theorem mem_grouped : rule ∈ grouped rules ↔ rule ∈ rules := by
  simp only [grouped, List.mem_flatMap, mem_groups]
  constructor
  · rintro ⟨_, ⟨first, -, rfl⟩, h⟩
    exact List.mem_of_mem_filter (mem_catchAllsLast.mp h)
  · intro h
    exact ⟨_, ⟨rule, h, rfl⟩, mem_catchAllsLast.mpr (List.mem_filter.mpr ⟨h, beq_self_eq_true _⟩)⟩

/-- A list stays as it is if those with a property are moved to its end and are there already. -/
theorem filter_append_filter_of_pairwise {α : Type} {p : α → Bool} {xs : List α}
    (h : xs.Pairwise fun a b => p a = true → p b = true) :
    xs.filter (!p ·) ++ xs.filter (p ·) = xs := by
  induction xs with
  | nil => rfl
  | cons x xs ih =>
    obtain ⟨hx, hxs⟩ := List.pairwise_cons.mp h
    have hmore := ih hxs
    cases hp : p x with
    | false => simp [hp, hmore]
    | true =>
      have hnone : xs.filter (!p ·) = [] :=
        List.filter_eq_nil_iff.mpr fun y hy => by simp [hx y hy hp]
      rw [hnone, List.nil_append] at hmore
      simp [hp, hnone, hmore]

/-- Catch-alls that are behind the other rules stay where they are. -/
theorem catchAllsLast_eq_self (h : rules.Pairwise fun a b => a.isCatchAll = true →
    b.isCatchAll = true) : catchAllsLast rules = rules := filter_append_filter_of_pairwise h

/-! ### The order of grouped rules -/

/-- The first rule comes before the second one if the rules of a text are grouped. Groups are in the
order in which they begin. Within a group, nothing but catch-alls comes behind a catch-all, and
catch-alls and other rules are each in the order of their lines. -/
structure Precedes (rules : List Rule) (a b : Rule) : Prop where
  group : a.groupKey ≠ b.groupKey → ∃ first ∈ rules, first.groupKey = a.groupKey ∧
    ∀ rule ∈ rules, rule.groupKey = b.groupKey → first.line < rule.line
  catchAll : a.groupKey = b.groupKey → a.isCatchAll = true → b.isCatchAll = true
  line : a.groupKey = b.groupKey → a.isCatchAll = b.isCatchAll → a.line < b.line

/-- The order depends only on which rules there are. -/
theorem Precedes.congr {a b : Rule} (h : Precedes rules a b)
    (hmem : ∀ rule, rule ∈ rules ↔ rule ∈ rules') : Precedes rules' a b where
  group := by
    intro hne
    obtain ⟨first, hfirst, hkey, hbefore⟩ := h.group hne
    exact ⟨first, (hmem first).mp hfirst, hkey, fun rule hrule =>
      hbefore rule ((hmem rule).mpr hrule)⟩
  catchAll := h.catchAll
  line := h.line

/-- Of two groups only one begins earlier. -/
theorem Precedes.groupKey_eq {a b c d : Rule} (hab : Precedes rules a b) (hcd : Precedes rules c d)
    (hbc : b.groupKey = c.groupKey) (had : a.groupKey = d.groupKey) : a.groupKey = b.groupKey := by
  by_contra hne
  obtain ⟨first, hfirst, hkey, hbefore⟩ := hab.group hne
  obtain ⟨second, hsecond, hkey', hbefore'⟩ :=
    hcd.group fun heq => hne (had.trans (hbc.trans heq).symm)
  have hlt := hbefore second hsecond (hkey'.trans hbc.symm)
  have hlt' := hbefore' first hfirst (hkey.trans had)
  omega

/-- No two rules precede each other. -/
theorem Precedes.asymm {a b : Rule} (hab : Precedes rules a b) : ¬ Precedes rules b a := by
  intro hba
  have hkey := hab.groupKey_eq hba rfl rfl
  have hcatchAll : a.isCatchAll = b.isCatchAll :=
    Bool.eq_iff_iff.mpr ⟨hab.catchAll hkey, hba.catchAll hkey.symm⟩
  exact Nat.lt_asymm (hab.line hkey hcatchAll) (hba.line hkey.symm hcatchAll.symm)

theorem Precedes.ne {a b : Rule} (h : Precedes rules a b) : a ≠ b := by
  rintro rfl
  exact Nat.lt_irrefl _ (h.line rfl rfl)

/-- Groups are in the order in which they begin. -/
theorem pairwise_groupKeys : ∀ {rules : List Rule}, rules.Pairwise (·.line < ·.line) →
    (rules.map groupKey).eraseDups.Pairwise fun a b => ∃ first ∈ rules, first.groupKey = a ∧
      ∀ rule ∈ rules, rule.groupKey = b → first.line < rule.line
  | [], _ => .nil
  | rule :: rules, h => by
    obtain ⟨hrule, hrules⟩ := List.pairwise_cons.mp h
    let others := rules.filter fun other => other.groupKey != rule.groupKey
    have hothers : (rules.map groupKey).filter (fun key => !key == rule.groupKey) =
        others.map groupKey := List.filter_map
    have hsorted : others.Pairwise (·.line < ·.line) := hrules.filter _
    have hmore := pairwise_groupKeys hsorted
    rw [List.map_cons, List.eraseDups_cons, hothers]
    refine List.pairwise_cons.mpr ⟨fun key hkey => ?_, hmore.imp_of_mem fun {a b} ha hb hab => ?_⟩
    · -- the group of the first rule begins with it, before every rule of another group
      obtain ⟨other, hother, rfl⟩ := List.mem_map.mp (List.mem_eraseDups.mp hkey)
      refine ⟨rule, List.mem_cons_self, rfl, fun later hlater hsame => ?_⟩
      rcases List.mem_cons.mp hlater with rfl | hlater
      · simp [others, hsame] at hother
      · exact hrule later hlater
    · -- the other groups are not touched by the first rule
      obtain ⟨first, hfirst, hkey, hbefore⟩ := hab
      obtain ⟨other, hother, rfl⟩ := List.mem_map.mp (List.mem_eraseDups.mp hb)
      refine ⟨first, List.mem_cons_of_mem _ (List.mem_of_mem_filter hfirst), hkey, ?_⟩
      intro later hlater hsame
      have hne : later.groupKey ≠ rule.groupKey := by
        rw [hsame]
        simpa [others] using (List.mem_filter.mp hother).2
      rcases List.mem_cons.mp hlater with rfl | hlater
      · exact absurd rfl hne
      · exact hbefore later (List.mem_filter.mpr ⟨hlater, by simpa using hne⟩) hsame
termination_by rules => rules.length
decreasing_by exact Nat.lt_succ_of_le (List.length_filter_le _ _)

/-- Within a group the catch-alls come last, and the lines decide otherwise. -/
theorem pairwise_catchAllsLast (h : rules.Pairwise (·.line < ·.line)) :
    (catchAllsLast rules).Pairwise fun a b => (a.isCatchAll = true → b.isCatchAll = true) ∧
      (a.isCatchAll = b.isCatchAll → a.line < b.line) := by
  refine List.pairwise_append.mpr ⟨?_, ?_, ?_⟩
  · refine (h.filter _).imp_of_mem fun ha _ hlt => ⟨fun hcatchAll => ?_, fun _ => hlt⟩
    have ha := (List.mem_filter.mp ha).2
    rw [hcatchAll] at ha
    cases ha
  · exact (h.filter _).imp_of_mem fun _ hb hlt => ⟨fun _ => (List.mem_filter.mp hb).2, fun _ => hlt⟩
  · intro a ha b hb
    have ha : a.isCatchAll = false := by simpa using (List.mem_filter.mp ha).2
    have hb : b.isCatchAll = true := (List.mem_filter.mp hb).2
    exact ⟨fun _ => hb, fun heq => by rw [ha, hb] at heq; cases heq⟩

/-- Grouped rules stand in order if the rules were in the order of their lines. -/
theorem pairwise_grouped (h : rules.Pairwise (·.line < ·.line)) :
    (grouped rules).Pairwise (Precedes rules) := by
  have hkey : ∀ {key : GroupKey} {rule : Rule},
      rule ∈ catchAllsLast (rules.filter fun rule => rule.groupKey == key) → rule.groupKey = key :=
    fun hrule => beq_iff_eq.mp (List.mem_filter.mp (mem_catchAllsLast.mp hrule)).2
  rw [grouped, groups, List.flatMap_map, List.pairwise_flatMap]
  -- within a group by catch-alls and lines; between groups by where they begin
  constructor
  · intro key _
    refine (pairwise_catchAllsLast (h.filter _)).imp_of_mem fun ha hb hab => ⟨fun hne => ?_, ?_, ?_⟩
    · exact absurd ((hkey ha).trans (hkey hb).symm) hne
    · exact fun _ => hab.1
    · exact fun _ => hab.2
  · refine (pairwise_groupKeys h).imp fun {key key'} hkeys a ha b hb => ?_
    obtain ⟨first, hfirst, hfirstKey, hbefore⟩ := hkeys
    have hne : a.groupKey ≠ b.groupKey := by
      rw [hkey ha, hkey hb]
      rintro rfl
      exact Nat.lt_irrefl _ (hbefore first hfirst hfirstKey)
    refine ⟨fun _ => ?_, fun heq => absurd heq hne, fun heq => absurd heq hne⟩
    rw [hkey ha, hkey hb]
    exact ⟨first, hfirst, hfirstKey, hbefore⟩

/-- Grouping loses no rule, adds none and repeats none. -/
theorem grouped_perm (h : rules.Pairwise (·.line < ·.line)) : (grouped rules).Perm rules := by
  have hgrouped : (grouped rules).Nodup := (pairwise_grouped h).imp Precedes.ne
  have hrules : rules.Nodup := h.imp fun hlt heq => Nat.ne_of_lt hlt (congrArg Rule.line heq)
  exact (List.perm_ext_iff_of_nodup hgrouped hrules).mpr fun _ => mem_grouped

/-- Rules that are in the order of their groups stay where they are. -/
theorem grouped_eq_self (hlines : rules.Pairwise (·.line < ·.line))
    (h : rules.Pairwise (Precedes rules)) : grouped rules = rules :=
  List.Perm.eq_of_pairwise (fun _ _ _ _ hab hba => absurd hba hab.asymm) (pairwise_grouped hlines) h
    (grouped_perm hlines)

/-- The rules of a group stand together. -/
theorem groupKey_of_between {front middle back : List Rule} {a b c : Rule}
    (h : (front ++ a :: (middle ++ c :: back)).Pairwise (Precedes rules))
    (hac : a.groupKey = c.groupKey) (hb : b ∈ middle) : b.groupKey = a.groupKey := by
  obtain ⟨-, htail, -⟩ := List.pairwise_append.mp h
  obtain ⟨ha, hmiddle⟩ := List.pairwise_cons.mp htail
  have hab := ha b (List.mem_append_left _ hb)
  have hbc := (List.pairwise_append.mp hmiddle).2.2 b hb c List.mem_cons_self
  exact (hab.groupKey_eq hbc rfl hac).symm

end PluralRules.Rule
