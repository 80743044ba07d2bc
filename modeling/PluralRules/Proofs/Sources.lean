import Mathlib.Data.Finset.Sort
import Mathlib.Data.String.Basic
import PluralRules.Catalog.Basic

/-!
# The texts of a catalog

A catalog keeps its texts in the ascending order of their keys. Putting a text under a key keeps
this order and changes what is found under this key only. Because of the order, the names of the
cultures are listed in ascending order, each once.
-/

namespace PluralRules

/-! ### The order of keys -/

namespace CatalogKey

variable {a b c : CatalogKey}

/-- Keys are ordered by culture and then by type. -/
theorem compare_eq_lt_iff : a.compare b = .lt ↔
    a.culture < b.culture ∨ a.culture = b.culture ∧ a.type = .cardinal ∧ b.type = .ordinal := by
  have htype : Ord.compare (a.type == .ordinal) (b.type == .ordinal) = .lt ↔
      a.type = .cardinal ∧ b.type = .ordinal := by
    cases a.type <;> cases b.type <;> decide
  rw [compare, Ordering.then_eq_lt, htype]
  exact or_congr compare_lt_iff_lt (and_congr_left fun _ => compare_eq_iff_eq)

/-- Only equal keys are on a par. -/
theorem compare_eq_eq_iff : a.compare b = .eq ↔ a = b := by
  have htype : Ord.compare (a.type == .ordinal) (b.type == .ordinal) = .eq ↔ a.type = b.type := by
    cases a.type <;> cases b.type <;> decide
  rw [compare, Ordering.then_eq_eq, htype, CatalogKey.mk.injEq]
  exact and_congr_left fun _ => compare_eq_iff_eq

theorem compare_eq_gt_iff : a.compare b = .gt ↔ b.compare a = .lt := by
  have htype : Ord.compare (a.type == .ordinal) (b.type == .ordinal) = .gt ↔
      b.type = .cardinal ∧ a.type = .ordinal := by
    cases a.type <;> cases b.type <;> decide
  rw [compare_eq_lt_iff, compare, Ordering.then_eq_gt, htype]
  exact or_congr compare_gt_iff_gt (and_congr_left fun _ => compare_eq_iff_eq.trans eq_comm)

/-- The order of keys is transitive. -/
theorem compare_trans (hab : a.compare b = .lt) (hbc : b.compare c = .lt) : a.compare c = .lt := by
  rw [compare_eq_lt_iff] at *
  rcases hab with hab | ⟨hab, hcardinal, -⟩
  · rcases hbc with hbc | ⟨hbc, -, -⟩
    · exact Or.inl (hab.trans hbc)
    · exact Or.inl (hbc ▸ hab)
  · rcases hbc with hbc | ⟨hbc, -, hordinal⟩
    · exact Or.inl (hab ▸ hbc)
    · exact Or.inr ⟨hab.trans hbc, hcardinal, hordinal⟩

end CatalogKey

/-! ### Putting a text under a key -/

namespace Catalog

def Ascending (sources : List (CatalogKey × Source)) : Prop :=
  (sources.map Prod.fst).Pairwise fun a b => a.compare b = .lt

variable {key other : CatalogKey} {source : Source} {sources : List (CatalogKey × Source)}

/-- A text is found under its key, and nothing else changes. -/
theorem lookup_insertSource : (insertSource key source sources).lookup other =
    if other = key then some source else sources.lookup other := by
  have hcons : ∀ (k : CatalogKey) (s : Source) (more : List (CatalogKey × Source)),
      ((k, s) :: more).lookup other = if other = k then some s else more.lookup other := by
    intro k s more
    by_cases h : other = k
    · rw [h, List.lookup_cons_self, if_pos rfl]
    · rw [if_neg h, List.lookup_cons, beq_false_of_ne h]
  induction sources with
  | nil => exact hcons key source []
  | cons head more ih =>
    obtain ⟨first, old⟩ := head
    rw [insertSource]
    cases hcompare : key.compare first with
    | lt => exact hcons key source _
    | eq =>
      obtain rfl := CatalogKey.compare_eq_eq_iff.mp hcompare
      show List.lookup other ((key, source) :: more) = _
      rw [hcons, hcons]
      split <;> rfl
    | gt =>
      -- further down the key is not the first one, whose text stays
      have hne : key ≠ first := by
        rintro rfl
        rw [CatalogKey.compare_eq_eq_iff.mpr rfl] at hcompare
        cases hcompare
      show List.lookup other ((first, old) :: insertSource key source more) = _
      rw [hcons, hcons, ih]
      by_cases hother : other = key
      · rw [if_pos hother, if_pos hother, if_neg (hother ▸ hne)]
      · rw [if_neg hother, if_neg hother]

/-- A key is among the texts exactly if there is a text under it. -/
theorem mem_keys_iff : other ∈ sources.map Prod.fst ↔ (sources.lookup other).isSome = true := by
  rw [List.lookup_isSome_iff, List.mem_map]
  refine exists_congr fun entry => and_congr_right fun _ => ?_
  rw [beq_iff_eq, eq_comm]

theorem mem_keys_insertSource (h : other ∈ (insertSource key source sources).map Prod.fst) :
    other = key ∨ other ∈ sources.map Prod.fst := by
  rw [mem_keys_iff, lookup_insertSource] at h
  rw [mem_keys_iff]
  split at h
  · exact Or.inl ‹_›
  · exact Or.inr h

/-- Putting a text under a key keeps the keys ascending. -/
theorem Ascending.insertSource (h : Ascending sources) :
    Ascending (insertSource key source sources) := by
  induction sources with
  | nil => exact List.pairwise_singleton _ key
  | cons head more ih =>
    obtain ⟨first, old⟩ := head
    obtain ⟨hfirst, hmore⟩ := List.pairwise_cons.mp h
    rw [Catalog.insertSource]
    cases hcompare : key.compare first with
    | lt =>
      refine List.pairwise_cons.mpr ⟨?_, h⟩
      rintro k (_ | ⟨_, hk⟩)
      · exact hcompare
      · exact CatalogKey.compare_trans hcompare (hfirst k hk)
    | eq =>
      obtain rfl := CatalogKey.compare_eq_eq_iff.mp hcompare
      exact h
    | gt =>
      refine List.pairwise_cons.mpr ⟨?_, ih hmore⟩
      intro k hk
      rcases mem_keys_insertSource hk with rfl | hk
      · exact CatalogKey.compare_eq_gt_iff.mp hcompare
      · exact hfirst k hk

/-! ### Cultures in order -/

/-- The only strictly ascending list of the elements of a set. -/
theorem eq_sort_of_pairwise_lt {l : List String} {s : Finset String} (h : l.Pairwise (· < ·))
    (hmem : ∀ x, x ∈ l ↔ x ∈ s) : l = s.sort := by
  have hset : l.toFinset = s := Finset.ext fun x => List.mem_toFinset.trans (hmem x)
  rw [← hset]
  exact ((List.toFinset_sort (· ≤ ·) (h.imp ne_of_lt)).mpr (h.imp le_of_lt)).symm

/-- Without its repetitions, an ascending list ascends strictly. -/
theorem pairwise_lt_eraseDups : ∀ {l : List String}, l.Pairwise (· ≤ ·) →
    l.eraseDups.Pairwise (· < ·)
  | [], _ => .nil
  | name :: more, h => by
    obtain ⟨hname, hmore⟩ := List.pairwise_cons.mp h
    rw [List.eraseDups_cons]
    refine List.pairwise_cons.mpr ⟨fun other hother => ?_, pairwise_lt_eraseDups (hmore.filter _)⟩
    obtain ⟨hmem, hne⟩ := List.mem_filter.mp (List.mem_eraseDups.mp hother)
    exact lt_of_le_of_ne (hname other hmem) fun heq => by simp [heq] at hne
termination_by l => l.length
decreasing_by exact Nat.lt_succ_of_le (List.length_filter_le _ more)

variable {catalog : Catalog} {keys : Finset CatalogKey}

/-- The cultures of a catalog are listed in strictly ascending order. -/
theorem cultures_eq (h : Ascending catalog.sources)
    (hkeys : ∀ k, k ∈ catalog.sources.map Prod.fst ↔ k ∈ keys) :
    catalog.cultures = (keys.image CatalogKey.culture).sort := by
  have hmap : catalog.cultures =
      ((catalog.sources.map Prod.fst).map CatalogKey.culture).eraseDups := by
    rw [cultures, List.map_map]
    rfl
  have hle : ((catalog.sources.map Prod.fst).map CatalogKey.culture).Pairwise (· ≤ ·) := by
    refine List.pairwise_map.mpr (h.imp fun hlt => ?_)
    rcases CatalogKey.compare_eq_lt_iff.mp hlt with hlt | ⟨heq, -⟩
    · exact hlt.le
    · exact heq.le
  rw [hmap]
  refine eq_sort_of_pairwise_lt (pairwise_lt_eraseDups hle) fun name => ?_
  simp only [List.mem_eraseDups, List.mem_map (f := CatalogKey.culture), Finset.mem_image, hkeys]

/-- The cultures that have a text of a type are listed in strictly ascending order. -/
theorem culturesOf_eq (h : Ascending catalog.sources)
    (hkeys : ∀ k, k ∈ catalog.sources.map Prod.fst ↔ k ∈ keys) (type : PluralType) :
    catalog.culturesOf type = ((keys.filter (·.type = type)).image CatalogKey.culture).sort := by
  have hmap : catalog.culturesOf type =
      ((catalog.sources.map Prod.fst).filter (·.type = type)).map CatalogKey.culture := by
    rw [culturesOf, List.filter_map, List.map_map]
    rfl
  -- two keys of the same type are told apart by their cultures
  have hlt : ((catalog.sources.map Prod.fst).filter (·.type = type)).Pairwise
      fun a b => a.culture < b.culture := by
    refine List.Pairwise.imp_of_mem ?_ (h.filter _)
    intro a b ha hb hcompare
    obtain ⟨-, ha⟩ := List.mem_filter.mp ha
    obtain ⟨-, hb⟩ := List.mem_filter.mp hb
    rcases CatalogKey.compare_eq_lt_iff.mp hcompare with hlt | ⟨-, hcardinal, hordinal⟩
    · exact hlt
    · rw [← of_decide_eq_true ha, hcardinal, hordinal] at hb
      cases of_decide_eq_true hb
  rw [hmap]
  refine eq_sort_of_pairwise_lt (List.pairwise_map.mpr hlt) fun name => ?_
  simp only [List.mem_map, List.mem_filter, Finset.mem_image, Finset.mem_filter, hkeys,
    decide_eq_true_eq]

end Catalog

end PluralRules
