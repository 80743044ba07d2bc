import PluralRules.Proofs.Checks
import PluralRules.Proofs.LineOrder

/-!
# What a catalog doubts

A catalog that verifies samples checks the rules that it keeps for a key before it makes a selector
of them. It checks them in the order in which the sheet lists them, and the selector moves the
catch-alls behind the others. Where the catch-alls are behind the others already, both orders are
the same, and the findings can be relied on (`Catalog.doubts_of_selector`).

Otherwise they can not (`Catalog.not_doubts_of_early_catchAll`). In the rules of a sheet a catch-all
is the last of its group, but rules of another group may follow, which are for the same key in the
end.
-/

namespace PluralRules

/-! ### Findings among events -/

namespace Event

def finding? : Event → Option Finding
  | doubtful _ finding => some finding
  | _ => none

/-- The findings can be read off the events that report them. -/
theorem findings_doubtful (culture : String) (findings : List Finding) :
    (findings.map (doubtful culture)).filterMap finding? = findings := by
  rw [List.filterMap_map]
  exact List.filterMap_some

variable {events : List Event} (h : ∀ event ∈ events, event.finding? = none) (more : List Event)
include h

/-- Events that report no finding do not matter before others. -/
theorem findings_append_left : (events ++ more).filterMap finding? = more.filterMap finding? := by
  rw [List.filterMap_append, List.filterMap_eq_nil_iff.mpr h, List.nil_append]

theorem findings_append_right : (more ++ events).filterMap finding? = more.filterMap finding? := by
  rw [List.filterMap_append, List.filterMap_eq_nil_iff.mpr h, List.append_nil]

end Event

namespace Catalog

variable {catalog : Catalog} {culture : String} {type : PluralType} {text : String}
  {selector : Selector} {key : CatalogKey}

/-- All rules that are kept for a key are in the group of the key. -/
theorem groupKey_of_mem_kept {rule : Rule} (h : rule ∈ kept key text) :
    rule.groupKey = ⟨key.culture, some key.type⟩ := by
  rw [kept_eq] at h
  exact beq_iff_eq.mp (List.mem_filter.mp h).2

/-- All rules that are kept are one group. -/
theorem mem_groups_kept (hne : kept key text ≠ []) :
    kept key text ∈ Rule.groups (kept key text) := by
  obtain ⟨first, hfirst⟩ := List.exists_mem_of_ne_nil _ hne
  refine Rule.mem_groups.mpr ⟨first, hfirst, (List.filter_eq_self.mpr fun rule hrule => ?_).symm⟩
  rw [groupKey_of_mem_kept hrule, groupKey_of_mem_kept hfirst]
  exact beq_self_eq_true _

/-- If the catch-alls come last anyway, the clauses stand in the order of the rules that are
kept. -/
theorem aligned_kept (hne : kept key text ≠ [])
    (hlast : (kept key text).Pairwise fun a b => a.isCatchAll = true → b.isCatchAll = true)
    (h : Selector.ofRules (kept key text) = .ok selector) :
    Lint.Aligned (kept key text) (kept key text) selector where
  lines := by
    have hlines : ((Sheet.parse text).rules.map (·.fillFrom key.label)).map Rule.line =
        (Sheet.parse text).rules.map Rule.line := List.map_map
    have hnodup := Sheet.nodup_lines text.toList
    rw [kept_eq]
    refine List.Nodup.sublist (List.filter_sublist.map _) ?_
    rw [hlines]
    exact hnodup
  samples := by
    intro rule hrule
    rw [kept_eq] at hrule
    obtain ⟨own, hown, rfl⟩ := List.mem_map.mp (List.mem_of_mem_filter hrule)
    show ∀ samples ∈ own.samples, samples.IsPrintable
    exact Sheet.isPrintable_of_mem_rules hown
  mem_groups := mem_groups_kept hne
  clauses := Selector.forall₂_of_catchAlls_last hlast h

/-- What is made of rules, and what is found meanwhile. -/
theorem findings_of_ofRules {settings : Settings} (pool : Pool) (key : CatalogKey)
    (rules : List Rule) (hverify : settings.verifySamples = true) :
    (ofRules settings pool key rules).result = Selector.ofRules rules ∧
      (ofRules settings pool key rules).events.filterMap Event.finding? = Lint.findings rules := by
  refine ⟨by rw [ofRules, value_shareRules], ?_⟩
  unfold ofRules
  dsimp only
  rw [hverify, if_pos rfl, Event.findings_append_right, Event.findings_append_right,
    Event.findings_doubtful]
  · exact List.forall_mem_map.mpr fun _ _ => rfl
  · split <;> simp [Event.finding?]

/-- What is made of a text that can be read, and what is found meanwhile. -/
theorem findings_of_read {settings : Settings} {pool : Pool}
    (hverify : settings.verifySamples = true)
    (h : (read settings pool key text).result = .ok selector) :
    Selector.ofRules (kept key text) = .ok selector ∧
      (read settings pool key text).events.filterMap Event.finding? =
        Lint.findings (kept key text) := by
  unfold read at h ⊢
  dsimp only at h ⊢
  split at h
  · cases h
  · next hfault =>
    rw [if_neg hfault]
    obtain ⟨hresult, hevents⟩ := findings_of_ofRules pool key (kept key text) hverify
    -- what is reported about faults and about other keys is no finding
    refine ⟨hresult.symm.trans h, (Event.findings_append_left ?_ _).trans hevents⟩
    simp only [List.forall_mem_append, List.forall_mem_map]
    exact ⟨⟨fun _ _ => rfl, fun _ _ => rfl⟩, fun _ _ => rfl⟩

/-- What a catalog makes of a text that it has not read yet, and what it finds meanwhile. -/
theorem findings_of_selector (hverify : catalog.settings.verifySamples = true)
    (hsource : catalog.source? (.of culture type) = some ⟨text, none⟩)
    (h : (catalog.selector culture type).answer = .ok selector) :
    Selector.ofRules (kept (.of culture type) text) = .ok selector ∧
      (catalog.selector culture type).events.filterMap Event.finding? =
        Lint.findings (kept (.of culture type) text) := by
  have hanswer : (catalog.selector culture type).answer =
      (read catalog.settings catalog.pool (.of culture type) text).result := by
    unfold Catalog.selector
    dsimp only
    rw [hsource]
  have hevents : (catalog.selector culture type).events =
      (read catalog.settings catalog.pool (.of culture type) text).events := by
    unfold Catalog.selector
    dsimp only
    rw [hsource]
  rw [hevents]
  exact findings_of_read hverify (hanswer.symm.trans h)

/-- The findings of a catalog that verifies samples can be relied on if the catch-alls are behind
the other rules that are kept. If nothing is found about a sample, every number that a rule lists
has the case of that rule. And if a sample is found to be shadowed by an earlier case, that case is
the one that it has. -/
theorem doubts_of_selector (hverify : catalog.settings.verifySamples = true)
    (hsource : catalog.source? (.of culture type) = some ⟨text, none⟩)
    (h : (catalog.selector culture type).answer = .ok selector)
    (hlast : (kept (.of culture type) text).Pairwise fun a b => a.isCatchAll = true →
      b.isCatchAll = true) :
    let found := (catalog.selector culture type).events.filterMap Event.finding?
    ((∀ finding ∈ found, finding.site? = none) →
      ∀ rule ∈ kept (.of culture type) text, ∀ q, rule.Lists FitsInt64 q →
        selector.select q = .ok rule.case) ∧
    ∀ site earlier, .shadowed site earlier ∈ found → selector.select site.number = .ok earlier := by
  intro found
  obtain ⟨hselector, hfound⟩ := findings_of_selector hverify hsource h
  have hmem :
      ∀ {finding}, finding ∈ found ↔ finding ∈ Lint.findings (kept (.of culture type) text) := by
    rw [← hfound]
  have haligned := fun hne => aligned_kept hne hlast hselector
  constructor
  · intro hsilent rule hrule q hq
    obtain ⟨i, hi⟩ := List.getElem?_of_mem hrule
    have hrules := haligned (List.ne_nil_of_mem hrule)
    refine hrules.select_of_stopsAt hi ((hrules.silent_iff hi hq).mp fun finding hfinding => ?_)
    rw [hsilent finding (hmem.mpr hfinding)]
    nofun
  · intro site earlier hshadowed
    obtain ⟨rule, hrule, q, rfl⟩ := Lint.exists_rule_of_site (hmem.mp hshadowed) rfl
    obtain ⟨i, hi⟩ := List.getElem?_of_mem hrule
    exact (haligned (List.ne_nil_of_mem hrule)).select_of_shadowed hi (hmem.mp hshadowed)

/-- Two headers with nothing to be found about the samples, and a sample that an earlier rule
takes. -/
theorem doubts_of_selector_of_headers :
    let catalog (text : String) :=
      ({ settings := { verifySamples := true } } : Catalog).add "en" .cardinal text
    let text :=
      "[Culture=EN]\none: n = 1 @integer 1\n[Category=cardinal]\nfew: n = 2..4 @integer 2~4\nother"
    (∃ selector, ((catalog text).selector "en" .cardinal).answer = .ok selector ∧
      ∀ rule ∈ kept (.of "en" .cardinal) text, ∀ q, rule.Lists FitsInt64 q →
        selector.select q = .ok rule.case) ∧
    ∃ selector,
      ((catalog "one: n = 1\nfew: n = 1..4 @integer 1\nother").selector "en" .cardinal).answer =
      .ok selector ∧ selector.select (.ofInt 1) = .ok "one" := by
  intro catalog text
  let label : Label := { type := some .cardinal, culture := "en" }
  let within (least greatest : ℤ) : Predicate := .condition (.binary (.relation .eq) (.operand "n")
    (.range (.ofInt least) (.ofInt greatest)))
  let selector (culture : String) (few : Predicate) : Selector :=
    ⟨culture, some .cardinal, [⟨{ label with culture, case := "one" }, .one⟩,
      ⟨{ label with case := "few" }, few⟩, ⟨{ label with case := "other" }, .always⟩]⟩
  have hsource (text : String) : (catalog text).source? (.of "en" .cardinal) = some { text } :=
    lookup_insertSource.trans (if_pos rfl)
  constructor
  · have hselector :
        ((catalog text).selector "en" .cardinal).answer = .ok (selector "EN" (within 2 4)) := by
      decide +kernel
    have hdoubts := doubts_of_selector rfl (hsource text) hselector (by decide +kernel)
    exact ⟨_, hselector, hdoubts.1 (by decide +kernel)⟩
  · let text := "one: n = 1\nfew: n = 1..4 @integer 1\nother"
    have hselector :
        ((catalog text).selector "en" .cardinal).answer = .ok (selector "en" (within 1 4)) := by
      decide +kernel
    have hdoubts := doubts_of_selector rfl (hsource text) hselector (by decide +kernel)
    exact ⟨_, hselector, hdoubts.2 ⟨2, "few", .ofInt 1⟩ "one" (by decide +kernel)⟩

/-- A catch-all of an earlier group makes the findings wrong both ways. A sample of the catch-all is
not found to be shadowed, though a later rule takes it, and a sample of that rule is found to be
shadowed, though it is not. -/
theorem not_doubts_of_early_catchAll :
    let reply (text : String) :=
      (({ settings := { verifySamples := true } } : Catalog).add "en" .cardinal text).selector
        "en" .cardinal
    (¬ ∀ (text : String) (selector : Selector), (reply text).answer = .ok selector →
      (∀ finding ∈ (reply text).events.filterMap Event.finding?, finding.site? = none) →
        ∀ rule ∈ kept (.of "en" .cardinal) text, ∀ q, rule.Lists FitsInt64 q →
          selector.select q = .ok rule.case) ∧
    ¬ ∀ (text : String) (selector : Selector), (reply text).answer = .ok selector →
      ∀ site earlier, .shadowed site earlier ∈ (reply text).events.filterMap Event.finding? →
        selector.select site.number = .ok earlier := by
  intro reply
  let label : Label := { type := some .cardinal, culture := "en" }
  let five : Expr := .binary (.relation .eq) (.operand "n") (.literal (.ofInt 5))
  -- the selector of both texts
  let selector : Selector := ⟨"en", some .cardinal,
    [⟨{ label with case := "few" }, .condition five⟩, ⟨{ label with case := "other" }, .always⟩]⟩
  constructor
  · intro h
    let text := "other @integer 5\n[Culture=en] few: n = 5"
    let other : Rule :=
      ⟨{ label with case := "other" }, none, [⟨"integer", [.single (.ofInt 5)]⟩], 1⟩
    have hlists : other.Lists FitsInt64 (.ofInt 5) :=
      ⟨_, List.mem_cons_self, _, List.mem_cons_self, .single _⟩
    have hselect :=
      h text selector (by decide +kernel) (by decide +kernel) other (by decide +kernel) _ hlists
    exact absurd hselect (by decide +kernel)
  · intro h
    let text := "other\n[Culture=en] few: n = 5 @integer 5"
    have hselect :=
      h text selector (by decide +kernel) ⟨2, "few", .ofInt 5⟩ "other" (by decide +kernel)
    exact absurd hselect (by decide +kernel)

end Catalog

end PluralRules
