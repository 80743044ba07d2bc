import PluralRules.Proofs.Doubts

/-!
# What the selectors of a catalog are for

A selector is not told which culture and type it is for. It takes them from its first clause, and
the clause has them from its rule. A catalog keeps only rules for the key that a text was put under,
so whichever rule comes first after all that grouping, filling in and reordering, its label names
that key in some spelling.

That leaves the texts that have no rule for their key, but comments, headers, and lines for other
keys or with faults. Their selectors have no clauses and name nothing, and neither do the errors
that these fail with (`Catalog.not_isFor_of_comment`). All other selectors and errors name the key
(`Catalog.isFor_of_selector`).
-/

namespace PluralRules

/-! ### The rule that a selector is named for -/

namespace Selector

variable {rules : List Rule} {selector : Selector}

/-- A selector is for a culture, in any spelling, and for a type of counting. -/
def IsFor (selector : Selector) (culture : String) (type : PluralType) : Prop :=
  Culture.canonical selector.culture = Culture.canonical culture ∧ selector.type = some type

/-- A selector takes its culture and its type from one of its clauses. -/
theorem exists_clause_of_ofClauses {clauses : List Clause} (hne : clauses ≠ []) :
    ∃ clause ∈ clauses, (ofClauses clauses).culture = clause.label.culture ∧
      (ofClauses clauses).type = clause.label.type := by
  unfold ofClauses
  dsimp only
  split
  · next first hfirst =>
    rcases List.mem_append.mp (List.mem_of_head? hfirst) with hmem | hmem
    · exact ⟨first, List.mem_of_mem_filter hmem, rfl, rfl⟩
    · exact ⟨first, List.mem_of_mem_filter hmem, rfl, rfl⟩
  · next hnone =>
    obtain ⟨clause, hclause⟩ := List.exists_mem_of_ne_nil clauses hne
    simp only [List.head?_eq_none_iff, List.append_eq_nil_iff, List.filter_eq_nil_iff] at hnone
    exact absurd (hnone.1 clause hclause) (by simpa using hnone.2 clause hclause)

/-- The culture and the type of a selector are those of one of its rules. -/
theorem exists_rule_of_ofRules (hne : rules ≠ []) (h : ofRules rules = .ok selector) :
    ∃ rule ∈ rules, selector.culture = rule.label.culture ∧ selector.type = rule.label.type := by
  obtain ⟨clauses, hall, rfl⟩ := ofRules_eq_ok.mp h
  have hlabels : ∀ clause ∈ clauses, ∃ rule ∈ rules, clause.label = rule.label :=
    forall_right hall fun rule hrule clause hclause => ⟨rule, hrule, Clause.label_of_ofRule hclause⟩
  have hclauses : clauses ≠ [] := by
    rintro rfl
    exact hne (List.forall₂_nil_right_iff.mp hall)
  obtain ⟨clause, hmem, hculture, htype⟩ := exists_clause_of_ofClauses hclauses
  obtain ⟨rule, hrule, hlabel⟩ := hlabels clause hmem
  exact ⟨rule, hrule, hlabel ▸ hculture, hlabel ▸ htype⟩

end Selector

/-! ### Errors that name what was asked for -/

/-- If there is no rule, the error says so for this culture and type. -/
def SelectError.IsAbout (culture : String) (type : PluralType) : SelectError → Prop
  | noRules name asked _ => name = culture ∧ asked = some type
  | _ => True

section Errors

variable {culture : String} {type : PluralType}

/-- A clause never says that there are no rules. -/
theorem Clause.failsOnly_takes (clause : Clause) (q : Quantity) :
    FailsOnly (SelectError.IsAbout culture type) (clause.takes q) := by
  unfold takes
  cases clause.predicate.eval q with
  | error e => exact trivial
  | ok b => exact trivial

/-- Only a selector without clauses fails for want of rules. -/
theorem Selector.failsOnly_select {selector : Selector} (hne : selector.clauses ≠ [])
    (q : Quantity) : FailsOnly (SelectError.IsAbout culture type) (selector.select q) := by
  have hclauses : selector.clauses.isEmpty = false := by simpa using hne
  rw [select, choose, hclauses]
  exact (Clause.failsOnly_firstTaking? fun clause _ => clause.failsOnly_takes q).map

theorem Selector.failsOnly_ofRules (rules : List Rule) :
    FailsOnly (SelectError.IsAbout culture type) (ofRules rules) := by
  refine (failsOnly_mapM fun rule _ => ?_).map
  unfold Clause.ofRule
  split
  · exact trivial
  · split <;> exact trivial

/-- A ledger says of what was asked for that there is no text for it. -/
theorem Ledger.failsOnly_selector (ledger : Ledger) :
    FailsOnly (SelectError.IsAbout culture type) (ledger.selector culture type) := by
  unfold Ledger.selector
  dsimp only
  split
  · exact ⟨rfl, rfl⟩
  · unfold build
    dsimp only
    split
    · exact trivial
    · exact Selector.failsOnly_ofRules _

end Errors

/-! ### Selectors of a catalog -/

namespace Catalog

variable {settings : Settings} {requests : List Request} {culture : String} {type : PluralType}
  {selector : Selector}

/-- If there are no rules for a key, the error is about that key. -/
theorem failsOnly_selector : FailsOnly (SelectError.IsAbout culture type)
    ((after { settings } requests).selector culture type).answer := by
  rw [(((represents_empty settings).after requests).selector culture type).1]
  exact Ledger.failsOnly_selector _

/-- What a selector was made of. -/
theorem exists_text_of_selector
    (h : ((after { settings } requests).selector culture type).answer = .ok selector) :
    ∃ text, ((after { settings } requests).source? (.of culture type)).map Source.text = some text ∧
      Selector.ofRules (kept (.of culture type) text) = .ok selector := by
  have hrepresents := (represents_empty settings).after requests
  rw [(hrepresents.selector culture type).1, Ledger.selector] at h
  rw [hrepresents.text]
  split at h
  · cases h
  · next text hlookup =>
    rw [Ledger.build] at h
    split at h
    · cases h
    · exact ⟨text, hlookup, h⟩

/-- Whatever rules are kept under a key, their selector is for it. -/
theorem isFor_of_ofRules {text : String} (hne : kept (.of culture type) text ≠ [])
    (h : Selector.ofRules (kept (.of culture type) text) = .ok selector) :
    selector.IsFor culture type := by
  obtain ⟨rule, hrule, hculture, htype⟩ := Selector.exists_rule_of_ofRules hne h
  have hkey := groupKey_of_mem_kept hrule
  rw [Rule.groupKey, Rule.GroupKey.mk.injEq, ← hculture, ← htype] at hkey
  exact hkey

/-- The selector of a text that has no rule for its key names nothing. -/
theorem eq_of_kept_eq_nil {text : String}
    (htext : ((after { settings } requests).source? (.of culture type)).map Source.text = some text)
    (hkept : kept (.of culture type) text = [])
    (h : ((after { settings } requests).selector culture type).answer = .ok selector) :
    selector = ⟨"", none, []⟩ ∧ ∀ q,
      ((after { settings } requests).select culture type q).answer =
        .error (.noRules "" none []) := by
  obtain ⟨text', htext', hselector⟩ := exists_text_of_selector h
  obtain rfl : text = text' := Option.some.inj (htext.symm.trans htext')
  rw [hkept] at hselector
  cases hselector
  refine ⟨rfl, fun q => ?_⟩
  rw [select]
  dsimp only
  rw [h]
  rfl

/-- Where there is a rule for the key, selecting a case fails only with errors about the key. -/
theorem failsOnly_select (hkept : ∀ text,
      ((after { settings } requests).source? (.of culture type)).map Source.text = some text →
        kept (.of culture type) text ≠ []) (q : Quantity) :
    FailsOnly (SelectError.IsAbout culture type)
      ((after { settings } requests).select culture type q).answer := by
  have hselector : FailsOnly (SelectError.IsAbout culture type)
      ((after { settings } requests).selector culture type).answer := failsOnly_selector
  rw [select]
  cases hanswer : ((after { settings } requests).selector culture type).answer with
  | error error =>
    rw [hanswer] at hselector
    exact hselector
  | ok selector =>
    obtain ⟨text, htext, hofRules⟩ := exists_text_of_selector hanswer
    exact Selector.failsOnly_select (Selector.clauses_ne_nil (hkept text htext) hofRules) q

/-- What a catalog answers for a culture and a type names both, unless there is a text for them that
has no rule for them. A selector is for that culture and that type. And where selecting a case fails
because there are no rules, the error names the culture and the type that were asked for. -/
theorem isFor_of_selector (hkept : ∀ text,
      ((after { settings } requests).source? (.of culture type)).map Source.text = some text →
        kept (.of culture type) text ≠ []) :
    let catalog := after { settings } requests
    (∀ selector, (catalog.selector culture type).answer = .ok selector →
      selector.IsFor culture type) ∧
    (∀ q name asked suggestions,
      (catalog.select culture type q).answer = .error (.noRules name asked suggestions) →
        name = culture ∧ asked = some type) ∧
    ∀ number name asked suggestions,
      (catalog.selectText culture type number).answer = .error (.noRules name asked suggestions) →
        name = culture ∧ asked = some type := by
  intro catalog
  have hnames : ∀ {q name asked suggestions},
      (catalog.select culture type q).answer = .error (.noRules name asked suggestions) →
        name = culture ∧ asked = some type := by
    intro q name asked suggestions h
    have herror := failsOnly_select hkept q
    rwa [h] at herror
  refine ⟨fun selector h => ?_, fun q _ _ _ => hnames, fun number name asked suggestions h => ?_⟩
  · obtain ⟨text, htext, hofRules⟩ := exists_text_of_selector h
    exact isFor_of_ofRules (hkept text htext) hofRules
  · unfold selectText at h
    split at h
    · cases h
    · exact hnames h

/-- A catch-all that leaves culture and type to the key, a rule that names the culture in the
canonical spelling, which the requests do not use, and a rule for another culture. -/
theorem isFor_of_selector_of_spellings :
    let text := "other\n[Culture=en-US] few: n = 2\n[Culture=fr] one: n = 1"
    let catalog := after { settings := {} } [.add "EN-us" .ordinal text]
    ∃ selector, (catalog.selector "en-us" .ordinal).answer = .ok selector ∧
      selector.cases = ["few", "other"] ∧ selector.IsFor "en-us" .ordinal := by
  intro text catalog
  have hkept : ∀ text', (catalog.source? (.of "en-us" .ordinal)).map Source.text = some text' →
      kept (.of "en-us" .ordinal) text' ≠ [] := by
    intro text' htext
    have hadded : (catalog.source? (.of "en-us" .ordinal)).map Source.text = some text := by
      decide +kernel
    obtain rfl : text = text' := Option.some.inj (hadded.symm.trans htext)
    decide +kernel
  let label : Label := { type := some .ordinal, culture := "en-US" }
  let few : Expr := .binary (.relation .eq) (.operand "n") (.literal (.ofInt 2))
  have hselector : (catalog.selector "en-us" .ordinal).answer = .ok ⟨"en-US", some .ordinal,
      [⟨{ label with case := "few" }, .condition few⟩,
       ⟨{ label with case := "other" }, .always⟩]⟩ := by
    decide +kernel
  exact ⟨_, hselector, rfl, (isFor_of_selector hkept).1 _ hselector⟩

/-- A text with nothing but a comment has a selector that is for nothing, and selecting a case fails
with an error that names nothing. -/
theorem not_isFor_of_comment :
    let catalog (text : String) := after { settings := {} } [.add "en" .cardinal text]
    (¬ ∀ text selector, ((catalog text).selector "en" .cardinal).answer = .ok selector →
      selector.IsFor "en" .cardinal) ∧
    ¬ ∀ text q name asked suggestions,
      ((catalog text).select "en" .cardinal q).answer = .error (.noRules name asked suggestions) →
        name = "en" ∧ asked = some .cardinal := by
  intro catalog
  let text := "# no rules"
  have htext : ((catalog text).source? (.of "en" .cardinal)).map Source.text = some text := by
    decide +kernel
  have hselector : ((catalog text).selector "en" .cardinal).answer = .ok ⟨"", none, []⟩ := by
    decide +kernel
  obtain ⟨-, hselect⟩ := eq_of_kept_eq_nil htext (by decide +kernel) hselector
  constructor
  · intro h
    obtain ⟨-, htype⟩ := h text _ hselector
    cases htype
  · intro h
    obtain ⟨-, htype⟩ := h text (.ofInt 1) "" none [] (hselect _)
    cases htype

end Catalog

end PluralRules
