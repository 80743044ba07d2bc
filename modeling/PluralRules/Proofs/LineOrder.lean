import PluralRules.Proofs.Labels
import PluralRules.Proofs.Ledger
import PluralRules.Proofs.Selection
import PluralRules.Proofs.Sheets

/-!
# The order of lines

A catalog takes the rules of a text in the order of their groups, and the groups are those of the
labels as the lines and the headers give them. What a label leaves to the key of the text is filled
in later, when all rules have the same key, and the groups are then no longer to be seen. So where
lines of one group stand apart, with lines of another group between them, the clauses of the
selector are not in the order of the lines (`Catalog.not_selector_of_lines_apart`).

Where the lines of each group stand together, grouping moves nothing but catch-alls
(`Rule.filter_grouped`), which come last in any case (`Selector.ofRules_congr`). The clauses are
then in the order of the lines, whatever the lines say of the culture and the type themselves
(`Catalog.selector_of_lines`).
-/

namespace PluralRules

/-! ### Groups that stand together -/

namespace Rule

variable {rules : List Rule}

/-- No line of another group stands between two lines of a group. -/
def GroupsTogether (rules : List Rule) : Prop := ∀ a ∈ rules, ∀ b ∈ rules, ∀ c ∈ rules,
  a.line < b.line → b.line < c.line → a.groupKey = c.groupKey → b.groupKey = a.groupKey

instance : DecidablePred GroupsTogether := fun rules =>
  inferInstanceAs (Decidable (∀ a ∈ rules, ∀ b ∈ rules, ∀ c ∈ rules,
    a.line < b.line → b.line < c.line → a.groupKey = c.groupKey → b.groupKey = a.groupKey))

/-- No two rules come from one line. -/
theorem eq_of_line_eq {a b : Rule} (hlines : rules.Pairwise (·.line < ·.line)) (ha : a ∈ rules)
    (hb : b ∈ rules) (h : a.line = b.line) : a = b :=
  List.inj_on_of_nodup_map (List.pairwise_map.mpr (hlines.imp Nat.ne_of_lt)) ha hb h

/-- Where groups stand together, one of them begins earlier only if all its lines come earlier. -/
theorem Precedes.line_lt {a b : Rule} (h : Precedes rules a b)
    (hlines : rules.Pairwise (·.line < ·.line))
    (htogether : GroupsTogether rules) (ha : a ∈ rules) (hb : b ∈ rules)
    (hcatchAll : a.isCatchAll = b.isCatchAll) : a.line < b.line := by
  by_cases hkey : a.groupKey = b.groupKey
  · exact h.line hkey hcatchAll
  · obtain ⟨first, hfirst, hfirstKey, hbefore⟩ := h.group hkey
    have hne : a.line ≠ b.line :=
      fun heq => hkey (congrArg groupKey (eq_of_line_eq hlines ha hb heq))
    by_contra hle
    have hlt : b.line < a.line := by omega
    exact hkey
      ((htogether first hfirst b hb a ha (hbefore b hb rfl) hlt hfirstKey).trans hfirstKey).symm

/-- Where groups stand together, grouping leaves the catch-alls in order, and the other rules
too. -/
theorem filter_grouped {p : Rule → Bool} (hlines : rules.Pairwise (·.line < ·.line))
    (htogether : GroupsTogether rules) (hp : ∀ a b, p a = true → p b = true →
      a.isCatchAll = b.isCatchAll) :
    (grouped rules).filter p = rules.filter p := by
  refine List.Perm.eq_of_pairwise (fun _ _ _ _ hab hba => absurd hba (Nat.lt_asymm hab)) ?_
    (hlines.filter p) ((grouped_perm hlines).filter p)
  refine ((pairwise_grouped hlines).filter p).imp_of_mem fun {a b} ha hb hab => ?_
  obtain ⟨ha, hpa⟩ := List.mem_filter.mp ha
  obtain ⟨hb, hpb⟩ := List.mem_filter.mp hb
  exact hab.line_lt hlines htogether (mem_grouped.mp ha) (mem_grouped.mp hb) (hp a b hpa hpb)

/-- Filling in a label makes no catch-all and unmakes none. -/
theorem isCatchAll_fillFrom_label (rule : Rule) (key : CatalogKey) :
    (rule.fillFrom key.label).isCatchAll = rule.isCatchAll := by
  show (rule.condition.isNone && Label.firstPresent rule.label.case "" == _) = _
  rw [Label.firstPresent_empty]
  rfl

end Rule

/-! ### Catch-alls may stand anywhere -/

namespace Selector

variable {rules rules' : List Rule}

def catchAllClause (rule : Rule) : Clause := ⟨rule.label, .always⟩

/-- The clauses other than catch-alls, and the catch-alls. -/
def parted (clauses : List Clause) : List Clause × List Clause :=
  (clauses.filter (!·.isCatchAll), clauses.filter (·.isCatchAll))

/-- A clause more is a clause more in one of the parts. -/
theorem map_parted_cons (clause : Clause) (x : Except SelectError (List Clause)) :
    (x >>= fun more => .ok (clause :: more)).map parted = (x.map parted).map fun parts =>
      if clause.isCatchAll then (parts.1, clause :: parts.2) else (clause :: parts.1, parts.2) := by
  cases x with
  | error error => rfl
  | ok clauses =>
    show Except.ok (parted (clause :: clauses)) = .ok _
    cases hcatchAll : clause.isCatchAll <;> simp [parted, hcatchAll]

/-- Whether rules have clauses is decided by the rules other than catch-alls, and so are these
clauses. -/
theorem map_parted_mapM (rules : List Rule) : (rules.mapM Clause.ofRule).map parted =
    ((rules.filter (!·.isCatchAll)).mapM Clause.ofRule).map fun clauses =>
      (clauses, (rules.filter (·.isCatchAll)).map catchAllClause) := by
  induction rules with
  | nil => rfl
  | cons rule rules ih =>
    rw [List.mapM_cons]
    cases hcatchAll : rule.isCatchAll with
    | true =>
      -- a catch-all always makes a clause, so it can be moved without moving an error
      have hclause : Clause.ofRule rule = .ok (catchAllClause rule) := by
        have hcondition : rule.condition = none :=
          Option.isNone_iff_eq_none.mp (Bool.and_eq_true_iff.mp hcatchAll).1
        rw [Clause.ofRule, hcondition]
        exact if_pos hcatchAll
      rw [hclause]
      refine (map_parted_cons (catchAllClause rule) _).trans ?_
      rw [ih]
      simp only [List.filter_cons, hcatchAll, Bool.not_true, Bool.false_eq_true, if_false, if_true]
      cases (rules.filter (!·.isCatchAll)).mapM Clause.ofRule <;> rfl
    | false =>
      simp only [List.filter_cons, hcatchAll, Bool.not_false, Bool.false_eq_true, if_false, if_true,
        List.mapM_cons]
      cases hclause : Clause.ofRule rule with
      | error error => rfl
      | ok clause =>
        refine (map_parted_cons clause _).trans ?_
        rw [ih, Clause.isCatchAll_of_ofRule hclause, hcatchAll]
        cases (rules.filter (!·.isCatchAll)).mapM Clause.ofRule <;> rfl

/-- The selector of rules depends on the rules other than catch-alls in their order, and on the
catch-alls in theirs. -/
theorem ofRules_congr (hrules : rules.filter (!·.isCatchAll) = rules'.filter (!·.isCatchAll))
    (hcatchAlls : rules.filter (·.isCatchAll) = rules'.filter (·.isCatchAll)) :
    ofRules rules = ofRules rules' := by
  have hparted := map_parted_mapM rules
  rw [hrules, hcatchAlls, ← map_parted_mapM rules'] at hparted
  have hclauses : ∀ {clauses clauses'}, parted clauses = parted clauses' →
      ofClauses clauses = ofClauses clauses' := by
    intro clauses clauses' h
    obtain ⟨hfirst, hsecond⟩ := Prod.mk.inj h
    simp only [ofClauses, hfirst, hsecond]
  unfold ofRules
  cases hresult : rules.mapM Clause.ofRule <;> cases hresult' : rules'.mapM Clause.ofRule <;>
    rw [hresult, hresult'] at hparted
  · exact congrArg Except.error (Except.error.inj hparted)
  · cases hparted
  · cases hparted
  · exact congrArg Except.ok (hclauses (Except.ok.inj hparted))

end Selector

/-! ### The selector of a text -/

/-- The rules of a text in the order of the lines, with their labels filled from the headers. -/
def Sheet.lineRules (text : String) : List Rule := rulesUnder {} (contributions text.toList)

/-- The rules of a text stand in the order of their lines. -/
theorem Sheet.pairwise_lineRules (text : String) : (lineRules text).Pairwise (·.line < ·.line) :=
  pairwise_ungrouped text.toList

namespace Catalog

variable {key : CatalogKey} {text : String} {culture : String} {type : PluralType}
  {settings : Settings} {requests : List Request}

/-- The rules of a text that a catalog keeps for a key. -/
def kept (key : CatalogKey) (text : String) : List Rule := (rulesFor key (Sheet.parse text)).1

/-- The rules that are kept for a key are those whose label, once filled in, is for the key. -/
theorem kept_eq (key : CatalogKey) (text : String) :
    kept key text = ((Sheet.parse text).rules.map (·.fillFrom key.label)).filter key.admits := by
  rw [kept, rulesFor, List.partition_eq_filter_filter]

/-- Where all lines are for the key of their text, and the groups stand together, the selector is
that of the rules in the order of the lines. -/
theorem ofRules_kept
    (hown : ∀ rule ∈ Sheet.lineRules text, key.admits (rule.fillFrom key.label) = true)
    (htogether : Rule.GroupsTogether (Sheet.lineRules text)) :
    Selector.ofRules (kept key text) =
      Selector.ofRules ((Sheet.lineRules text).map (·.fillFrom key.label)) := by
  have hlines := Sheet.pairwise_lineRules text
  have hkept :
      kept key text = (Rule.grouped (Sheet.lineRules text)).map (·.fillFrom key.label) := by
    rw [kept_eq]
    refine List.filter_eq_self.mpr (List.forall_mem_map.mpr fun rule hrule => ?_)
    exact hown rule (Rule.mem_grouped.mp hrule)
  rw [hkept]
  apply Selector.ofRules_congr <;>
    simp only [List.filter_map, Function.comp_def, Rule.isCatchAll_fillFrom_label] <;>
    rw [Rule.filter_grouped hlines htogether]
  · intro a b ha hb
    rw [Bool.not_eq_true'] at ha hb
    rw [ha, hb]
  · exact fun a b ha hb => ha.trans hb.symm

theorem strict_foldl_after (ledger : Ledger) (requests : List Request) :
    (requests.foldl Ledger.after ledger).strict = ledger.strict := by
  induction requests generalizing ledger with
  | nil => rfl
  | cons request more ih =>
    rw [List.foldl_cons, ih]
    cases request <;> rfl

/-- What a catalog makes of a text, unless it has a fault and the catalog is strict. -/
theorem selector_of_text
    (htext : ((after { settings } requests).source? (.of culture type)).map Source.text = some text)
    (hread : settings.strict = true → (Sheet.parse text).errors = []) :
    ((after { settings } requests).selector culture type).answer =
      Selector.ofRules (kept (.of culture type) text) := by
  have hrepresents := (represents_empty settings).after requests
  rw [hrepresents.text] at htext
  rw [(hrepresents.selector culture type).1, Ledger.selector, htext]
  show Ledger.build _ _ _ = _
  rw [Ledger.build, strict_foldl_after]
  refine if_neg fun hfault => ?_
  rw [Bool.and_eq_true] at hfault
  rw [hread hfault.1] at hfault
  cases hfault.2

/-- The clauses for a culture and a type are in the order of the lines of the text, apart from the
catch-alls, which come last, and so the case of a number is found by walking through the lines in
their order. This is so for every text whose lines are all for that culture and type, as long as
lines that name the culture and the type in the same way stand together. A strict catalog reads it
only if it has no faults. -/
theorem selector_of_lines
    (htext : ((after { settings } requests).source? (.of culture type)).map Source.text = some text)
    (hread : settings.strict = true → (Sheet.parse text).errors = [])
    (hown : ∀ rule ∈ Sheet.lineRules text,
      (CatalogKey.of culture type).admits (rule.fillFrom (CatalogKey.of culture type).label) = true)
    (htogether : Rule.GroupsTogether (Sheet.lineRules text)) :
    let rules := (Sheet.lineRules text).map (·.fillFrom (CatalogKey.of culture type).label)
    rules.Pairwise (·.line < ·.line) ∧
    ((after { settings } requests).selector culture type).answer = Selector.ofRules rules ∧
    ∀ selector, ((after { settings } requests).selector culture type).answer = .ok selector →
      (Rule.catchAllsLast rules).mapM Clause.ofRule = .ok selector.clauses ∧
      (rules ≠ [] → ∀ x, ((after { settings } requests).select culture type x).answer =
        (Rule.firstCase x (rules.filter (!·.isCatchAll))).mapError .eval) := by
  intro rules
  have hanswer :
      ((after { settings } requests).selector culture type).answer = Selector.ofRules rules :=
    (selector_of_text htext hread).trans (ofRules_kept hown htogether)
  refine ⟨List.pairwise_map.mpr (Sheet.pairwise_lineRules text), hanswer, fun selector h => ?_⟩
  have hselector := hanswer.symm.trans h
  refine ⟨?_, fun hne x => ?_⟩
  · obtain ⟨clauses, catchAlls, heq, hclauses, hcatchAlls⟩ := Selector.forall₂_of_ofRules hselector
    rw [heq]
    exact mapM_eq_ok.mpr (List.rel_append hclauses hcatchAlls)
  · rw [select]
    dsimp only
    rw [h]
    exact Selector.select_eq_firstCase hne hselector x

/-- Two headers that name the culture in another spelling and the type, with a catch-all in
between. -/
theorem selector_of_lines_of_headers :
    let text := "[Culture=EN]\none: n = 1\nother\n[Category=cardinal]\nfew: n = 1, 2"
    let catalog := after { settings := {} } [.add "en" .cardinal text]
    let rules := (Sheet.lineRules text).map (·.fillFrom (CatalogKey.of "en" .cardinal).label)
    ∃ selector, (catalog.selector "en" .cardinal).answer = .ok selector ∧
      rules.map Rule.case = ["one", "other", "few"] ∧ selector.cases = ["one", "few", "other"] ∧
      (Rule.catchAllsLast rules).mapM Clause.ofRule = .ok selector.clauses ∧
      ∀ x, (catalog.select "en" .cardinal x).answer =
        (Rule.firstCase x (rules.filter (!·.isCatchAll))).mapError .eval := by
  intro text catalog rules
  have htext : (catalog.source? (.of "en" .cardinal)).map Source.text = some text := by
    decide +kernel
  have hread : (Sheet.parse text).errors = [] := by decide +kernel
  have hown : ∀ rule ∈ Sheet.lineRules text, (CatalogKey.of "en" .cardinal).admits
      (rule.fillFrom (CatalogKey.of "en" .cardinal).label) = true := by decide +kernel
  have htogether : Rule.GroupsTogether (Sheet.lineRules text) := by decide +kernel
  obtain ⟨-, -, h⟩ := selector_of_lines htext (fun _ => hread) hown htogether
  let few : Expr :=
    .binary (.relation .eq) (.operand "n") (.group [.literal ⟨1, 0, 0⟩, .literal ⟨2, 0, 0⟩])
  let label : Label := { type := some .cardinal, culture := "EN" }
  let selector : Selector := ⟨"EN", some .cardinal, [⟨{ label with case := "one" }, .one⟩,
    ⟨{ label with culture := "en", case := "few" }, .condition few⟩,
    ⟨{ label with case := "other" }, .always⟩]⟩
  have hselector : (catalog.selector "en" .cardinal).answer = .ok selector := by decide +kernel
  obtain ⟨hclauses, hselect⟩ := h selector hselector
  exact ⟨selector, hselector, by decide +kernel, by decide +kernel, hclauses,
    hselect (by decide +kernel)⟩

/-- A line that names the culture itself, among lines that leave it to the key, comes behind them
all. -/
theorem not_selector_of_lines_apart : ¬ ∀ (text : String) (selector : Selector),
    (Sheet.parse text).errors = [] →
    (∀ rule ∈ Sheet.lineRules text, (CatalogKey.of "en" .cardinal).admits
      (rule.fillFrom (CatalogKey.of "en" .cardinal).label) = true) →
    ((after { settings := {} } [.add "en" .cardinal text]).selector "en" .cardinal).answer =
      .ok selector →
    (Rule.catchAllsLast ((Sheet.lineRules text).map
      (·.fillFrom (CatalogKey.of "en" .cardinal).label))).mapM Clause.ofRule =
        .ok selector.clauses := by
  intro h
  let text := "one: n = 1\n[Culture=en] two: n = 1,2\nfew: n = 2,3\nother"
  let among (least greatest : ℤ) : Predicate := .condition (.binary (.relation .eq) (.operand "n")
    (.group [.literal (.ofInt least), .literal (.ofInt greatest)]))
  let label : Label := { type := some .cardinal, culture := "en" }
  let selector : Selector := ⟨"en", some .cardinal, [⟨{ label with case := "one" }, .one⟩,
    ⟨{ label with case := "few" }, among 2 3⟩, ⟨{ label with case := "two" }, among 1 2⟩,
    ⟨{ label with case := "other" }, .always⟩]⟩
  have hclauses := h text selector (by decide +kernel) (by decide +kernel) (by decide +kernel)
  exact absurd hclauses (by decide +kernel)

/-- What a line says of the culture decides about the case of a number, though it says only what the
key says anyway. -/
example :
    let catalog (line : String) := after { settings := {} }
      [.add "en" .cardinal ("one: n = 1\n" ++ line ++ "\nfew: n = 2,3\nother")]
    ((catalog "two: n = 1,2").select "en" .cardinal (.ofInt 2)).answer = .ok "two" ∧
      ((catalog "[Culture=en] two: n = 1,2").select "en" .cardinal (.ofInt 2)).answer =
        .ok "few" := by
  decide +kernel

end Catalog

end PluralRules
