import PluralRules.Proofs.LineOrder

/-!
# Lines for other keys

A text may have lines that name another culture or type than the key it is put under. A catalog
leaves them out, but only after it has grouped all rules of the text. A line that names the root
falls into the group of the lines that name no culture at all, and if it comes first there, it
decides where that group begins. So such a line can have an influence on the selector that it is no
part of (`Catalog.not_answers_eq_of_root_line`).

No other line for another key has any influence. With blank lines in the places of such lines, a
catalog gives the same answers to all requests (`Catalog.answers_replaceLines`).
-/

namespace PluralRules

/-! ### Rules without the rules of some lines -/

namespace Rule

variable {rules front back : List Rule} {rule : Rule}

/-- A rule can be dropped by its line if lines ascend. -/
theorem filter_line_ne (h : (front ++ rule :: back).Pairwise (·.line < ·.line)) :
    (front ++ rule :: back).filter (·.line ≠ rule.line) = front ++ back := by
  obtain ⟨-, hback, hfront⟩ := List.pairwise_append.mp h
  rw [List.filter_append, List.filter_cons_of_neg (by simp)]
  congr 1
  · refine List.filter_eq_self.mpr fun other hother => decide_eq_true ?_
    exact Nat.ne_of_lt (hfront other hother rule List.mem_cons_self)
  · refine List.filter_eq_self.mpr fun other hother => decide_eq_true ?_
    exact Nat.ne_of_gt ((List.pairwise_cons.mp hback).1 other hother)

/-- Taking rules out does not change the order of the groups, if no group loses the rule that it
begins with. This need not be so for groups that are dropped later, with all their rules. -/
theorem filter_grouped_filter {p q : Rule → Bool} (hlines : rules.Pairwise (·.line < ·.line))
    (hq : ∀ rule ∈ rules, q rule = true → p rule = true)
    (hfirst : ∀ own ∈ rules, q own = true → ∀ other ∈ rules, p other = false →
      other.groupKey = own.groupKey →
      ∃ first ∈ rules, p first = true ∧ first.groupKey = own.groupKey ∧ first.line < other.line) :
    (grouped (rules.filter p)).filter q = (grouped rules).filter q := by
  have hmem (rule : Rule) : rule ∈ (grouped (rules.filter p)).filter q ↔
      rule ∈ (grouped rules).filter q := by
    simp only [List.mem_filter, mem_grouped]
    exact ⟨fun ⟨⟨hrule, _⟩, hrq⟩ => ⟨hrule, hrq⟩, fun ⟨hrule, hrq⟩ =>
      ⟨⟨hrule, hq rule hrule hrq⟩, hrq⟩⟩
  -- both sides hold the same rules, and both are ordered by the same asymmetric relation
  have hgrouped : ((grouped rules).filter q).Pairwise (Precedes rules) :=
    (pairwise_grouped hlines).filter q
  have hpairwise : ((grouped (rules.filter p)).filter q).Pairwise (Precedes rules) := by
    refine ((pairwise_grouped (hlines.filter p)).filter q).imp_of_mem fun {a b} _ hb hab => ?_
    obtain ⟨hb, hbq⟩ := List.mem_filter.mp hb
    obtain ⟨hb, -⟩ := List.mem_filter.mp (mem_grouped.mp hb)
    refine ⟨fun hne => ?_, hab.catchAll, hab.line⟩
    obtain ⟨first, hfirstMem, hkey, hbefore⟩ := hab.group hne
    refine ⟨first, List.mem_of_mem_filter hfirstMem, hkey, fun rule hrule hruleKey => ?_⟩
    -- a rule that is left out does not come first in its group, so the group begins where it did
    cases hp : p rule with
    | true => exact hbefore rule (List.mem_filter.mpr ⟨hrule, hp⟩) hruleKey
    | false =>
      obtain ⟨begin, hbegin, hbeginP, hbeginKey, hlt⟩ := hfirst b hb hbq rule hrule hp hruleKey
      exact (hbefore begin (List.mem_filter.mpr ⟨hbegin, hbeginP⟩) hbeginKey).trans hlt
  refine List.Perm.eq_of_pairwise (fun _ _ _ _ hab hba => absurd hba hab.asymm)
    hpairwise hgrouped ?_
  exact (List.perm_ext_iff_of_nodup (hpairwise.imp Precedes.ne) (hgrouped.imp Precedes.ne)).mpr hmem

end Rule

/-! ### Blank lines in the places of rules -/

/-- The text in which other lines stand in the places of some. -/
def Text.replaceLines (blanks : List (Nat × List Char)) (text : List Char) : List Char :=
  blanks.foldl (fun text (i, blank) => Text.replaceLine i blank text) text

namespace Sheet

variable {text : List Char} {blanks : List (Nat × List Char)}

theorem contribution_of_rule? {c : Contribution} {rule : Rule} (h : c.rule? = some rule) :
    c = .rule rule := by
  cases c <;> simp_all [Contribution.rule?]

/-- A rule among contributions has its place among their rules. -/
theorem exists_rulesUnder_rule (header : Label) (own : Rule) (front back : List Contribution) :
    ∃ before filled after, filled.line = own.line ∧
      rulesUnder header (front ++ .rule own :: back) = before ++ filled :: after ∧
      rulesUnder header (front ++ back) = before ++ after := by
  induction front generalizing header with
  | nil => exact ⟨[], own.fillFrom header, rulesUnder header back, rfl, rfl, rfl⟩
  | cons first front ih =>
    obtain ⟨before, filled, after, hline, hwith, hwithout⟩ := ih (first.inForce header)
    refine ⟨(first.rule?.map (·.fillFrom header)).toList ++ before, filled, after, hline, ?_, ?_⟩
    · rw [List.cons_append, rulesUnder_cons, hwith, List.append_assoc]
    · rw [List.cons_append, rulesUnder_cons, hwithout, List.append_assoc]

/-- With a blank line in the place of a rule, that rule is missing, and nothing else is. -/
theorem lineRules_replaceLine {i : Nat} {blank : List Char} {rule : Rule}
    (hblank : ∀ c ∈ blank, Text.isBlank c = true ∧ c ≠ '\n')
    (hrule : rule ∈ rulesUnder {} (contributions text)) (hline : rule.line = i + 1) :
    rulesUnder {} (contributions (Text.replaceLine i blank text)) =
        (rulesUnder {} (contributions text)).filter (·.line ≠ i + 1) ∧
      (ofChars (Text.replaceLine i blank text)).errors = (ofChars text).errors := by
  obtain ⟨j, line, hget, hcase, own, hown, rfl⟩ := mem_ungrouped.mp hrule
  obtain rfl : j = i := Nat.succ.inj hline
  have hnewline : '\n' ∉ line := Text.not_mem_of_mem_lines (List.mem_of_getElem? hget)
  have hcontribution : contribution (j + 1) line = .rule (own.atLine (j + 1)) :=
    contribution_of_rule? ((rule?_contribution hnewline).mpr ⟨hcase, own, hown, rfl⟩)
  obtain ⟨front, back, hall, -, hrules, herrors⟩ := exists_contributions_replaceLine hblank hget
  rw [hcontribution] at hall
  have hlines := pairwise_ungrouped text
  obtain ⟨before, filled, after, hfilled, hwith, hwithout⟩ :=
    exists_rulesUnder_rule {} (own.atLine (j + 1)) front back
  change filled.line = j + 1 at hfilled
  constructor
  · rw [hrules, hwithout, hall, hwith]
    rw [hall, hwith] at hlines
    rw [← hfilled, Rule.filter_line_ne hlines]
  · show (contributions (Text.replaceLine j blank text)).filterMap _ =
        (contributions text).filterMap _
    rw [herrors, hall]
    simp only [List.filterMap_append, List.filterMap_cons, Contribution.error?]

/-- With blank lines in the places of rules, those rules are missing, and nothing else is. -/
theorem lineRules_replaceLines (hblanks : ∀ blank ∈ blanks, ∀ c ∈ blank.2,
    Text.isBlank c = true ∧ c ≠ '\n') (hnodup : (blanks.map Prod.fst).Nodup)
    (hrules : ∀ blank ∈ blanks, ∃ rule ∈ rulesUnder {} (contributions text),
      rule.line = blank.1 + 1) :
    rulesUnder {} (contributions (Text.replaceLines blanks text)) =
        (rulesUnder {} (contributions text)).filter (fun rule => rule.line ∉ blanks.map (·.1 + 1)) ∧
      (ofChars (Text.replaceLines blanks text)).errors = (ofChars text).errors := by
  induction blanks generalizing text with
  | nil => simp [Text.replaceLines]
  | cons blank more ih =>
    obtain ⟨hblank, hblanks⟩ := List.forall_mem_cons.mp hblanks
    obtain ⟨⟨rule, hrule, hline⟩, hmore⟩ := List.forall_mem_cons.mp hrules
    obtain ⟨hfirst, hnodup⟩ := List.nodup_cons.mp hnodup
    obtain ⟨hstep, hstepErrors⟩ := lineRules_replaceLine hblank hrule hline
    -- the other rules are still there
    have hothers : ∀ other ∈ more, ∃ rule ∈ rulesUnder {}
        (contributions (Text.replaceLine blank.1 blank.2 text)), rule.line = other.1 + 1 := by
      intro other hother
      obtain ⟨rule, hrule, hline⟩ := hmore other hother
      refine ⟨rule, ?_, hline⟩
      rw [hstep]
      refine List.mem_filter.mpr ⟨hrule, decide_eq_true fun heq => hfirst ?_⟩
      exact List.mem_map.mpr ⟨other, hother, Nat.succ.inj (hline.symm.trans heq)⟩
    obtain ⟨hrun, hrunErrors⟩ := ih hblanks hnodup hothers
    refine ⟨hrun.trans ?_, hrunErrors.trans hstepErrors⟩
    rw [hstep, List.filter_filter]
    refine List.filter_congr fun rule _ => ?_
    simp only [List.map_cons, List.mem_cons, not_or, Bool.decide_and, Bool.and_comm]

end Sheet

/-! ### Rules for other keys -/

namespace CatalogKey

variable {key : CatalogKey} {own other : Rule}

/-- A label names another culture or another type. -/
def NamesOther (key : CatalogKey) (label : Label) : Prop :=
  (label.culture ≠ "" ∧ Culture.canonical label.culture ≠ key.culture) ∨
    (label.type ≠ none ∧ label.type ≠ some key.type)

/-- Without the rules of some lines, the groups that have rules for the key begin where they began:
no such group begins with a rule of these lines that names the root. -/
def KeepsBeginnings (key : CatalogKey) (rules : List Rule) (lines : List Nat) : Prop :=
  ∀ other ∈ rules, other.line ∈ lines → Culture.canonical other.label.culture = "" →
    ∀ own ∈ rules, key.admits (own.fillFrom key.label) = true → own.groupKey = other.groupKey →
      ∃ first ∈ rules, first.line ∉ lines ∧ first.groupKey = other.groupKey ∧
        first.line < other.line

instance : DecidablePred key.NamesOther := fun label =>
  inferInstanceAs (Decidable ((label.culture ≠ "" ∧ Culture.canonical label.culture ≠ key.culture) ∨
    (label.type ≠ none ∧ label.type ≠ some key.type)))

instance (rules : List Rule) (lines : List Nat) : Decidable (key.KeepsBeginnings rules lines) :=
  inferInstanceAs (Decidable (∀ other ∈ rules, other.line ∈ lines →
    Culture.canonical other.label.culture = "" →
    ∀ own ∈ rules, key.admits (own.fillFrom key.label) = true → own.groupKey = other.groupKey →
      ∃ first ∈ rules, first.line ∉ lines ∧ first.groupKey = other.groupKey ∧
        first.line < other.line))

/-- The group of a rule, once its label is filled in from a key. -/
theorem groupKey_fillFrom_label (key : CatalogKey) (rule : Rule) :
    (rule.fillFrom key.label).groupKey =
    ⟨Culture.canonical (Label.firstPresent rule.label.culture key.culture),
      rule.label.type <|> some key.type⟩ := rfl

/-- A rule that names another key is not kept. -/
theorem not_admits_of_namesOther (h : key.NamesOther other.label) :
    key.admits (other.fillFrom key.label) = false := by
  rw [admits, groupKey_fillFrom_label, beq_eq_false_iff_ne, ne_eq, Rule.GroupKey.mk.injEq]
  rintro ⟨hculture, htype⟩
  rcases h with ⟨hpresent, hother⟩ | ⟨hpresent, hother⟩
  · rw [Label.firstPresent, if_neg (mt String.isEmpty_iff.mp hpresent)] at hculture
    exact hother hculture
  · obtain ⟨type, hsome⟩ := Option.ne_none_iff_exists'.mp hpresent
    rw [hsome] at htype hother
    exact hother htype

/-- A line for another key that shares the group of a line for the key names the root. -/
theorem canonical_eq_empty_of_groupKey_eq (hother : key.NamesOther other.label)
    (hown : key.admits (own.fillFrom key.label) = true) (h : other.groupKey = own.groupKey) :
    Culture.canonical other.label.culture = "" := by
  obtain ⟨hculture, htype⟩ := Rule.GroupKey.mk.inj h
  have hadmits := beq_iff_eq.mp hown
  rw [groupKey_fillFrom_label, Rule.GroupKey.mk.injEq] at hadmits
  rcases hother with ⟨-, hother⟩ | ⟨hpresent, hother⟩
  · by_cases hempty : own.label.culture = ""
    · rw [hculture, hempty]
      decide +kernel
    · rw [Label.firstPresent, if_neg (mt String.isEmpty_iff.mp hempty)] at hadmits
      exact absurd (hculture.trans hadmits.1) hother
  · obtain ⟨type, hsome⟩ := Option.ne_none_iff_exists'.mp hpresent
    rw [← htype, hsome] at hadmits
    exact absurd (hsome.trans hadmits.2) hother

end CatalogKey

/-! ### Ledgers that agree -/

/-- Ledgers with the same keys, whose texts make the same selectors. -/
structure Ledger.Agrees (ledger ledger' : Ledger) : Prop where
  strict : ledger.strict = ledger'.strict
  build : ∀ key, (ledger.texts.lookup key).map (ledger.build key) =
    (ledger'.texts.lookup key).map (ledger'.build key)

namespace Ledger.Agrees

variable {ledger ledger' : Ledger}

theorem refl (ledger : Ledger) : Agrees ledger ledger := ⟨rfl, fun _ => rfl⟩

theorem keys (h : Agrees ledger ledger') : ledger.texts.keys = ledger'.texts.keys := by
  ext key
  have hsome := congrArg Option.isSome (h.build key)
  rw [Option.isSome_map, Option.isSome_map] at hsome
  rw [Finmap.mem_keys, Finmap.mem_keys, ← Finmap.lookup_isSome, ← Finmap.lookup_isSome, hsome]

/-- Ledgers that agree make the same selectors. -/
theorem selector (h : Agrees ledger ledger') (culture : String) (type : PluralType) :
    ledger.selector culture type = ledger'.selector culture type := by
  have hbuild := h.build (.of culture type)
  unfold Ledger.selector culturesOf
  rw [h.keys]
  dsimp only
  cases hlookup : ledger.texts.lookup (.of culture type) <;>
    cases hlookup' : ledger'.texts.lookup (.of culture type) <;> simp_all

theorem select (h : Agrees ledger ledger') (culture : String) (type : PluralType) (q : Quantity) :
    ledger.select culture type q = ledger'.select culture type q := by
  rw [Ledger.select, Ledger.select, h.selector]

theorem answer (h : Agrees ledger ledger') (request : Request) :
    ledger.answer request = ledger'.answer request := by
  cases request with
  | add => rfl
  | contains culture type =>
    have hmem : CatalogKey.of culture type ∈ ledger.texts ↔
        CatalogKey.of culture type ∈ ledger'.texts := by
      rw [← Finmap.mem_keys, h.keys, Finmap.mem_keys]
    simp only [Ledger.answer, hmem]
  | cultures => simp only [Ledger.answer, h.keys]
  | selector => simp only [Ledger.answer, h.selector]
  | select => simp only [Ledger.answer, h.select]
  | selectText => simp only [Ledger.answer, h.select]

/-- Texts that make the same selector keep ledgers in agreement. -/
theorem insert (h : Agrees ledger ledger') {key : CatalogKey} {text text' : String}
    (htext : ledger.build key text = ledger'.build key text') :
    Agrees { ledger with texts := ledger.texts.insert key text }
      { ledger' with texts := ledger'.texts.insert key text' } where
  strict := h.strict
  build other := by
    by_cases hother : other = key
    · subst hother
      simp only [Finmap.lookup_insert, Option.map_some]
      exact congrArg some htext
    · simp only [Finmap.lookup_insert_of_ne _ hother]
      exact h.build other

/-- A text is judged alike by ledgers that agree. -/
theorem build_eq (h : Agrees ledger ledger') (key : CatalogKey) (text : String) :
    ledger.build key text = ledger'.build key text := by
  rw [Ledger.build, Ledger.build, h.strict]

theorem after (h : Agrees ledger ledger') (request : Request) :
    Agrees (ledger.after request) (ledger'.after request) := by
  cases request with
  | add culture type text => exact h.insert (h.build_eq (.of culture type) text)
  | _ => exact h

/-- Ledgers that agree give the same answers to all requests. -/
theorem answers (h : Agrees ledger ledger') (requests : List Request) :
    ledger.answers requests = ledger'.answers requests := by
  induction requests generalizing ledger ledger' with
  | nil => rfl
  | cons request more ih => rw [Ledger.answers, Ledger.answers, h.answer, ih (h.after request)]

end Ledger.Agrees

/-- Of two texts that make the same selector one can be added in the place of the other. -/
theorem Ledger.answers_add {culture : String} {type : PluralType} {text text' : String}
    (ledger : Ledger)
    (htext : ∀ ledger : Ledger, ledger.build (.of culture type) text =
      ledger.build (.of culture type) text')
    (before more : List Request) :
    ledger.answers (before ++ .add culture type text :: more) =
      ledger.answers (before ++ .add culture type text' :: more) := by
  induction before generalizing ledger with
  | nil =>
    have hagrees := (Agrees.refl ledger).insert (htext ledger)
    exact congrArg (Answer.added :: ·) (hagrees.answers more)
  | cons request before ih =>
    exact congrArg (ledger.answer request :: ·) (ih (ledger.after request))

/-! ### The answers of a catalog -/

namespace Catalog

variable {culture : String} {type : PluralType} {text : String} {blanks : List (Nat × List Char)}

/-- What a catalog reads from a text with blank lines in the places of lines for other keys. -/
theorem kept_replaceLines {key : CatalogKey}
    (hblanks : ∀ blank ∈ blanks, ∀ c ∈ blank.2, Text.isBlank c = true ∧ c ≠ '\n')
    (hnodup : (blanks.map Prod.fst).Nodup)
    (hothers : ∀ blank ∈ blanks, ∃ rule ∈ Sheet.lineRules text, rule.line = blank.1 + 1 ∧
      key.NamesOther rule.label)
    (hbegin : key.KeepsBeginnings (Sheet.lineRules text) (blanks.map (·.1 + 1))) :
    let text' := String.ofList (Text.replaceLines blanks text.toList)
    kept key text' = kept key text ∧ (Sheet.parse text').errors = (Sheet.parse text).errors := by
  intro text'
  have hlines := Sheet.pairwise_lineRules text
  have hread : Sheet.parse text' = Sheet.ofChars (Text.replaceLines blanks text.toList) := by
    rw [Sheet.parse, String.toList_ofList]
  obtain ⟨hrules, herrors⟩ := Sheet.lineRules_replaceLines hblanks hnodup fun blank hblank =>
    have ⟨rule, hrule, hline, _⟩ := hothers blank hblank
    ⟨rule, hrule, hline⟩
  -- a line gives only one rule
  have hnames : ∀ rule ∈ Sheet.lineRules text, rule.line ∈ blanks.map (·.1 + 1) →
      key.NamesOther rule.label := by
    intro rule hrule hmem
    obtain ⟨blank, hblank, hline⟩ := List.mem_map.mp hmem
    obtain ⟨other, hother, hotherLine, hnames⟩ := hothers blank hblank
    rwa [Rule.eq_of_line_eq hlines hrule hother (hline.symm.trans hotherLine.symm)]
  refine ⟨?_, by rw [hread, herrors]; rfl⟩
  have hgrouped : (Sheet.parse text').rules =
      Rule.grouped ((Sheet.lineRules text).filter fun rule =>
        rule.line ∉ blanks.map (·.1 + 1)) := by
    rw [hread]
    exact congrArg Rule.grouped hrules
  rw [kept_eq, kept_eq, hgrouped, List.filter_map, List.filter_map]
  refine congrArg (List.map _) (Rule.filter_grouped_filter hlines ?_ ?_)
  · intro rule hrule hadmits
    refine decide_eq_true fun hmem => ?_
    cases (CatalogKey.not_admits_of_namesOther (hnames rule hrule hmem)).symm.trans hadmits
  · intro own hown hadmits other hother hmem hkey
    replace hmem : other.line ∈ blanks.map (·.1 + 1) := by simpa using hmem
    have hroot :=
      CatalogKey.canonical_eq_empty_of_groupKey_eq (hnames other hother hmem) hadmits hkey
    obtain ⟨first, hfirst, hstays, hfirstKey, hlt⟩ :=
      hbegin other hother hmem hroot own hown hadmits hkey.symm
    exact ⟨first, hfirst, decide_eq_true hstays, hfirstKey.trans hkey, hlt⟩

/-- Lines for other keys have no influence. Where a text is put under a key, blank lines can stand
in the places of any of its lines that name, by themselves or through a header, another culture or
another type, and all requests get the same answers. Only a line that names the root must stay, if
its group begins with it and has lines for the key. -/
theorem answers_replaceLines (settings : Settings) (before more : List Request)
    (hblanks : ∀ blank ∈ blanks, ∀ c ∈ blank.2, Text.isBlank c = true ∧ c ≠ '\n')
    (hnodup : (blanks.map Prod.fst).Nodup)
    (hothers : ∀ blank ∈ blanks, ∃ rule ∈ Sheet.lineRules text, rule.line = blank.1 + 1 ∧
      (CatalogKey.of culture type).NamesOther rule.label)
    (hbegin : (CatalogKey.of culture type).KeepsBeginnings (Sheet.lineRules text)
      (blanks.map (·.1 + 1))) :
    let text' := String.ofList (Text.replaceLines blanks text.toList)
    answers { settings } (before ++ .add culture type text :: more) =
      answers { settings } (before ++ .add culture type text' :: more) := by
  intro text'
  obtain ⟨hkept, herrors⟩ := kept_replaceLines hblanks hnodup hothers hbegin
  rw [(answers_eq settings _).1, (answers_eq settings _).1]
  refine Ledger.answers_add _ (fun ledger => ?_) before more
  rw [kept, kept] at hkept
  rw [Ledger.build, Ledger.build, herrors, hkept]

/-- Lines for another culture and another type, one of them by its header, and a line that names the
root behind a line that names no culture. -/
theorem answers_replaceLines_of_headers :
    let text := "few: n = 2\n[Culture=root] two: n = 2\n[Culture=de]\none: n = 1\n" ++
      "[Culture=EN]\n[Category=ordinal] one: n = 2\none: n = 1\nother"
    let text' := "few: n = 2\n \n[Culture=de]\n\t\n[Culture=EN]\n\none: n = 1\nother"
    let more : List Request := [.selector "en" .cardinal, .select "en" .cardinal (.ofInt 2)]
    answers { settings := {} } (.add "en" .cardinal text :: more) =
      answers { settings := {} } (.add "en" .cardinal text' :: more) := by
  intro text text' more
  let blanks := [(1, [' ']), (3, ['\t']), (5, [])]
  have htext' : String.ofList (Text.replaceLines blanks text.toList) = text' := by decide +kernel
  have hblanks : ∀ blank ∈ blanks, ∀ c ∈ blank.2, Text.isBlank c = true ∧ c ≠ '\n' := by
    refine List.forall_mem_cons.mpr
      ⟨?_, List.forall_mem_cons.mpr ⟨?_, List.forall_mem_singleton.mpr nofun⟩⟩
    · exact List.forall_mem_singleton.mpr (by decide)
    · exact List.forall_mem_singleton.mpr (by decide)
  have hothers : ∀ blank ∈ blanks, ∃ rule ∈ Sheet.lineRules text, rule.line = blank.1 + 1 ∧
      (CatalogKey.of "en" .cardinal).NamesOther rule.label := by decide +kernel
  rw [← htext']
  exact answers_replaceLines {} [] more hblanks (by decide) hothers (by decide +kernel)

/-- A line that names the root decides where the group of the lines without a culture begins. With a
blank line in its place, a number gets another case. -/
theorem not_answers_eq_of_root_line : ¬ ∀ (text : String) (i : Nat) (more : List Request),
    (∃ rule ∈ Sheet.lineRules text, rule.line = i + 1 ∧
      (CatalogKey.of "en" .cardinal).NamesOther rule.label) →
    answers { settings := {} } (.add "en" .cardinal text :: more) =
      answers { settings := {} }
        (.add "en" .cardinal
          (String.ofList (Text.replaceLines [(i, [])] text.toList)) :: more) := by
  intro h
  let text := "[Culture=root] one: n = 1\n[Culture=en] two: n = 1,2\nfew: n = 2,3"
  let catalog (text : String) := after { settings := {} } [.add "en" .cardinal text]
  have hanswers := h text 0 [.select "en" .cardinal (.ofInt 2)] (by decide +kernel)
  obtain ⟨-, hselect⟩ := List.cons.inj hanswers
  have hcase : ((catalog text).select "en" .cardinal (.ofInt 2)).answer =
      ((catalog (String.ofList (Text.replaceLines [(0, [])] text.toList))).select "en" .cardinal
        (.ofInt 2)).answer := Answer.case.inj (List.cons.inj hselect).1
  exact absurd hcase (by decide +kernel)

end Catalog

end PluralRules
