import PluralRules.Proofs.Contributions
import PluralRules.Proofs.Groups
import PluralRules.Proofs.Lines

/-!
# Sheets line by line

Reading a sheet loses nothing and adds nothing. Every line that counts and has a fault gives one
error, every line with a case that spells a rule gives one rule, and there are no others. Only the
headers connect lines with each other: the label of a rule is filled from the last header before it
(`labelInForce`).

The induction goes along the lines, and what it carries is the label in force: the lines already
read determine it, so the state of the loop is a function of the text (`rulesUnder_eq`).
-/

namespace PluralRules.Sheet

/-- The label that the last header of some lines leaves to the lines after them. -/
def labelInForce (before : List (List Char)) : Label :=
  match (before.filter isHeader).getLast? with
  | some header => headerLabel header
  | none => {}

/-- The contributions of lines that follow some others. -/
def contributionsFrom (start : Nat) (lines : List (List Char)) : List Contribution :=
  (lines.zipIdx start).map fun (line, index) => contribution (index + 1) line

variable {line : List Char} {lines before : List (List Char)} {start : Nat}

theorem contributionsFrom_cons : contributionsFrom start (line :: lines) =
    contribution (start + 1) line :: contributionsFrom (start + 1) lines := rfl

/-- The contributions of more lines are those of the first lines and those of the others, further
down. -/
theorem contributionsFrom_append {more : List (List Char)} :
    contributionsFrom start (lines ++ more) =
    contributionsFrom start lines ++ contributionsFrom (start + lines.length) more := by
  rw [contributionsFrom, List.zipIdx_append, List.map_append]
  rfl

/-! ### The header in force -/

/-- A line hands on the label in force, or the one that it gives as a header. -/
theorem labelInForce_append (h : '\n' ∉ line) (n : Nat) :
    (contribution n line).inForce (labelInForce before) = labelInForce (before ++ [line]) := by
  rw [inForce_contribution h, labelInForce, labelInForce, List.filter_append]
  cases hheader : isHeader line <;> simp [hheader]

/-- The rules among contributions are filled one by one, and each contribution hands on a label. -/
theorem rulesUnder_cons (header : Label) (c : Contribution) (more : List Contribution) :
    rulesUnder header (c :: more) =
      (c.rule?.map (·.fillFrom header)).toList ++ rulesUnder (c.inForce header) more := by
  cases c <;> rfl

/-- The rule of a line among others, with its label filled. -/
def ruleAt (lines : List (List Char)) : List Char × Nat → Option Rule
  | (line, i) => (contribution (i + 1) line).rule?.map (·.fillFrom (labelInForce (lines.take i)))

def errorAt : List Char × Nat → Option ParseError
  | (line, i) => (contribution (i + 1) line).error?

/-- The state that is carried from line to line is the label that the lines so far leave in
force. -/
theorem rulesUnder_eq (before : List (List Char)) (h : ∀ line ∈ lines, '\n' ∉ line) :
    rulesUnder (labelInForce before) (contributionsFrom before.length lines) =
      (lines.zipIdx before.length).filterMap (ruleAt (before ++ lines)) := by
  induction lines generalizing before with
  | nil => rfl
  | cons line lines ih =>
    obtain ⟨hline, hlines⟩ := List.forall_mem_cons.mp h
    have hlength : before.length + 1 = (before ++ [line]).length := by
      rw [List.length_append, List.length_singleton]
    have happend : before ++ line :: lines = (before ++ [line]) ++ lines := by
      rw [List.append_assoc, List.singleton_append]
    have hfirst : ruleAt (before ++ line :: lines) (line, before.length) =
        (contribution (before.length + 1) line).rule?.map (·.fillFrom (labelInForce before)) := by
      rw [ruleAt, List.take_left]
    rw [contributionsFrom_cons, rulesUnder_cons, labelInForce_append hline, ← hfirst, hlength,
      ih _ hlines, ← happend, List.zipIdx_cons, ← hlength, List.filterMap_cons]
    cases ruleAt (before ++ line :: lines) (line, before.length) <;> rfl

/-! ### Rules and errors of a text -/

section Numbered

variable {α β : Type} {f : α × Nat → Option β} {xs : List α}

theorem mem_filterMap_zipIdx {b : β} :
    b ∈ xs.zipIdx.filterMap f ↔ ∃ i x, xs[i]? = some x ∧ f (x, i) = some b := by
  simp only [List.mem_filterMap, Prod.exists, List.mk_mem_zipIdx_iff_getElem?]
  exact exists_comm

/-- Lines are numbered upwards. -/
theorem pairwise_zipIdx :
    ∀ (xs : List α) (start : Nat), (xs.zipIdx start).Pairwise fun a b => a.2 < b.2
  | [], _ => .nil
  | _ :: xs, start => List.pairwise_cons.mpr
      ⟨fun _ hb => List.le_snd_of_mem_zipIdx hb, pairwise_zipIdx xs (start + 1)⟩

/-- What lines give is in the order of the lines if it is marked with their numbers. -/
theorem pairwise_filterMap_zipIdx {number : β → Nat}
    (h : ∀ i x b, xs[i]? = some x → f (x, i) = some b → number b = i + 1) :
    (xs.zipIdx.filterMap f).Pairwise fun a b => number a < number b := by
  refine List.pairwise_filterMap.mpr ((pairwise_zipIdx xs 0).imp_of_mem ?_)
  rintro ⟨x, i⟩ ⟨y, j⟩ hx hy hlt a ha b hb
  rw [h i x a (List.mk_mem_zipIdx_iff_getElem?.mp hx) ha,
    h j y b (List.mk_mem_zipIdx_iff_getElem?.mp hy) hb]
  exact Nat.succ_lt_succ hlt

end Numbered

variable {text : List Char} {i : Nat}

/-- Before they are grouped, the rules of a text are those of its lines. -/
theorem ungrouped_eq (text : List Char) : rulesUnder {} (contributions text) =
    (Text.lines text).zipIdx.filterMap (ruleAt (Text.lines text)) :=
  rulesUnder_eq [] fun _ => Text.not_mem_of_mem_lines

/-- The errors of a text are those of its lines. -/
theorem errors_eq (text : List Char) :
    (ofChars text).errors = (Text.lines text).zipIdx.filterMap errorAt := by
  show ((Text.lines text).zipIdx.map _).filterMap Contribution.error? = _
  rw [List.filterMap_map]
  rfl

/-- A line has an error exactly if it is not ignored and fails by itself. -/
theorem errorAt_eq_some {e : ParseError} (h : (Text.lines text)[i]? = some line) :
    errorAt (line, i) = some e ↔ isIgnored line = false ∧
      ∃ own, Rule.ofChars 1 line = .error own ∧ e = own.atLine (i + 1) :=
  error?_contribution (Text.not_mem_of_mem_lines (List.mem_of_getElem? h))

/-- A line has a rule exactly if it names a case and can be read, and its label is filled from the
header in force. -/
theorem ruleAt_eq_some {rule : Rule} (h : (Text.lines text)[i]? = some line) :
    ruleAt (Text.lines text) (line, i) = some rule ↔ hasCase line = true ∧
      ∃ own, Rule.ofChars 1 line = .ok own ∧
        rule = (own.atLine (i + 1)).fillFrom (labelInForce ((Text.lines text).take i)) := by
  rw [ruleAt, Option.map_eq_some_iff]
  simp only [rule?_contribution (Text.not_mem_of_mem_lines (List.mem_of_getElem? h))]
  constructor
  · rintro ⟨_, ⟨hcase, own, hown, rfl⟩, rfl⟩
    exact ⟨hcase, own, hown, rfl⟩
  · rintro ⟨hcase, own, hown, rfl⟩
    exact ⟨_, ⟨hcase, own, hown, rfl⟩, rfl⟩

/-- Every error of a text is the error of a line. -/
theorem mem_errors {e : ParseError} : e ∈ (ofChars text).errors ↔
    ∃ i line, (Text.lines text)[i]? = some line ∧ isIgnored line = false ∧
      ∃ own, Rule.ofChars 1 line = .error own ∧ e = own.atLine (i + 1) := by
  rw [errors_eq, mem_filterMap_zipIdx]
  exact exists_congr fun i => exists_congr fun line => and_congr_right errorAt_eq_some

theorem mem_ungrouped {rule : Rule} : rule ∈ rulesUnder {} (contributions text) ↔
    ∃ i line, (Text.lines text)[i]? = some line ∧ hasCase line = true ∧
      ∃ own, Rule.ofChars 1 line = .ok own ∧
        rule = (own.atLine (i + 1)).fillFrom (labelInForce ((Text.lines text).take i)) := by
  rw [ungrouped_eq, mem_filterMap_zipIdx]
  exact exists_congr fun i => exists_congr fun line => and_congr_right ruleAt_eq_some

/-- The errors stand in the order of the lines. -/
theorem pairwise_errors (text : List Char) :
    (ofChars text).errors.Pairwise (·.position.line < ·.position.line) := by
  rw [errors_eq]
  apply pairwise_filterMap_zipIdx
  intro i line e hline he
  obtain ⟨-, own, -, rfl⟩ := (errorAt_eq_some hline).mp he
  rfl

theorem pairwise_ungrouped (text : List Char) :
    (rulesUnder {} (contributions text)).Pairwise (·.line < ·.line) := by
  rw [ungrouped_eq]
  apply pairwise_filterMap_zipIdx
  intro i line rule hline hrule
  obtain ⟨-, own, -, rfl⟩ := (ruleAt_eq_some hline).mp hrule
  rfl

theorem mem_rules {rule : Rule} :
    rule ∈ (ofChars text).rules ↔ rule ∈ rulesUnder {} (contributions text) := Rule.mem_grouped

/-- No line gives two rules. -/
theorem nodup_lines (text : List Char) : ((ofChars text).rules.map Rule.line).Nodup := by
  have hlines : ((rulesUnder {} (contributions text)).map Rule.line).Nodup :=
    List.pairwise_map.mpr ((pairwise_ungrouped text).imp Nat.ne_of_lt)
  exact ((Rule.grouped_perm (pairwise_ungrouped text)).map Rule.line).nodup_iff.mpr hlines

/-- The rules of a sheet stand in the order of groups. -/
theorem pairwise_rules (text : List Char) :
    (ofChars text).rules.Pairwise (Rule.Precedes (ofChars text).rules) :=
  (Rule.pairwise_grouped (pairwise_ungrouped text)).imp fun h => h.congr fun _ => mem_rules.symm

/-! ### Lines that give no rule -/

/-- A contribution that is no rule and no header can be left out. -/
theorem rulesUnder_skip {c : Contribution} (hrule : c.rule? = none)
    (hforce : ∀ header, c.inForce header = header) (header : Label)
    (front back : List Contribution) :
    rulesUnder header (front ++ c :: back) = rulesUnder header (front ++ back) := by
  induction front generalizing header with
  | nil =>
    rw [List.nil_append, rulesUnder_cons, hrule, hforce]
    rfl
  | cons first front ih =>
    rw [List.cons_append, List.cons_append, rulesUnder_cons, rulesUnder_cons, ih]

/-- A line that is no header and spells no rule does not matter for the rules of other lines. -/
theorem rulesUnder_skip_line {n : Nat} (h : '\n' ∉ line) (hheader : isHeader line = false)
    (hrule : hasCase line = true → ∃ e, Rule.ofChars 1 line = .error e) (header : Label)
    (front back : List Contribution) :
    rulesUnder header (front ++ contribution n line :: back) =
      rulesUnder header (front ++ back) := by
  apply rulesUnder_skip
  · rw [Option.eq_none_iff_forall_ne_some]
    intro rule heq
    obtain ⟨hcase, own, hown, -⟩ := (rule?_contribution h).mp heq
    obtain ⟨e, he⟩ := hrule hcase
    cases hown.symm.trans he
  · intro header
    rw [inForce_contribution h, hheader]
    rfl

/-- The errors of some lines are in these lines. -/
theorem line_of_mem_errors {e : ParseError} (h : ∀ line ∈ lines, '\n' ∉ line)
    (he : e ∈ (contributionsFrom start lines).filterMap Contribution.error?) :
    start < e.position.line ∧ e.position.line ≤ start + lines.length := by
  obtain ⟨c, hc, he⟩ := List.mem_filterMap.mp he
  obtain ⟨⟨line, i⟩, hmem, rfl⟩ := List.mem_map.mp hc
  obtain ⟨hle, hlt, hline⟩ := List.mem_zipIdx hmem
  obtain ⟨-, own, -, rfl⟩ := (error?_contribution (h line (hline ▸ List.getElem_mem _))).mp he
  show start < i + 1 ∧ i + 1 ≤ start + lines.length
  omega

theorem isIgnored_of_isBlank (h : ∀ c ∈ line, Text.isBlank c = true) : isIgnored line = true := by
  have hskip : Text.skipBlanks line = [] := List.dropWhile_eq_nil_iff.mpr h
  rw [isIgnored, hskip]

/-- With a blank line in the place of another line the contribution of that line is missing, whether
or not the blank is a line at all. -/
theorem exists_contributions_replaceLine {blank : List Char}
    (hblank : ∀ c ∈ blank, Text.isBlank c = true ∧ c ≠ '\n')
    (hline : (Text.lines text)[i]? = some line) :
    ∃ front back, contributions text = front ++ contribution (i + 1) line :: back ∧
      (∀ e ∈ (front ++ back).filterMap Contribution.error?, e.position.line ≠ i + 1) ∧
      rulesUnder {} (contributions (Text.replaceLine i blank text)) =
        rulesUnder {} (front ++ back) ∧
      (contributions (Text.replaceLine i blank text)).filterMap Contribution.error? =
        (front ++ back).filterMap Contribution.error? := by
  -- the lines before and after the replaced one, which may be lost if it is the last
  have hnewline : '\n' ∉ blank := fun hmem => (hblank _ hmem).2 rfl
  obtain ⟨front, back, hlines, rfl, hreplaced⟩ := Text.exists_lines_replaceLine hnewline hline
  have hpieces : ∀ piece ∈ front ++ line :: back, '\n' ∉ piece := by
    rw [← hlines]
    exact fun _ => Text.not_mem_of_mem_lines
  refine ⟨contributionsFrom 0 front, contributionsFrom (front.length + 1) back, ?_, ?_, ?_⟩
  · show contributionsFrom 0 (Text.lines text) = _
    rw [hlines, contributionsFrom_append, contributionsFrom_cons, Nat.zero_add]
  · intro e he
    rw [List.filterMap_append, List.mem_append] at he
    rcases he with he | he
    · have hle := (line_of_mem_errors (fun piece hpiece => hpieces piece (by simp [hpiece])) he).2
      omega
    · have hlt := (line_of_mem_errors (fun piece hpiece => hpieces piece (by simp [hpiece])) he).1
      omega
  · show rulesUnder {} (contributionsFrom 0 _) = _ ∧ (contributionsFrom 0 _).filterMap _ = _
    -- a blank line contributes nothing, and neither does a line that is lost
    rcases hreplaced with ⟨line', hsubset, hreplaced⟩ | ⟨rfl, hreplaced⟩
    · have hignored : isIgnored line' = true :=
        isIgnored_of_isBlank fun c hc => (hblank c (hsubset hc)).1
      have hnothing (n : Nat) : contribution n line' = .nothing := by
        rw [contribution, hignored]; rfl
      rw [hreplaced, contributionsFrom_append, contributionsFrom_cons, Nat.zero_add, hnothing,
        List.filterMap_append, List.filterMap_append]
      exact ⟨rulesUnder_skip rfl (fun _ => rfl) {} _ _, rfl⟩
    · rw [hreplaced]
      show rulesUnder {} _ = rulesUnder {} (_ ++ []) ∧ _ = (_ ++ []).filterMap _
      rw [List.append_nil]
      exact ⟨rfl, rfl⟩

/-- Of the errors of all lines those in one line are the errors that its contribution is. -/
theorem filter_errors {n : Nat} {c : Contribution} {front back : List Contribution}
    (hc : ∀ e, c.error? = some e → e.position.line = n)
    (hothers : ∀ e ∈ (front ++ back).filterMap Contribution.error?, e.position.line ≠ n) :
    ((front ++ c :: back).filterMap Contribution.error?).filter (·.position.line ≠ n) =
      (front ++ back).filterMap Contribution.error? := by
  rw [List.filterMap_append] at hothers ⊢
  have hkept : (front.filterMap Contribution.error? ++ back.filterMap Contribution.error?).filter
      (·.position.line ≠ n) = front.filterMap Contribution.error? ++
        back.filterMap Contribution.error? :=
    List.filter_eq_self.mpr fun e he => decide_eq_true (hothers e he)
  rw [List.filterMap_append, List.filterMap_cons]
  cases herror : c.error? with
  | none => exact hkept
  | some e =>
    rw [List.filter_append] at hkept ⊢
    rw [List.filter_cons_of_neg (by simpa using hc e herror)]
    exact hkept

/-- With a blank line in the place of a line that spells nothing and is no header, the error of that
line is missing, and nothing else is. -/
theorem ofChars_replaceLine {blank : List Char} {own : ParseError}
    (hblank : ∀ c ∈ blank, Text.isBlank c = true ∧ c ≠ '\n')
    (hline : (Text.lines text)[i]? = some line)
    (hown : Rule.ofChars 1 line = .error own) (hheader : isHeader line = false) :
    ofChars (Text.replaceLine i blank text) =
      ⟨(ofChars text).rules, (ofChars text).errors.filter (·.position.line ≠ i + 1)⟩ := by
  have hnewline : '\n' ∉ line := Text.not_mem_of_mem_lines (List.mem_of_getElem? hline)
  obtain ⟨front, back, hall, hothers, hrules, herrors⟩ :=
    exists_contributions_replaceLine hblank hline
  have hskip :=
    rulesUnder_skip_line (n := i + 1) hnewline hheader (fun _ => ⟨own, hown⟩) {} front back
  have hfilter : (ofChars text).errors.filter (·.position.line ≠ i + 1) =
      (front ++ back).filterMap Contribution.error? := by
    show ((contributions text).filterMap Contribution.error?).filter _ = _
    rw [hall]
    refine filter_errors (fun e he => ?_) hothers
    obtain ⟨-, e, -, rfl⟩ := (error?_contribution hnewline).mp he
    rfl
  show Sheet.mk (Rule.grouped _) _ = Sheet.mk (Rule.grouped _) _
  rw [hrules, herrors, hfilter, hall, hskip]

/-! ### The theorem -/

/-- What a sheet consists of. Its errors are those of its lines, in their order, and its rules are
those of its lines with a case, with the labels filled from the header before them. The rules are
group by group in the order in which the groups begin, and in each group the catch-alls come last
and the lines decide otherwise. A line that spells nothing and is no header can be taken out, and
only its error goes. -/
theorem ofChars_linewise (text : List Char) :
    ((ofChars text).errors.Pairwise (·.position.line < ·.position.line) ∧
      ∀ e, e ∈ (ofChars text).errors ↔
        ∃ i line, (Text.lines text)[i]? = some line ∧ isIgnored line = false ∧
          ∃ own, Rule.ofChars 1 line = .error own ∧ e = own.atLine (i + 1)) ∧
    (((ofChars text).rules.map Rule.line).Nodup ∧
      ∀ rule, rule ∈ (ofChars text).rules ↔
        ∃ i line, (Text.lines text)[i]? = some line ∧ hasCase line = true ∧
          ∃ own, Rule.ofChars 1 line = .ok own ∧
            rule = (own.atLine (i + 1)).fillFrom (labelInForce ((Text.lines text).take i))) ∧
    ((ofChars text).rules.Pairwise (Rule.Precedes (ofChars text).rules) ∧
      ∀ front a middle c back, (ofChars text).rules = front ++ a :: (middle ++ c :: back) →
        a.groupKey = c.groupKey → ∀ b ∈ middle, b.groupKey = a.groupKey) ∧
    ∀ i line own blank, (Text.lines text)[i]? = some line → Rule.ofChars 1 line = .error own →
      isHeader line = false → (∀ c ∈ blank, Text.isBlank c = true ∧ c ≠ '\n') →
        ofChars (Text.replaceLine i blank text) =
          ⟨(ofChars text).rules, (ofChars text).errors.filter (·.position.line ≠ i + 1)⟩ := by
  refine ⟨⟨pairwise_errors text, fun _ => mem_errors⟩, ⟨nodup_lines text, fun _ => ?_⟩,
    ⟨pairwise_rules text, ?_⟩, ?_⟩
  · exact mem_rules.trans mem_ungrouped
  · intro front a middle c back hrules hac b hb
    exact Rule.groupKey_of_between (hrules ▸ pairwise_rules text) hac hb
  · intro i line own blank hline hown hheader hblank
    exact ofChars_replaceLine hblank hline hown hheader

/-- Two spellings of a culture, a header with a fault, a catch-all in front, and a line that is
taken out. -/
theorem ofChars_linewise_of_faults :
    let text :=
      ("[Culture=de-AT]\nother\none: n = 1 or\n\none: i = 1\n// two\n[Size=1]\nfew: n = 2\n" ++
      "[Culture=DE-at]\ntwo: n = 3").toList
    (ofChars text).rules.map (fun rule => (rule.line, rule.label.culture)) =
        [(5, "de-AT"), (10, "DE-at"), (2, "de-AT"), (8, "")] ∧
      (ofChars text).errors.map (·.position) = [⟨3, 12⟩, ⟨7, 2⟩] ∧
      ofChars (Text.replaceLine 2 [' '] text) =
        ⟨(ofChars text).rules, (ofChars text).errors.filter (·.position.line ≠ 3)⟩ := by
  intro text
  have hown : Rule.ofChars 1 "one: n = 1 or".toList = .error ⟨⟨1, 12⟩, .unexpected (some 'o')⟩ := by
    decide +kernel
  refine ⟨by decide +kernel, by decide +kernel, ?_⟩
  exact (ofChars_linewise text).2.2.2 2 "one: n = 1 or".toList _ [' '] (by decide +kernel) hown
    (by decide +kernel) (List.forall_mem_singleton.mpr (by decide))

end PluralRules.Sheet
