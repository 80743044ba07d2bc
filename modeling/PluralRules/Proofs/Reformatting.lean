import PluralRules.Proofs.Inline
import PluralRules.Proofs.Sheets

/-!
# Reformatting

The rules of a sheet can be written out, each in a line of its own. Reading that text gives the same
rules in the same order, and no errors (`Sheet.parse_print`): a printed line is no comment and no
header, its own brackets carry what a header gave to the rule, and the rules stand in the order of
their groups already.
-/

namespace PluralRules

/-! ### A text made of lines -/

namespace Text

variable {pieces : List (List Char)}

/-- Pieces that are neither empty nor end in a carriage return are lines as they are. -/
theorem ofPieces_eq_self (h : ∀ piece ∈ pieces, piece ≠ [] ∧ piece.getLast? ≠ some '\r') :
    ofPieces pieces = pieces := by
  fun_induction ofPieces pieces with
  | case1 => rfl
  | case2 last hempty => exact absurd (List.isEmpty_iff.mp hempty) (h last List.mem_cons_self).1
  | case3 last hempty => rfl
  | case4 piece more hmore ih =>
    obtain ⟨hpiece, hrest⟩ := List.forall_mem_cons.mp h
    rw [withoutReturn, if_neg hpiece.2, ih hrest]

/-- The lines of a text that was put together from lines. -/
theorem lines_intercalate (hnewline : ∀ piece ∈ pieces, '\n' ∉ piece)
    (h : ∀ piece ∈ pieces, piece ≠ [] ∧ piece.getLast? ≠ some '\r') :
    lines (['\n'].intercalate pieces) = pieces := by
  by_cases hpieces : pieces = []
  · subst hpieces
    rfl
  · rw [lines_eq, List.splitOn_intercalate '\n' hnewline hpieces, ofPieces_eq_self h]

end Text

/-! ### The rules of a sheet fit lines -/

/-- A property of the texts of two labels is one of the label filled from both. -/
theorem Label.HasTexts.fillFrom {P : List Char → Prop} {label defaults : Label}
    (h : label.HasTexts P)
    (hdefaults : defaults.HasTexts P) : (label.fillFrom defaults).HasTexts P := by
  have hfirst : ∀ {s t : String}, P s.toList → P t.toList → P (firstPresent s t).toList := by
    intro s t hs ht
    unfold firstPresent
    split
    exacts [ht, hs]
  exact ⟨hfirst h.1 hdefaults.1, hfirst h.2 hdefaults.2⟩

namespace Rule

variable {rule : Rule} {line : List Char}

theorem fillFrom_empty (rule : Rule) : rule.fillFrom {} = rule := by
  obtain ⟨⟨ruleSet, type, culture, case, required⟩, condition, samples, n⟩ := rule
  cases type <;> cases required <;> simp [fillFrom, Label.fillFrom, Label.firstPresent_empty]

/-- Whether a rule fits a line does not depend on the line number. -/
theorem FitsLine.atLine (h : rule.FitsLine) (n : Nat) : (rule.atLine n).FitsLine :=
  ⟨⟨h.printable.label, h.printable.case, h.printable.condition, h.printable.samples⟩, h.texts⟩

/-- The line of a rule spells the rule, wherever it stands. -/
theorem FitsLine.ofChars_chars (h : rule.FitsLine) (n : Nat) :
    ofChars n rule.chars = .ok (rule.atLine n) :=
  Rule.ofChars_chars (h.atLine n).printable

/-- The texts of the label of a rule stood in the line that spells it. -/
theorem hasTexts_of_ofChars {n : Nat} (hline : '\n' ∉ line) (h : ofChars n line = .ok rule) :
    rule.label.HasTexts fun text => Label.IsEntryText text ∧ '\n' ∉ text := by
  obtain ⟨parts, hread, hofLine⟩ := bind_eq_ok.mp (mapError_eq_ok.mp h)
  obtain ⟨hruleSet, hculture⟩ := hasTexts_of_ofLine (mapError_eq_ok.mp hread) hofLine
  exact ⟨⟨hruleSet.1, fun hmem => hline (hruleSet.2 hmem)⟩, hculture.1,
    fun hmem => hline (hculture.2 hmem)⟩

/-- A rule that a line spells fits a line, even with its label filled. -/
theorem FitsLine.of_fillFrom {defaults : Label} (hline : '\n' ∉ line)
    (hcase : Sheet.hasCase line = true) (h : ofChars 1 line = .ok rule)
    (hdefaults : defaults.HasTexts fun text => Label.IsEntryText text ∧ '\n' ∉ text) (n : Nat) :
    ((rule.atLine n).fillFrom defaults).FitsLine := by
  obtain ⟨parts, hread, hofLine⟩ := bind_eq_ok.mp (mapError_eq_ok.mp h)
  have hread := mapError_eq_ok.mp hread
  have hparts : parts.case.isSome = true := by
    rw [Sheet.hasCase, hread] at hcase
    have hheader : (!parts.isHeader) = true := hcase
    simpa [Line.isHeader] using hheader
  obtain ⟨hprintable, -⟩ := isPrintable_of_ofLine hread hparts hofLine
  obtain ⟨hruleSet, hculture⟩ := (hasTexts_of_ofChars hline h).fillFrom hdefaults
  -- the rule names a case, which is not filled
  have hfilled : Label.firstPresent rule.label.case defaults.case = rule.label.case := by
    obtain ⟨c, t, heq, -⟩ := hprintable.case
    have hpresent : rule.label.case ≠ "" := by
      intro hempty
      rw [Rule.case, hempty] at heq
      cases heq
    exact if_neg (mt String.isEmpty_iff.mp hpresent)
  have hcaseName : IsCaseName ((rule.atLine n).fillFrom defaults).case.toList := by
    show IsCaseName (Label.firstPresent rule.label.case defaults.case).toList
    rw [hfilled]
    exact hprintable.case
  exact ⟨⟨⟨hruleSet.1, hculture.1⟩, hcaseName, hprintable.condition, hprintable.samples⟩,
    hruleSet.2, hculture.2⟩

end Rule

namespace Sheet

variable {text line : List Char} {rule : Rule} {rules : List Rule}

/-- The texts of the label that a header leaves stood in the line of the header. -/
theorem hasTexts_labelInForce {before : List (List Char)} (h : ∀ line ∈ before, '\n' ∉ line) :
    (labelInForce before).HasTexts fun text => Label.IsEntryText text ∧ '\n' ∉ text := by
  have hnone : Label.HasTexts (fun text => Label.IsEntryText text ∧ '\n' ∉ text) {} :=
    ⟨⟨Label.isEntryText_nil, List.not_mem_nil⟩, Label.isEntryText_nil, List.not_mem_nil⟩
  unfold labelInForce
  split
  · next header hheader =>
    have hmem := List.mem_of_mem_filter (List.mem_of_getLast? hheader)
    unfold headerLabel
    split
    · next rule hrule => exact Rule.hasTexts_of_ofChars (h header hmem) hrule
    · exact hnone
  · exact hnone

/-- Every rule of a sheet fits a line. -/
theorem fitsLine_of_mem_rules (h : rule ∈ (ofChars text).rules) : rule.FitsLine := by
  obtain ⟨i, line, hline, hcase, own, hown, rfl⟩ := mem_ungrouped.mp (mem_rules.mp h)
  have hlines : ∀ line ∈ Text.lines text, '\n' ∉ line := fun _ => Text.not_mem_of_mem_lines
  refine .of_fillFrom (hlines line (List.mem_of_getElem? hline)) hcase hown ?_ (i + 1)
  exact hasTexts_labelInForce fun before hbefore => hlines before (List.mem_of_mem_take hbefore)

/-! ### Reading printed rules -/

/-- The text with the line of each rule. -/
def print (rules : List Rule) : String := "\n".intercalate (rules.map Rule.toString)

def numbered (rules : List Rule) : List Rule :=
  rules.zipIdx.map fun (rule, i) => rule.atLine (i + 1)

/-- The numbers of the lines are not printed. -/
theorem print_numbered (rules : List Rule) : print (numbered rules) = print rules := by
  have hstrings :
      (numbered rules).map Rule.toString = (rules.zipIdx.map Prod.fst).map Rule.toString := by
    rw [numbered, List.map_map, List.map_map]
    rfl
  rw [print, hstrings, List.zipIdx_map_fst]
  rfl

/-- The line of a rule counts, is no header, and contributes the rule. -/
theorem contribution_chars (h : rule.FitsLine) (n : Nat) :
    contribution n rule.chars = .rule (rule.atLine n) := by
  obtain ⟨parts, hread, hcase, -⟩ := Rule.exists_read_chars h.printable
  have hignored : isIgnored rule.chars = false := by
    by_contra hignored
    obtain ⟨rest, herror⟩ := exists_read_of_isIgnored (Bool.not_eq_false _ ▸ hignored)
    cases hread.symm.trans herror
  have hheader : isHeader rule.chars = false := by
    rw [isHeader, hread]
    exact Option.isNone_eq_false_iff.mpr hcase
  rw [contribution_eq h.not_mem_chars, hignored, h.ofChars_chars 1, hheader]
  rfl

/-- Without headers, all rules are filled from the same label. -/
theorem rulesUnder_rules (header : Label) (rules : List Rule) :
    rulesUnder header (rules.map .rule) = rules.map (·.fillFrom header) := by
  induction rules with
  | nil => rfl
  | cons rule rules ih => exact congrArg (rule.fillFrom header :: ·) ih

/-- Rules in the order of their groups are still so with their numbers as printed. -/
theorem pairwise_numbered (h : rules.Pairwise (Rule.Precedes rules)) :
    (numbered rules).Pairwise (Rule.Precedes (numbered rules)) := by
  have hlength : (numbered rules).length = rules.length := by simp [numbered]
  have hget : ∀ (k : Nat) (hk : k < (numbered rules).length),
      (numbered rules)[k] = rules[k].atLine (k + 1) := by simp [numbered]
  have hprecedes := List.pairwise_iff_getElem.mp h
  refine List.pairwise_iff_getElem.mpr fun i j hi hj hij => ?_
  have hab := hprecedes i j (hlength ▸ hi) (hlength ▸ hj) hij
  rw [hget i hi, hget j hj]
  refine ⟨fun hne => ⟨_, List.getElem_mem hi, by rw [hget i hi], fun rule hrule hkey => ?_⟩,
    hab.catchAll, fun _ _ => Nat.succ_lt_succ hij⟩
  -- a rule of the second group that stood before the first rule would begin the second group
  -- earlier
  obtain ⟨k, hk, rfl⟩ := List.getElem_of_mem hrule
  rw [hget k hk] at hkey ⊢
  rw [hget i hi]
  refine Nat.succ_lt_succ (lt_of_not_ge fun hle => hne ?_)
  rcases Nat.lt_or_eq_of_le hle with hlt | rfl
  · exact hab.groupKey_eq (hprecedes k i (hlength ▸ hk) (hlength ▸ hi) hlt) hkey.symm rfl
  · exact hkey

theorem pairwise_line_numbered (rules : List Rule) :
    (numbered rules).Pairwise (·.line < ·.line) := by
  refine List.pairwise_map.mpr ((pairwise_zipIdx rules 0).imp ?_)
  exact fun hlt => Nat.succ_lt_succ hlt

/-- What is read from the lines of rules that are in the order of their groups as printed. -/
theorem parse_print_of_numbered (hfits : ∀ rule ∈ rules, rule.FitsLine)
    (h : (numbered rules).Pairwise (Rule.Precedes (numbered rules))) :
    parse (print rules) = ⟨numbered rules, []⟩ := by
  have hlines : Text.lines (print rules).toList = rules.map Rule.chars := by
    have htoList : (rules.map Rule.toString).map String.toList = rules.map Rule.chars := by
      rw [List.map_map]
      exact List.map_congr_left fun rule _ => String.toList_ofList
    rw [print, String.toList_intercalate, htoList]
    refine Text.lines_intercalate (List.forall_mem_map.mpr ?_) (List.forall_mem_map.mpr ?_)
    · exact fun rule hrule => (hfits rule hrule).not_mem_chars
    · exact fun rule hrule => ⟨(hfits rule hrule).chars_ne_nil, (hfits rule hrule).getLast?_chars⟩
  have hcontributions : contributions (print rules).toList = (numbered rules).map .rule := by
    rw [contributions, hlines, List.zipIdx_map, List.map_map, numbered, List.map_map]
    refine List.map_congr_left fun x hx => ?_
    exact contribution_chars (hfits x.1 (List.fst_mem_of_mem_zipIdx hx)) (x.2 + 1)
  have hrules : rulesUnder {} (contributions (print rules).toList) = numbered rules := by
    rw [hcontributions, rulesUnder_rules]
    simp only [Rule.fillFrom_empty, List.map_id']
  have herrors : (contributions (print rules).toList).filterMap Contribution.error? = [] := by
    rw [hcontributions, List.filterMap_map]
    exact List.filterMap_eq_nil_iff.mpr fun _ _ => rfl
  have hgrouped := Rule.grouped_eq_self (pairwise_line_numbered rules) h
  rw [parse, ofChars, hrules, herrors, hgrouped]

/-- What is read from the lines of rules that are in the order of their groups. -/
theorem parse_print_of_fitsLine (hfits : ∀ rule ∈ rules, rule.FitsLine)
    (h : rules.Pairwise (Rule.Precedes rules)) : parse (print rules) = ⟨numbered rules, []⟩ :=
  parse_print_of_numbered hfits (pairwise_numbered h)

/-- Reformatting a sheet is lossless and stable. Reading the printed rules gives no errors and the
same rules in the same order, with the numbers of their new lines, so printing them again gives the
same text. Each line spells its rule by itself, with the parts of the label that a header gave. -/
theorem parse_print (text : String) :
    parse (print (parse text).rules) = ⟨numbered (parse text).rules, []⟩ ∧
    print (parse (print (parse text).rules)).rules = print (parse text).rules ∧
    ∀ rule ∈ (parse text).rules, Rule.parse rule.toString = .ok (rule.atLine 1) := by
  have hfits : ∀ rule ∈ (parse text).rules, rule.FitsLine := fun rule => fitsLine_of_mem_rules
  have hread : parse (print (parse text).rules) = ⟨numbered (parse text).rules, []⟩ :=
    parse_print_of_fitsLine hfits (pairwise_rules text.toList)
  refine ⟨hread, ?_, fun rule hrule => ?_⟩
  · rw [hread]
    exact print_numbered (parse text).rules
  · rw [Rule.parse, Rule.toString, String.toList_ofList]
    exact (hfits rule hrule).ofChars_chars 1

/-- A carriage return within a header stays in the label, and those at the ends of lines do not. -/
example :
    let text := "[Culture=a\rb]\r\nother @integer 2..4\r\n\n# one\n[category=ORDINAL] few:n=2"
    print (parse text).rules =
      "[Culture=a\rb] other @integer 2~4\n[Category=ordinal, Culture=a\rb] few: n = 2" := by
  decide +kernel

end Sheet

end PluralRules
