import PluralRules.Proofs.Conditions
import PluralRules.Proofs.Labels
import PluralRules.Proofs.Samples

/-!
# Rules read back

* **Soundness** (`isPrintable_of_ofLine`) — every rule that is read from a line with a case is
  printable: its label, its condition and its samples are of the kinds that their texts spell.
* **Completeness** (`ofChars_chars`) — the line of every printable rule is read back as that rule.

Together they say that printing a rule and reading the line gives back the rule (`parse_toString`).
-/

namespace PluralRules

open Reader Grammar

/-- The name of a case: a letter, then letters, digits, underscores and hyphens. -/
def Rule.IsCaseName (s : List Char) : Prop :=
  ∃ c t, s = c :: t ∧ c.isAlpha = true ∧ ∀ d ∈ t, isCaseChar d = true

structure Rule.IsPrintable (rule : Rule) : Prop where
  label : rule.label.IsPrintable
  case : IsCaseName rule.case.toList
  condition : ∀ e, rule.condition = some e → e.IsCondition .written ∧ e.IsGrouped
  samples : ∀ samples ∈ rule.samples, samples.IsPrintable

/-! ### What rules are read from -/

namespace Grammar

/-- The name of a case has the form that names of cases have. -/
theorem takes_caseName : Takes caseName fun _ e => Rule.IsCaseName e.text := by
  have hitem : Takes (fun s => (satisfying Char.isAlpha s).bind fun x =>
      some ((), x.2.dropWhile isCaseChar)) fun text _ => Rule.IsCaseName text := by
    intro s a rest hs
    obtain ⟨⟨c, s₁⟩, hfirst, heq⟩ := Option.bind_eq_some_iff.mp hs
    obtain ⟨_, rfl, rfl, hc⟩ := takes_satisfying Char.isAlpha hfirst
    cases heq
    refine ⟨c :: s₁.takeWhile isCaseChar, ?_, c, _, rfl, hc, fun _ => List.mem_takeWhile_imp⟩
    exact congrArg (c :: ·) List.takeWhile_append_dropWhile.symm
  exact (takes_excerptOf hitem).mono fun text e h => h.1 ▸ h.2.choose_spec

/-- Every condition stands in the text that it was read from. -/
theorem takes_caseSegment {P : List Char → Phrase → Prop} (h : Takes conditionReader P) :
    Takes caseSegment fun _ segment =>
      Rule.IsCaseName segment.name.text ∧ ∀ c ∈ segment.conditions, P c.text.text c.phrase := by
  have hwritten : Takes writtenCondition fun _ c => P c.text.text c.phrase := by
    intro s c rest hs
    obtain ⟨⟨p, s₁⟩, hread, heq⟩ := Option.bind_eq_some_iff.mp hs
    obtain ⟨text, rfl, hp⟩ := h hread
    dsimp only at heq
    rw [before_append] at heq
    cases heq
    exact ⟨text, rfl, hp⟩
  have hskipping : Takes (skipping writtenCondition) fun _ c => P c.text.text c.phrase :=
    hwritten.skipping.mono fun _ _ ⟨_, _, _, _, hp⟩ => hp
  intro s segment rest hs
  obtain ⟨⟨name, s₁⟩, hname, heq⟩ := Option.bind_eq_some_iff.mp hs
  obtain ⟨text, rfl, hn⟩ := takes_caseName hname
  -- the colon may be missing, and nothing depends on it
  obtain ⟨colon, hcolon, -⟩ := (takes_char ':').skipping.optional (R := fun _ _ => True) trivial
    (fun _ _ _ => trivial) s₁
  obtain ⟨⟨text', htext'⟩, hall⟩ := forall_many hskipping (optional (skipping (char ':')) s₁).2
  cases heq
  refine ⟨text ++ (colon ++ text'), ?_, hn, hall⟩
  show text ++ s₁ = text ++ (colon ++ text') ++
    (many (skipping writtenCondition) (Reader.optional (skipping (char ':')) s₁).2).2
  rw [List.append_assoc, List.append_assoc, ← htext', ← hcolon]

end Grammar

theorem Reader.optional_eq_some {α : Type} {item : Reader α} {s : List Char} {a : α}
    (h : (optional item s).1 = some a) : ∃ rest, item s = some (a, rest) := by
  cases hs : item s with
  | none => rw [optional_of_none hs] at h; cases h
  | some x => rw [optional_of_some hs] at h; cases h; exact ⟨x.2, rfl⟩

/-- A line that can be read consists of the parts at the front of its text. -/
theorem Line.parts_of_read {s : List Char} {line : Line} (h : read s = .ok line) :
    (parts s).1 = line := by
  unfold read at h
  dsimp only at h
  split at h
  · cases h; rfl
  · cases h

/-- The name and the conditions of the case in a line. -/
theorem Line.caseSegment_of_read {s : List Char} {line : Line} {segment : CaseSegment}
    {P : List Char → Phrase → Prop} (h : read s = .ok line) (hsegment : line.case = some segment)
    (hP : Takes conditionReader P) :
    Rule.IsCaseName segment.name.text ∧ ∀ c ∈ segment.conditions, P c.text.text c.phrase := by
  rw [← parts_of_read h] at hsegment
  obtain ⟨rest, hread⟩ := optional_eq_some hsegment
  obtain ⟨-, -, hall⟩ := takes_caseSegment hP hread
  exact hall

namespace Rule

/-- The condition of a case is the meaning of its one phrase. -/
theorem isCondition_of_conditionOf {segment : CaseSegment} {condition : Option Expr}
    (hconditions : ∀ c ∈ segment.conditions, IsCondition 1 c.phrase)
    (h : conditionOf segment = .ok condition) :
    ∀ e, condition = some e → e.IsCondition .written ∧ e.IsGrouped := by
  unfold conditionOf at h
  split at h
  · cases h
    exact fun e he => by cases he
  · next only honly =>
    obtain ⟨e, he, h⟩ := bind_eq_ok.mp h
    cases h
    rw [honly] at hconditions
    rintro _ ⟨⟩
    obtain ⟨hcondition, hgrouped, -⟩ :=
      Phrase.isCondition_of_meaning (hconditions only List.mem_cons_self) he
    exact ⟨hcondition, hgrouped⟩
  · cases h

/-- The texts of a rule's label stand as values of entries in the line that the rule is read
from. -/
theorem hasTexts_of_ofLine {n : Nat} {s : List Char} {line : Line} {rule : Rule}
    (hline : Line.read s = .ok line) (h : ofLine n line = .ok rule) :
    rule.label.HasTexts fun text => Label.IsEntryText text ∧ text ⊆ s := by
  have hinfo : ∀ e ∈ line.info.getD [], Label.IsEntryText e.value.text ∧ e.value.text ⊆ s := by
    cases hentries : line.info with
    | none => exact fun e he => by cases he
    | some entries =>
      rw [← Line.parts_of_read hline] at hentries
      obtain ⟨rest, hread⟩ := optional_eq_some hentries
      obtain ⟨text, hskip, hall⟩ := Label.takes_brackets hread
      have htext : text ⊆ s := by
        refine List.Subset.trans (List.subset_append_left text rest) ?_
        rw [← hskip]
        exact (List.dropWhile_sublist _).subset
      exact fun e he => ⟨(hall e he).1, List.Subset.trans (hall e he).2 htext⟩
  obtain ⟨label, hlabel, h⟩ := bind_eq_ok.mp h
  have htexts : label.HasTexts fun text => Label.IsEntryText text ∧ text ⊆ s :=
    Label.hasTexts_of_ofEntries ⟨Label.isEntryText_nil, List.nil_subset s⟩ hinfo hlabel
  -- the case is set last and leaves the texts as they are
  cases hcase : line.case <;>
  · rw [hcase] at h
    obtain ⟨condition, -, h⟩ := bind_eq_ok.mp h
    obtain ⟨samples, -, h⟩ := bind_eq_ok.mp h
    cases h
    exact htexts

/-- Every rule that is read from a line with a case is printable. -/
theorem isPrintable_of_ofLine {n : Nat} {s : List Char} {line : Line} {rule : Rule}
    (hline : Line.read s = .ok line) (hcase : line.case.isSome = true)
    (h : ofLine n line = .ok rule) : rule.IsPrintable ∧ rule.line = n := by
  have htexts := hasTexts_of_ofLine hline h
  have hsamples : ∀ segment ∈ line.samples,
      segment.name.text ≠ [] ∧ ∀ c ∈ segment.name.text, isNameChar c = true := by
    rw [← Line.parts_of_read hline]
    refine (forall_many (Samples.takes_sampleSegment.skipping.mono ?_) _).2
    exact fun _ _ ⟨_, _, _, _, h⟩ => h
  obtain ⟨segment, hcase⟩ := Option.isSome_iff_exists.mp hcase
  obtain ⟨hname, hconditions⟩ :=
    Line.caseSegment_of_read hline hcase (takes_conditionReader closed_layers)
  -- the rule is made of label, condition and samples, in this order
  obtain ⟨label, -, h⟩ := bind_eq_ok.mp h
  rw [hcase] at h
  obtain ⟨condition, hcondition, h⟩ := bind_eq_ok.mp h
  obtain ⟨samples, hmapM, h⟩ := bind_eq_ok.mp h
  cases h
  refine ⟨⟨⟨htexts.1.1, htexts.2.1⟩, ?_, ?_, ?_⟩, rfl⟩
  · show IsCaseName (String.ofList segment.name.text).toList
    rwa [String.toList_ofList]
  · exact isCondition_of_conditionOf hconditions hcondition
  · exact forall_right (mapM_eq_ok.mp hmapM) fun segment hmem _ h =>
      Samples.isPrintable_of_ofSegment (hsamples segment hmem) h

/-! ### What rules are read as -/

/-- The condition of a case behind its name, with the colon. -/
def conditionChars : Option Expr → List Char
  | none => []
  | some e => ':' :: ' ' :: e.chars

/-- The label of a rule with the blank after it, if any part of it is present. -/
def labelChars (rule : Rule) : List Char :=
  if rule.label.entries = [] then [] else rule.label.chars ++ [' ']

/-- A case is printed as its name and its condition. -/
theorem caseChars_eq {rule : Rule} (h : IsCaseName rule.case.toList) :
    rule.caseChars = rule.case.toList ++ conditionChars rule.condition := by
  obtain ⟨c, t, heq, -⟩ := h
  unfold caseChars
  cases rule.condition <;> simp [heq, conditionChars]

/-- The line of a rule is made of its label, its case and its samples. -/
theorem chars_eq {rule : Rule} (h : IsCaseName rule.case.toList) :
    rule.chars = rule.labelChars ++ (rule.caseChars ++
      rule.samples.flatMap fun samples => ' ' :: samples.chars) := by
  have hcase : rule.caseChars.isEmpty = false := by
    rw [caseChars_eq h]
    obtain ⟨c, t, heq, -⟩ := h
    rw [heq]
    rfl
  unfold chars labelChars
  by_cases hlabel : rule.label.entries = []
  · have hempty : rule.label.chars = [] := by simp [Label.chars, hlabel]
    simp [hlabel, hempty, hcase, intercalate_cons, List.flatMap_map]
  · have hpresent : rule.label.chars.isEmpty = false := by simp [Label.chars, hlabel]
    simp [hlabel, hpresent, hcase, intercalate_cons, List.flatMap_map]

/-- A case with its condition is read as it is printed. -/
theorem caseSegment_append {name rest : List Char} {condition : Option Expr}
    (hname : IsCaseName name)
    (hcondition : ∀ e, condition = some e → e.IsCondition .written ∧ e.IsGrouped)
    (hrest : Samples.EndsSamples rest) :
    ∃ segment, caseSegment (name ++ (conditionChars condition ++ rest)) = some (segment, rest) ∧
      segment.name.text = name ∧ conditionOf segment = .ok condition := by
  have hread : ∀ {s : List Char}, s.head?.any isCaseChar = false →
      caseName (name ++ s) = some (⟨name, s⟩, s) := by
    obtain ⟨c, t, rfl, hc, hall⟩ := hname
    intro s hs
    apply excerptOf_append (a := ())
    rw [List.cons_append, satisfying_cons hc]
    simp [dropWhile_run hall hs]
  have hskip : Text.skipBlanks rest = [] ∨ ∃ t, Text.skipBlanks rest = '@' :: t := by
    rcases hrest with rfl | ⟨t, rfl⟩
    · exact Or.inl rfl
    · exact Or.inr ⟨t, rfl⟩
  have hend : skipping writtenCondition rest = none := by
    simp [skipping, writtenCondition, conditionReader_eq_none hskip]
  cases condition with
  | none =>
    have hcolon : skipping (char ':') rest = none := by
      rcases hrest with rfl | ⟨t, rfl⟩ <;> rfl
    have hhead : rest.head?.any isCaseChar = false := by
      rcases hrest with rfl | ⟨t, rfl⟩ <;> rfl
    refine ⟨⟨⟨name, rest⟩, []⟩, ?_, rfl, rfl⟩
    simp [caseSegment, conditionChars, hread hhead, optional_of_none hcolon, many_of_none hend]
  | some e =>
    obtain ⟨he, hg⟩ := hcondition e rfl
    have hfollows : Follows 1 rest := by
      rcases hrest with rfl | ⟨t, rfl⟩
      · exact follows_nil
      · exact follows_samples
    obtain ⟨p, hp, hmeaning⟩ := readsAs_conditionReader he hg rest hfollows
    have hsolid := (he.isSolid_chars hg).append rest
    have hcolon : skipping (char ':') (':' :: ' ' :: (e.chars ++ rest)) =
        some ((), ' ' :: (e.chars ++ rest)) := by
      rw [skipping, Text.skipBlanks_eq_self rfl, char_cons]
    have hwritten : skipping writtenCondition (' ' :: (e.chars ++ rest)) =
        some (⟨⟨e.chars, rest⟩, p⟩, rest) := by
      rw [skipping, Text.skipBlanks_blank, hsolid.skipBlanks_eq]
      simp [writtenCondition, hp, before_append]
    -- nothing behind the condition is read as another one
    have hmany : many (skipping writtenCondition) (' ' :: (e.chars ++ rest)) =
        ([⟨⟨e.chars, rest⟩, p⟩], rest) := by
      have hshorter : rest.length < (' ' :: (e.chars ++ rest)).length := by
        rw [List.length_cons, List.length_append]
        omega
      rw [many_of_some hwritten hshorter, many_of_none hend]
    refine ⟨⟨⟨name, ':' :: ' ' :: (e.chars ++ rest)⟩, [⟨⟨e.chars, rest⟩, p⟩]⟩, ?_, rfl, ?_⟩
    · simp [caseSegment, conditionChars, hread (s := ':' :: ' ' :: (e.chars ++ rest)) rfl,
        optional_of_some hcolon, hmany]
    · exact bind_eq_ok.mpr ⟨e, hmeaning, rfl⟩

/-- The label of a rule is read as it is printed, up to where the case begins. -/
theorem optional_brackets_append {rule : Rule} {rest : List Char} (h : rule.label.IsPrintable)
    (hrest : ∃ c t, rest = c :: t ∧ c.isAlpha = true) :
    ∃ info s, Reader.optional brackets (Text.skipBlanks (rule.labelChars ++ rest)) = (info, s) ∧
      Text.skipBlanks s = rest ∧
        Label.ofEntries (info.getD []) = .ok { rule.label with case := "" } := by
  have hsolid : Text.skipBlanks rest = rest := by
    obtain ⟨c, t, rfl, hc⟩ := hrest
    exact Text.skipBlanks_eq_self (isBlank_of_isNameChar (isNameChar_iff.mpr (Or.inl hc)))
  -- without entries there are no brackets, and the case must not be taken for some
  by_cases hlabel : rule.label.entries = []
  · have hnone : brackets rest = none := by
      obtain ⟨c, t, rfl, hc⟩ := hrest
      have hopen : (c :: t).head? ≠ some '[' := by
        rintro ⟨⟩
        cases hc
      exact map_eq_none (by simp [between, char_eq_none hopen])
    have hpairs : rule.label.pairs = [] := by
      rw [Label.entries_eq] at hlabel
      exact List.map_eq_nil_iff.mp hlabel
    refine ⟨none, rest, ?_, hsolid, Label.ofEntries_of_pairs (by rw [hpairs]; exact .nil)⟩
    simp [labelChars, hlabel, hsolid, optional_of_none hnone]
  · obtain ⟨entries, hread, hentries⟩ := Label.brackets_append h hlabel (' ' :: rest)
    refine ⟨some entries, ' ' :: rest, ?_, ?_, Label.ofEntries_of_pairs hentries⟩
    · have hopen : Text.skipBlanks (rule.label.chars ++ ' ' :: rest) =
          rule.label.chars ++ ' ' :: rest := by
        apply Text.skipBlanks_eq_self
        simp only [Label.chars, List.isEmpty_iff, hlabel, if_false]
        rfl
      rw [labelChars, if_neg hlabel, List.append_assoc]
      show Reader.optional brackets (Text.skipBlanks (rule.label.chars ++ ' ' :: rest)) = _
      rw [hopen, optional_of_some hread]
    · rw [Text.skipBlanks_blank, hsolid]

/-- The line of a printable rule is read as a line with a case that gives the rule. -/
theorem exists_read_chars {rule : Rule} (h : rule.IsPrintable) :
    ∃ line, Line.read rule.chars = .ok line ∧
    line.case.isSome = true ∧ ofLine rule.line line = .ok rule := by
  obtain ⟨segments, hsamples, hofSegment⟩ := Samples.many_sampleSegment h.samples
  have hends : Samples.EndsSamples (rule.samples.flatMap fun samples => ' ' :: samples.chars) := by
    cases rule.samples with
    | nil => exact Or.inl rfl
    | cons samples more => exact Or.inr ⟨_, rfl⟩
  have hchars := chars_eq h.case
  generalize rule.samples.flatMap (fun samples => ' ' :: samples.chars) = rest
    at hsamples hends hchars
  obtain ⟨segment, hsegment, hname, hcondition⟩ := caseSegment_append h.case h.condition hends
  rw [← List.append_assoc, ← caseChars_eq h.case] at hsegment
  -- the case begins with a letter, which shows that the brackets end before it
  have hcase : ∃ c t, rule.caseChars ++ rest = c :: t ∧ c.isAlpha = true := by
    rw [caseChars_eq h.case]
    obtain ⟨c, t, heq, hc, -⟩ := h.case
    exact ⟨c, t ++ conditionChars rule.condition ++ rest, by simp [heq], hc⟩
  obtain ⟨info, s, hinfo, hskip, hlabel⟩ := optional_brackets_append h.label hcase
  have hparts : Line.parts rule.chars = (⟨info, some segment, segments⟩, []) := by
    have hnil : Text.skipBlanks [] = [] := rfl
    simp [Line.parts, hchars, hinfo, hskip, optional_of_some hsegment, hsamples, hnil]
  have hlabel' : { rule.label with case := segment.name.toString } = rule.label := by
    rw [Excerpt.toString, hname, String.ofList_toList]
    rfl
  refine ⟨⟨info, some segment, segments⟩, by simp [Line.read, hparts, Line.isComplete], rfl, ?_⟩
  refine bind_eq_ok.mpr
    ⟨_, hlabel, bind_eq_ok.mpr ⟨_, hcondition, bind_eq_ok.mpr ⟨_, hofSegment, ?_⟩⟩⟩
  exact congrArg (fun label => Except.ok (Rule.mk label rule.condition rule.samples rule.line))
    hlabel'

/-- The line of a printable rule is read back as the rule. -/
theorem ofChars_chars {rule : Rule} (h : rule.IsPrintable) :
    ofChars rule.line rule.chars = .ok rule := by
  obtain ⟨line, hline, -, hofLine⟩ := exists_read_chars h
  rw [ofChars, readLine, hline]
  exact mapError_eq_ok.mpr hofLine

/-- A rule that is read from a text with a case has the line number one, and its line is read back
as the same rule: with the same label, the same condition down to its parentheses, and the same
samples. -/
theorem parse_toString {text : String} {line : Line} {rule : Rule}
    (hline : Line.read text.toList = .ok line) (hcase : line.case.isSome = true)
    (h : parse text = .ok rule) : parse rule.toString = .ok rule ∧ rule.line = 1 := by
  have hofLine : ofLine 1 line = .ok rule := by
    have hread : readLine text.toList = .ok line := mapError_eq_ok.mpr hline
    rw [parse, ofChars, hread] at h
    exact mapError_eq_ok.mp h
  obtain ⟨hprintable, hone⟩ := isPrintable_of_ofLine hline hcase hofLine
  refine ⟨?_, hone⟩
  rw [parse, toString, String.toList_ofList, ← hone]
  exact ofChars_chars hprintable

/-- Blanks, keys, numbers, operators and samples may be spelled otherwise than they are printed. -/
theorem parse_toString_of_loose_spelling :
    ∃ rule, parse
        " [ culture = de-AT ,REQUIRED=True] few  not n mod 010 = 02..4, 7 or (v!=0) @integer 1..5,2e3, ..." =
          .ok rule ∧ parse rule.toString = .ok rule ∧ rule.line = 1 := by
  let text :=
    " [ culture = de-AT ,REQUIRED=True] few  not n mod 010 = 02..4, 7 or (v!=0) @integer 1..5,2e3, ..."
  let rule : Rule :=
    { label := { culture := "de-AT", case := "few", required := some true }
      condition := some (.binary (.logic .or)
        (.unary .not (.binary (.relation .eq) (.binary .modulo (.operand "n") (.literal ⟨10, 0, 0⟩))
          (.group [.range ⟨2, 0, 0⟩ ⟨4, 0, 0⟩, .literal ⟨7, 0, 0⟩])))
        (.paren (.binary (.relation .ne) (.operand "v") (.literal ⟨0, 0, 0⟩))))
      samples := [⟨"integer", [.range ⟨1, 0, 0⟩ ⟨5, 0, 0⟩, .single ⟨2, -3, 3⟩, .ellipsis]⟩]
      line := 1 }
  have hrule : parse text = .ok rule := by decide +kernel
  have hread : (Line.read text.toList).toOption.any (·.case.isSome) = true := by decide +kernel
  cases hline : Line.read text.toList with
  | error rest => rw [hline] at hread; cases hread
  | ok line => rw [hline] at hread; exact ⟨rule, hrule, parse_toString hline hread hrule⟩

end Rule

end PluralRules
