import Mathlib.Data.List.Basic
import PluralRules.Proofs.Reformatting

/-!
# Headers with faults

A header that can be read and has a fault in its entries is reported, and it ends the reach of the
header before it: the label in force is then empty until a header without faults follows, so the
rules in between are what their lines say and nothing else (`Sheet.own_of_rejected_header`).

A line in brackets that cannot be read is reported as well, but it is no header. It leaves the
header before it in force, and the rules behind it are filled from that one
(`Sheet.not_own_of_unread_brackets`).
-/

namespace PluralRules

open Reader

/-! ### Lines in brackets -/

namespace Grammar

/-- A case begins with a letter. -/
theorem caseSegment_eq_none {s : List Char} (h : s.head?.any Char.isAlpha = false) :
    caseSegment s = none := by
  simp [caseSegment, caseName, excerptOf, satisfying_eq_none h]

/-- Where brackets are read, the text goes on behind the one that closes. -/
theorem rest_of_brackets {inside after rest : List Char} {entries : List Entry}
    (hinside : ']' ∉ inside) (hafter : IsGap after)
    (h : brackets ('[' :: inside ++ ']' :: after) = some (entries, rest)) : rest = after := by
  have hclosed : Takes brackets fun text _ => ∃ front, text = front ++ [']'] := by
    apply Label.takes_entry.commaSeparated.between.map
    rintro text x ⟨gap, t, gap', -, -, rfl, -⟩
    exact ⟨_, rfl⟩
  obtain ⟨_, htext, front, rfl⟩ := hclosed h
  -- only one bracket closes
  have hopen : ']' ∉ '[' :: inside := by simpa using hinside
  have hblank : ']' ∉ after := fun hmem => absurd (hafter _ hmem) (by decide)
  rw [List.append_assoc, List.singleton_append, eq_comm] at htext
  exact ((List.append_cons_inj_of_notMem hopen hblank).mp htext.symm).2.2.symm

end Grammar

namespace Line

/-- A line in brackets, which hold no bracket that closes. Nothing but blanks stands around them. -/
def IsBracketed (s : List Char) : Prop :=
  ∃ before inside after, IsGap before ∧ IsGap after ∧ ']' ∉ inside ∧
    s = before ++ ('[' :: inside ++ ']' :: after)

/-- If a line in brackets can be read at all, it is a header. -/
theorem isHeader_of_isBracketed {s : List Char} {line : Line} (h : IsBracketed s)
    (hread : read s = .ok line) : line.isHeader = true := by
  obtain ⟨before, inside, after, hbefore, hafter, hinside, rfl⟩ := h
  have hskip : Text.skipBlanks (before ++ ('[' :: inside ++ ']' :: after)) =
      '[' :: inside ++ ']' :: after :=
    Text.skipBlanks_append hbefore ⟨'[', _, rfl, by decide⟩
  have hnone : (Grammar.caseSegment (Text.skipBlanks
      (optional Grammar.brackets ('[' :: inside ++ ']' :: after)).2)) = none := by
    apply Grammar.caseSegment_eq_none
    cases hbrackets : Grammar.brackets ('[' :: inside ++ ']' :: after) with
    | none => rw [optional_of_none hbrackets]; rfl
    | some x =>
      rw [optional_of_some hbrackets, Grammar.rest_of_brackets hinside hafter hbrackets,
        Text.skipBlanks, List.dropWhile_eq_nil_iff.mpr hafter]
      rfl
  rw [← parts_of_read hread]
  simp only [parts, hskip, isHeader, optional_of_none hnone, Option.isNone_none]

end Line

/-! ### The label that is left -/

namespace Sheet

variable {text line : List Char} {before between : List (List Char)} {i : Nat}

def IsAccepted (line : List Char) : Prop :=
  isHeader line = true ∧ ∃ rule, Rule.ofChars 1 line = .ok rule

/-- A header with a fault leaves nothing, and so it remains up to the next header without faults. -/
theorem labelInForce_of_fault {e : ParseError} (hheader : isHeader line = true)
    (hfault : Rule.ofChars 1 line = .error e) (hbetween : ∀ other ∈ between, ¬ IsAccepted other) :
    labelInForce (before ++ line :: between) = {} := by
  have hlabel : ∀ other ∈ (line :: between).filter isHeader, headerLabel other = {} := by
    intro other hother
    obtain ⟨hmem, hother⟩ := List.mem_filter.mp hother
    unfold headerLabel
    cases hown : Rule.ofChars 1 other with
    | error e => rfl
    | ok rule =>
      rcases List.mem_cons.mp hmem with rfl | hmem
      · cases hfault.symm.trans hown
      · exact absurd ⟨hother, rule, hown⟩ (hbetween other hmem)
  obtain ⟨last, hlast⟩ : ∃ last, ((line :: between).filter isHeader).getLast? = some last := by
    rw [List.filter_cons_of_pos hheader]
    exact ⟨_, List.getLast?_eq_some_getLast (List.cons_ne_nil _ _)⟩
  have hforce : ((before ++ line :: between).filter isHeader).getLast? = some last := by
    rw [List.filter_append, List.getLast?_append, hlast]
    rfl
  rw [labelInForce, hforce]
  exact hlabel last (List.mem_of_getLast? hlast)

/-- The line of an error spells nothing. -/
theorem exists_error_of_mem_errors {e : ParseError} (hline : (Text.lines text)[i]? = some line)
    (he : e ∈ (ofChars text).errors) (hposition : e.position.line = i + 1) :
    ∃ own, Rule.ofChars 1 line = .error own := by
  obtain ⟨j, other, hother, -, own, hown, rfl⟩ := mem_errors.mp he
  obtain rfl : j = i := Nat.succ.inj hposition
  obtain rfl : other = line := Option.some.inj (hother.symm.trans hline)
  exact ⟨own, hown⟩

/-- A line in brackets that can be read and is rejected leaves no header in force. Up to the next
header without faults, every rule is the one that its line spells by itself, and takes nothing from
a header. -/
theorem own_of_rejected_header (hline : (Text.lines text)[i]? = some line)
    (hbracketed : Line.IsBracketed line) (hrejected : ∃ e ∈ (ofChars text).errors,
      e.position.line = i + 1)
    (hread : ∃ parts, Line.read line = .ok parts) :
    ∀ rule ∈ (ofChars text).rules, i + 1 < rule.line →
      (∀ j header, i < j → j + 1 < rule.line → (Text.lines text)[j]? = some header →
        ¬ IsAccepted header) →
      ∃ line own, (Text.lines text)[rule.line - 1]? = some line ∧ Rule.ofChars 1 line = .ok own ∧
        rule = own.atLine rule.line := by
  intro rule hrule hlt hnext
  obtain ⟨e, he, hposition⟩ := hrejected
  obtain ⟨fault, hfault⟩ := exists_error_of_mem_errors hline he hposition
  obtain ⟨parts, hread⟩ := hread
  have hheader : isHeader line = true := by
    rw [isHeader, hread]
    exact Line.isHeader_of_isBracketed hbracketed hread
  obtain ⟨j, own, hj, -, rule, hown, rfl⟩ := mem_ungrouped.mp (mem_rules.mp hrule)
  replace hlt : i < j := Nat.lt_of_succ_lt_succ hlt
  have hempty : labelInForce ((Text.lines text).take j) = {} := by
    have hget : ((Text.lines text).take j)[i]? = some line := by
      rw [List.getElem?_take_of_lt hlt, hline]
    obtain ⟨hlength, hget⟩ := List.getElem?_eq_some_iff.mp hget
    -- the lines before the rule are those up to the rejected header, and those in between
    rw [← List.take_append_drop i ((Text.lines text).take j),
      List.drop_eq_getElem_cons hlength, hget]
    apply labelInForce_of_fault hheader hfault
    intro header hmem
    obtain ⟨k, hk⟩ := List.getElem?_of_mem hmem
    rw [List.getElem?_drop, List.getElem?_take] at hk
    split at hk
    · next hkj => exact hnext (i + 1 + k) header (by omega) (Nat.succ_lt_succ hkj) hk
    · cases hk
  refine ⟨own, rule, hj, hown, ?_⟩
  rw [hempty, Rule.fillFrom_empty]
  rfl

/-- Two rejected headers behind an accepted one, and a rule behind each of them. -/
theorem own_of_rejected_header_of_two :
    let text :=
      "[Culture=de]\none: n = 1\n[Culture=en, Size=2]\ntwo: n = 2\n [Category=dual] \nother".toList
    ∃ rule ∈ (ofChars text).rules, rule.line = 6 ∧ rule.case = "other" ∧ rule.label.culture = "" ∧
      ∃ line own, (Text.lines text)[5]? = some line ∧ Rule.ofChars 1 line = .ok own ∧
        rule = own.atLine 6 := by
  intro text
  let other : Rule := ⟨{ case := "other" }, none, [], 6⟩
  let rejected := "[Culture=en, Size=2]".toList
  have hother : other ∈ (ofChars text).rules := by decide +kernel
  have hline : (Text.lines text)[2]? = some rejected := by decide +kernel
  have hbracketed : Line.IsBracketed rejected :=
    ⟨[], "Culture=en, Size=2".toList, [], nofun, nofun, by decide, by decide⟩
  have hread : ∃ parts, Line.read rejected = .ok parts := by
    have hheader : isHeader rejected = true := by decide +kernel
    unfold isHeader at hheader
    cases hparts : Line.read rejected with
    | ok parts => exact ⟨parts, rfl⟩
    | error e =>
      rw [hparts] at hheader
      cases hheader
  refine ⟨other, hother, rfl, rfl, rfl, ?_⟩
  refine own_of_rejected_header hline hbracketed (by decide +kernel) hread other hother
    (by decide) ?_
  -- a rule and the other rejected header stand in between
  rintro j header hij hj hheader ⟨hisHeader, rule, hrule⟩
  obtain rfl | rfl : j = 3 ∨ j = 4 := by
    have : j + 1 < 6 := hj
    omega
  · have : some header = some "two: n = 2".toList := hheader.symm.trans (by decide +kernel)
    cases this
    exact absurd hisHeader (by decide +kernel)
  · have : some header = some " [Category=dual] ".toList := hheader.symm.trans (by decide +kernel)
    cases this
    have hfault : (Rule.ofChars 1 " [Category=dual] ".toList).toOption.isSome = false := by
      decide +kernel
    rw [hrule] at hfault
    cases hfault

/-- Brackets that cannot be read leave the header before them in force. -/
theorem not_own_of_unread_brackets : ¬ ∀ (text : List Char) (i : Nat) (line : List Char),
    (Text.lines text)[i]? = some line → Line.IsBracketed line →
    (∃ e ∈ (ofChars text).errors, e.position.line = i + 1) →
    ∀ rule ∈ (ofChars text).rules, i + 1 < rule.line →
      (∀ j header, i < j → j + 1 < rule.line → (Text.lines text)[j]? = some header →
        ¬ IsAccepted header) →
      ∃ line own, (Text.lines text)[rule.line - 1]? = some line ∧ Rule.ofChars 1 line = .ok own ∧
        rule = own.atLine rule.line := by
  intro h
  let text := "[Culture=fr]\n[Culture de]\nother".toList
  let other : Rule := ⟨{ culture := "fr", case := "other" }, none, [], 3⟩
  have hbracketed : Line.IsBracketed "[Culture de]".toList :=
    ⟨[], "Culture de".toList, [], nofun, nofun, by decide, by decide⟩
  have hbetween : ∀ j header, 1 < j → j + 1 < other.line → (Text.lines text)[j]? = some header →
      ¬ IsAccepted header := by
    intro j header hij hj
    have : j + 1 < 3 := hj
    omega
  obtain ⟨line, own, hline, hown, heq⟩ :=
    h text 1 _ (by decide +kernel) hbracketed (by decide +kernel) other
    (by decide +kernel) (by decide) hbetween
  have : some line = some "other".toList := hline.symm.trans (by decide +kernel)
  cases this
  have hculture : (Rule.ofChars 1 "other".toList).map (·.label.culture) = .ok "" := by
    decide +kernel
  rw [hown] at hculture
  have hempty : own.label.culture = "" := Except.ok.inj hculture
  have hfilled : "fr" = own.label.culture := congrArg (·.label.culture) heq
  exact absurd (hfilled.trans hempty) (by decide)

end Sheet

end PluralRules
