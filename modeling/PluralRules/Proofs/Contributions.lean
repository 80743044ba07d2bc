import PluralRules.Proofs.Reader
import PluralRules.Proofs.Result
import PluralRules.Sheet

/-!
# What lines contribute

A line of a sheet is read as if it were the only one: but for the number of the line, the rule or
the error that it contributes is the one it has by itself (`Rule.ofLine_eq`). What else a line does
is to change the header that is in force, and only headers do.

So three views of a contribution tell all there is to it: its error (`error?_contribution`), its
rule (`rule?_contribution`) and the header that is in force behind it (`inForce_contribution`).
-/

namespace PluralRules

def ParseError.atLine (n : Nat) (e : ParseError) : ParseError := ⟨⟨n, e.position.column⟩, e.fault⟩

def Rule.atLine (n : Nat) (rule : Rule) : Rule := { rule with line := n }

/-! ### Reading a line with a number -/

/-- The place of a complaint about a single line differs from line to line only in the line
number. -/
theorem Complaint.locate_eq {s : List Char} (h : '\n' ∉ s) (n : Nat) (complaint : Complaint) :
    complaint.locate n s = (complaint.locate 1 s).atLine n := by
  have hcount : (s.take (s.length - complaint.tail.length)).count '\n' = 0 :=
    List.count_eq_zero.mpr fun hmem => h (List.mem_of_mem_take hmem)
  simp only [locate, Position.ofTail, ParseError.atLine, hcount, Nat.add_zero]

namespace Line

/-- Only a line with a case lists samples. -/
theorem samples_eq_nil {s : List Char} {line : Line} (h : read s = .ok line)
    (hcase : line.case = none) : line.samples = [] := by
  have hcomplete : line.isComplete = true := by
    simp only [read] at h
    split at h
    · next hcomplete =>
      cases h
      exact (Bool.and_eq_true_iff.mp hcomplete).1
    · cases h
  simp only [isComplete, hcase, Option.isSome_none, Bool.false_or, Bool.and_eq_true] at hcomplete
  exact List.isEmpty_iff.mp hcomplete.2

/-- Nothing but a letter or a bracket begins a line. -/
theorem exists_read_eq_error {s : List Char}
    (h : ∀ c, (Text.skipBlanks s).head? = some c → c.isAlpha = false ∧ c ≠ '[') :
    ∃ rest, read s = .error rest := by
  have hbrackets : Grammar.brackets (Text.skipBlanks s) = none := by
    apply Reader.map_eq_none
    have hopen : (Text.skipBlanks s).head? ≠ some '[' := fun hhead => (h _ hhead).2 rfl
    simp [Reader.between, Reader.char_eq_none hopen]
  have hsegment : Grammar.caseSegment (Text.skipBlanks s) = none := by
    have halpha : (Text.skipBlanks s).head?.any Char.isAlpha = false := by
      cases hhead : (Text.skipBlanks s).head? with
      | none => rfl
      | some c => exact (h c hhead).1
    simp [Grammar.caseSegment, Grammar.caseName, Grammar.excerptOf,
      Reader.satisfying_eq_none halpha]
  simp [read, parts, Reader.optional_of_none hbrackets, Text.skipBlanks_skipBlanks,
    Reader.optional_of_none hsegment, isComplete]

end Line

namespace Rule

variable {s : List Char} {line : Line}

/-- The number of a line is written down and not looked at. -/
theorem ofLine_eq (n : Nat) (line : Line) : ofLine n line = (ofLine 1 line).map (atLine n) := by
  simp only [ofLine]
  cases Label.ofEntries (line.info.getD []) with
  | error complaint => rfl
  | ok label =>
    cases line.case with
    | none => cases line.samples.mapM Samples.ofSegment <;> rfl
    | some segment =>
      cases hcondition : conditionOf segment with
      | error complaint => simp [hcondition, bind, Except.bind, Except.map]
      | ok condition =>
        cases line.samples.mapM Samples.ofSegment <;>
          simp [hcondition, bind, Except.bind, Except.map, atLine]

/-- A header gives a rule that is nothing but its label. -/
theorem ofLine_of_isHeader (hread : Line.read s = .ok line)
    (hheader : line.isHeader = true) (n : Nat) :
    ofLine n line = (Label.ofEntries (line.info.getD [])).map fun label =>
      ⟨label, none, [], n⟩ := by
  have hcase : line.case = none := Option.isNone_iff_eq_none.mp hheader
  rw [ofLine, hcase, Line.samples_eq_nil hread hcase]
  cases Label.ofEntries (line.info.getD []) <;> rfl

end Rule

namespace Sheet

/-! ### Lines by themselves -/

def hasCase (line : List Char) : Bool := (Line.read line).toOption.any (!·.isHeader)

def isHeader (line : List Char) : Bool := (Line.read line).toOption.any Line.isHeader

/-- The label that a header gives to the lines after it, which is empty if the header has a
fault. -/
def headerLabel (line : List Char) : Label :=
  match Rule.ofChars 1 line with
  | .ok rule => rule.label
  | .error _ => {}

variable {line : List Char}

/-- A blank line or a comment cannot be read as a line of a rule. -/
theorem exists_read_of_isIgnored (h : isIgnored line = true) :
    ∃ rest, Line.read line = .error rest := by
  apply Line.exists_read_eq_error
  intro c hc
  unfold isIgnored at h
  split at h
  · next hline => rw [hline] at hc; cases hc
  · next hline => rw [hline] at hc; cases hc; decide
  · next hline => rw [hline] at hc; cases hc; decide
  · cases h

theorem hasCase_of_isIgnored (h : isIgnored line = true) : hasCase line = false := by
  obtain ⟨rest, hread⟩ := exists_read_of_isIgnored h
  rw [hasCase, hread]
  rfl

theorem isHeader_of_isIgnored (h : isIgnored line = true) : isHeader line = false := by
  obtain ⟨rest, hread⟩ := exists_read_of_isIgnored h
  rw [isHeader, hread]
  rfl

/-- What a line contributes is decided by whether it counts, whether it is a header, and what it
spells by itself. -/
theorem contribution_eq (h : '\n' ∉ line) (n : Nat) :
    contribution n line =
      if isIgnored line then .nothing
      else
        match Rule.ofChars 1 line with
        | .ok rule => if isHeader line then .header rule.label else .rule (rule.atLine n)
        | .error e => if isHeader line then .badHeader (e.atLine n) else .fault (e.atLine n) := by
  simp only [contribution, Rule.ofChars, Rule.readLine, Complaint.locate_eq h n]
  refine if_congr Iff.rfl rfl ?_
  cases hread : Line.read line with
  | error rest =>
    have hheader : isHeader line = false := by rw [isHeader, hread]; rfl
    simp only [Except.mapError, Except.bind, hheader, Bool.false_eq_true, if_false]
  | ok parts =>
    have hheader : isHeader line = parts.isHeader := by rw [isHeader, hread]; rfl
    rw [hheader]
    cases hparts : parts.isHeader with
    | true =>
      simp only [Except.mapError, Except.bind, hparts, if_true,
        Rule.ofLine_of_isHeader hread hparts]
      cases Label.ofEntries (parts.info.getD []) <;> rfl
    | false =>
      simp only [Except.mapError, Except.bind, hparts, Bool.false_eq_true, if_false,
        Rule.ofLine_eq n parts]
      cases Rule.ofLine 1 parts <;> rfl

/-- A line that spells a rule names a case, or it is a header. -/
theorem hasCase_eq {rule : Rule} (h : Rule.ofChars 1 line = .ok rule) :
    hasCase line = !isHeader line := by
  obtain ⟨parts, hread, -⟩ := bind_eq_ok.mp (mapError_eq_ok.mp h)
  rw [hasCase, isHeader, mapError_eq_ok.mp hread]
  rfl

/-! ### Views of contributions -/

def Contribution.rule? : Contribution → Option Rule
  | .rule own => some own
  | _ => none

/-- The header that is in force behind a contribution. -/
def Contribution.inForce (header : Label) : Contribution → Label
  | .header label => label
  | .badHeader _ => {}
  | _ => header

/-- A line contributes an error exactly if it is not ignored and fails by itself. -/
theorem error?_contribution (h : '\n' ∉ line) {n : Nat} {e : ParseError} :
    (contribution n line).error? = some e ↔
      isIgnored line = false ∧ ∃ own, Rule.ofChars 1 line = .error own ∧ e = own.atLine n := by
  rw [contribution_eq h]
  cases isIgnored line <;> cases isHeader line <;> cases Rule.ofChars 1 line <;>
    simp [Contribution.error?, eq_comm]

/-- A line contributes a rule exactly if it names a case and can be read by itself. -/
theorem rule?_contribution (h : '\n' ∉ line) {n : Nat} {rule : Rule} :
    (contribution n line).rule? = some rule ↔
      hasCase line = true ∧ ∃ own, Rule.ofChars 1 line = .ok own ∧ rule = own.atLine n := by
  rw [contribution_eq h]
  cases hignored : isIgnored line with
  | true => simp [Contribution.rule?, hasCase_of_isIgnored hignored]
  | false =>
    cases hown : Rule.ofChars 1 line with
    | error e => cases isHeader line <;> simp [Contribution.rule?]
    | ok own =>
      rw [hasCase_eq hown]
      cases isHeader line <;> simp [Contribution.rule?, eq_comm]

/-- Only a header changes the label in force. -/
theorem inForce_contribution (h : '\n' ∉ line) (n : Nat) (header : Label) :
    (contribution n line).inForce header = if isHeader line then headerLabel line else header := by
  rw [contribution_eq h]
  unfold headerLabel
  cases hignored : isIgnored line with
  | true =>
    rw [isHeader_of_isIgnored hignored]
    rfl
  | false => cases isHeader line <;> cases Rule.ofChars 1 line <;> rfl

end Sheet

end PluralRules
