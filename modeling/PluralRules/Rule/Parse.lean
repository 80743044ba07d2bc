import PluralRules.Line.Grammar
import PluralRules.Phrase.Meaning
import PluralRules.Rule.Basic
import PluralRules.Text.Split

/-!
# Reading rules

A line that the grammar accepts is a rule if its entries, its condition and its samples mean
something. They are looked at in this order, so of several faults the first in it is reported. A
case may be named among the entries, but the case segment of the line has the last word.
-/

namespace PluralRules

/-! ### Labels -/

namespace Label

/-- The keys of entries, as they are printed. They are read in any letter case. -/
def keys : List String := ["RuleSet", "Category", "Culture", "Case", "Required"]

/-- The truth value that a word names in any letter case. -/
def truthOf? (word : List Char) : Option Bool :=
  if Text.sameFolded word "true".toList then some true
  else if Text.sameFolded word "false".toList then some false
  else none

/-- The value of an entry that may be empty, which is the same as being absent. -/
def valueOf (entry : Entry) (read : List Char → Option α) : Except Complaint (Option α) :=
  if entry.value.text.isEmpty then .ok none
  else
    match read entry.value.text with
    | some a => .ok (some a)
    | none => .error (entry.value.complain (.invalidValue entry.key.toString))

/-- The label with one entry more. A later entry with the same key replaces an earlier one. -/
def withEntry (label : Label) (entry : Entry) : Except Complaint Label :=
  let text := entry.value.toString
  match String.ofList (Text.foldCase entry.key.text) with
  | "ruleset" => .ok { label with ruleSet := text }
  | "culture" => .ok { label with culture := text }
  | "case" => .ok { label with case := text }
  | "category" => do
    let type ← valueOf entry fun word => PluralType.ofKeyword? (String.ofList word)
    .ok { label with type }
  | "required" => do
    let required ← valueOf entry truthOf?
    .ok { label with required }
  | _ => .error (entry.key.complain fun key => .unknownKey key (Suggestion.closest key keys))

def ofEntries (entries : List Entry) : Except Complaint Label := entries.foldlM withEntry {}

end Label

/-! ### Samples -/

namespace Sample

/-- The ends of a range, which a tilde separates, or two dots if there is no tilde. -/
def ends? (s : List Char) : Option (List Char × List Char) :=
  Text.splitFirst ['~'] s <|> Text.splitFirst ['.', '.'] s

def ofChars? (s : List Char) : Option Sample :=
  if s == ['…'] || s == ['.', '.', '.'] then some ellipsis
  else
    match ends? s with
    | some (least, greatest) => do
      some (range (← (Quantity.ofChars least).toOption) (← (Quantity.ofChars greatest).toOption))
    | none => (Quantity.ofChars s).toOption.map single

def ofExcerpt (e : Excerpt) : Except Complaint Sample :=
  match ofChars? e.text with
  | some sample => .ok sample
  | none => .error (e.complain .invalidSample)

end Sample

def Samples.ofSegment (segment : SampleSegment) : Except Complaint Samples := do
  let values ← segment.values.mapM Sample.ofExcerpt
  .ok ⟨segment.name.toString, values⟩

/-! ### Rules -/

namespace Rule

/-- The condition of a case, of which there is at most one. -/
def conditionOf (segment : CaseSegment) : Except Complaint (Option Expr) :=
  match segment.conditions with
  | [] => .ok none
  | [only] => do .ok (some (← only.phrase.meaning false))
  | _ :: second :: _ => .error (second.text.complain (.repeatedCondition segment.name.toString))

def ofLine (number : Nat) (line : Line) : Except Complaint Rule := do
  let label ← Label.ofEntries (line.info.getD [])
  let label := match line.case with
    | some segment => { label with case := segment.name.toString }
    | none => label
  let condition ← match line.case with
    | some segment => conditionOf segment
    | none => .ok none
  let samples ← line.samples.mapM Samples.ofSegment
  .ok ⟨label, condition, samples, number⟩

/-- The complaint about a line that cannot be read on. -/
def unread (rest : List Char) : Complaint := ⟨rest, .unexpected rest.head?⟩

/-- The parts of a line, or the complaint about what cannot be read. -/
def readLine (s : List Char) : Except Complaint Line := (Line.read s).mapError unread

/-- The rule that the parts of a text give, which have been read from it before. -/
def ofParts (s : List Char) (line : Line) : Except ParseError Rule :=
  (ofLine 1 line).mapError (·.locate 1 s)

/-- The rule that a text spells, which begins in the given line of a larger text. -/
def ofChars (number : Nat) (s : List Char) : Except ParseError Rule :=
  ((readLine s).bind (ofLine number)).mapError (·.locate number s)

def parse (text : String) : Except ParseError Rule := ofChars 1 text.toList

end Rule

end PluralRules
