import PluralRules.Rule.Parse
import PluralRules.Text.Lines

/-!
# Sheets

A sheet is a text with one rule in a line. Blank lines and comments, which begin with `#` or `//`,
do not count. A line with brackets alone is a header: its label fills the absent parts of the labels
of all rules up to the next header.

A line with a fault is reported, and the others are read all the same. A header whose entries have a
fault still ends the reach of the header before it.
-/

namespace PluralRules

/-- The rules of a text, group by group and in each group with the catch-alls last, and what is
wrong with its other lines, in their order. -/
structure Sheet where
  rules : List Rule
  errors : List ParseError
  deriving Repr

namespace Sheet

/-- What a line contributes to a sheet. A blank line or a comment contributes `nothing`. -/
inductive Contribution where
  | nothing
  | header (label : Label)
  | badHeader (error : ParseError)
  | rule (rule : Rule)
  | fault (error : ParseError)
  deriving Repr

/-- Whether a line is blank or a comment. -/
def isIgnored (line : List Char) : Bool :=
  match Text.skipBlanks line with
  | [] => true
  | '#' :: _ => true
  | '/' :: '/' :: _ => true
  | _ => false

/-- What a line contributes, by itself. -/
def contribution (number : Nat) (line : List Char) : Contribution :=
  if isIgnored line then .nothing
  else
    match Rule.readLine line with
    | .error complaint => .fault (complaint.locate number line)
    | .ok parts =>
      if parts.isHeader then
        match Label.ofEntries (parts.info.getD []) with
        | .ok label => .header label
        | .error complaint => .badHeader (complaint.locate number line)
      else
        match Rule.ofLine number parts with
        | .ok rule => .rule rule
        | .error complaint => .fault (complaint.locate number line)

def contributions (text : List Char) : List Contribution :=
  (Text.lines text).zipIdx.map fun (line, index) => contribution (index + 1) line

/-- The rules among contributions, with their labels filled from the header in force. -/
def rulesUnder (header : Label) : List Contribution → List Rule
  | [] => []
  | .rule rule :: more => rule.fillFrom header :: rulesUnder header more
  | .header label :: more => rulesUnder label more
  | .badHeader _ :: more => rulesUnder {} more
  | _ :: more => rulesUnder header more

def Contribution.error? : Contribution → Option ParseError
  | badHeader error | fault error => some error
  | _ => none

/-- Read a sheet. -/
def ofChars (text : List Char) : Sheet :=
  let all := contributions text
  ⟨Rule.grouped (rulesUnder {} all), all.filterMap Contribution.error?⟩

def parse (text : String) : Sheet := ofChars text.toList

end Sheet

end PluralRules
