import PluralRules.Phrase.Basic

/-!
# Lines of rule text

The parts of a line, as excerpts of it: the entries of the brackets, the case with its conditions,
and the samples. A line with brackets alone is a header for the lines after it.
-/

namespace PluralRules

/-- A key and its value between the brackets of a line. -/
structure Entry where
  key : Excerpt
  value : Excerpt
  deriving Repr

/-- A condition with the stretch of the line that it stands in. -/
structure WrittenCondition where
  text : Excerpt
  phrase : Phrase
  deriving Repr

/-- The name of a case and the conditions after it. More than one is an error, but a different one
than text that cannot be read at all. -/
structure CaseSegment where
  name : Excerpt
  conditions : List WrittenCondition
  deriving Repr

structure SampleSegment where
  name : Excerpt
  values : List Excerpt
  deriving Repr

structure Line where
  info : Option (List Entry)
  case : Option CaseSegment
  samples : List SampleSegment
  deriving Repr

/-- A line without a case is a header. -/
def Line.isHeader (line : Line) : Bool := line.case.isNone

end PluralRules
