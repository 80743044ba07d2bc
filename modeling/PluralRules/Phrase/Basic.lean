/-!
# Phrases

A phrase is an expression as it stands in a line of rule text: grouped by the grammar, but not yet
checked for operators that exist or for ranges in places where they mean something. Its leaves are
excerpts of the line, so that whatever is wrong with a phrase can be shown where it stands.
-/

namespace PluralRules

/-- A stretch of a line (`text`), together with all that follows it there (`after`). -/
structure Excerpt where
  text : List Char
  after : List Char
  deriving DecidableEq, Repr

namespace Excerpt

/-- The line from the excerpt on. -/
def tail (e : Excerpt) : List Char := e.text ++ e.after

def toString (e : Excerpt) : String := String.ofList e.text

/-- The part of a text before what remains of it. -/
def before (s rest : List Char) : Excerpt := ⟨s.take (s.length - rest.length), rest⟩

/-- The stretch from the beginning of one excerpt to the end of a later one. -/
def through (first last : Excerpt) : Excerpt := before first.tail last.after

end Excerpt

/-- An expression as it stands in a line. A `word` is not reserved, while `truth` is `true` or
`false`. An operator is `prefixed` to its operand, or stands between the two that it has `joined`. A
`span` is two ends with dots between them, and a `list` at least two items with commas. -/
inductive Phrase where
  | number (text : Excerpt)
  | word (text : Excerpt)
  | truth (text : Excerpt)
  | prefixed (operator : Excerpt) (operand : Phrase)
  | joined (operator : Excerpt) (left right : Phrase)
  | span (dots : Excerpt) (least greatest : Phrase)
  | list (first : Phrase) (more : List Phrase)
  | paren (inner : Phrase)
  deriving Repr

namespace Phrase

/-- The leftmost excerpt of a phrase. Parentheses are not excerpts. -/
def first : Phrase → Excerpt
  | number text | word text | truth text => text
  | prefixed operator _ => operator
  | joined _ left _ => left.first
  | span _ least _ => least.first
  | list item _ => item.first
  | paren inner => inner.first

mutual

def last : Phrase → Excerpt
  | number text | word text | truth text => text
  | prefixed _ operand => operand.last
  | joined _ _ right => right.last
  | span _ _ greatest => greatest.last
  | list item more => (lastOf? more).getD item.last
  | paren inner => inner.last

def lastOf? : List Phrase → Option Excerpt
  | [] => none
  | item :: more => some ((lastOf? more).getD item.last)

end

/-- The stretch of the line from the leftmost to the rightmost excerpt of a phrase. -/
def excerpt (p : Phrase) : Excerpt := p.first.through p.last

end Phrase

end PluralRules
