import PluralRules.Text.Case
import PluralRules.Text.Distance

/-!
# Suggestions for a mistyped word

The known words that a mistyped one is close to. Letter case does not count, and a known word at
distance zero is no suggestion: it is the word itself.
-/

namespace PluralRules

namespace Suggestion

/-- The edits that a word may be away: words of up to three characters allow one, longer words
two. -/
def tolerance (word : String) : Nat := if word.length ≤ 3 then 1 else 2

def foldedDistance (word known : String) : Nat :=
  Text.distance (Text.foldCase word.toList) (Text.foldCase known.toList)

def atDistance (word : String) (known : List String) (edits : Nat) : List String :=
  known.filter fun candidate => foldedDistance word candidate == edits

/-- At most three of the known words within the tolerance, the closest first; words equally close
keep the order given. -/
def closest (word : String) (known : List String) : List String :=
  ((List.range' 1 (tolerance word)).flatMap (atDistance word known)).take 3

/-- The end of a message that offers suggestions, empty if there are none. -/
def question (suggestions : List String) : String :=
  if suggestions.isEmpty then "" else ", did you mean: " ++ ", ".intercalate suggestions ++ "?"

end Suggestion

end PluralRules
