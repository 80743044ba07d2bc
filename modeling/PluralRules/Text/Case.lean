/-!
# Letter case

Case is folded for the letters `A` to `Z` alone: keywords of rule text are ASCII, and every other
character stands for itself.
-/

namespace PluralRules.Text

/-- The text with the letters `A` to `Z` in lower case. -/
def foldCase (s : List Char) : List Char := s.map Char.toLower

/-- Two texts that differ at most in the case of the letters `A` to `Z`. -/
def sameFolded (s t : List Char) : Bool := foldCase s == foldCase t

end PluralRules.Text
