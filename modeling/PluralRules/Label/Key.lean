import PluralRules.Label.Basic
import PluralRules.Text.Quoted

/-!
# The structural key of a label

All five parts of a label in a fixed order, each quoted, so that two labels have the same key
exactly when they are equal up to an absent part being the same as an empty one.
-/

namespace PluralRules

/-- The structural key of a label. -/
def Label.key (label : Label) : List Char :=
  let parts := [label.ruleSet, label.typeName, label.culture, label.case, label.requiredName]
  "(info ".toList ++ [' '].intercalate (parts.map fun part => Text.quote part.toList) ++ [')']

end PluralRules
