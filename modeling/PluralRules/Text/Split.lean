/-!
# Splitting at the first separator
-/

namespace PluralRules.Text

/-- What stands before and after the first place where `separator` occurs in a text. -/
def splitFirst (separator : List Char) : List Char → Option (List Char × List Char)
  | [] => if separator.isEmpty then some ([], []) else none
  | c :: rest =>
    if separator.isPrefixOf (c :: rest) then some ([], (c :: rest).drop separator.length)
    else (splitFirst separator rest).map fun (before, after) => (c :: before, after)

end PluralRules.Text
