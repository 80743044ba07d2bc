/-!
# Lines

A text of many lines. A line ends at a newline, which does not belong to it, and neither does one
carriage return right before that newline. What follows the last newline is a line only if it is not
empty, and keeps its carriage returns: nothing ended it.
-/

namespace PluralRules.Text

def lines : List Char → List (List Char)
  | [] => []
  | '\n' :: rest => [] :: lines rest
  | '\r' :: '\n' :: rest => [] :: lines rest
  | c :: rest =>
    match lines rest with
    | [] => [[c]]
    | first :: more => (c :: first) :: more

end PluralRules.Text
