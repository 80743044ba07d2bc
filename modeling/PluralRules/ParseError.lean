import PluralRules.Quantity.Printer
import PluralRules.Suggestion

/-!
# Parse errors

What can be wrong with a line of rule text, and where. While a line is read, an error is a
`Complaint`, which points at the offending text by the rest of the line from there on; that needs no
counting. `Complaint.locate` turns it into a line and a column.
-/

namespace PluralRules

/-- A place in a text: both numbers count from one, and columns count characters. -/
structure Position where
  line : Nat
  column : Nat
  deriving DecidableEq, Repr

/-- The place at which a tail of a text begins, if the text begins in the given line. -/
def Position.ofTail (line : Nat) (source tail : List Char) : Position :=
  let consumed := source.take (source.length - tail.length)
  ⟨line + consumed.count '\n', (consumed.reverse.takeWhile (· != '\n')).length + 1⟩

/-- What is wrong with a line. It cannot be read on at a character, or at its end (`unexpected`), a
number in a condition is no numeral, a case has a second condition, an operator does not exist, a
sample is no number, no range and no ellipsis, or a divisor that is spelled out cannot divide. A set
is misplaced where no comparison is, or if it is made of other things than numbers. An entry of the
brackets has an unknown key, or a value that its key does not take. -/
inductive ParseFault where
  | unexpected (found : Option Char)
  | badNumeral (error : QuantityError)
  | repeatedCondition (case text : String)
  | unknownOperator (operator : String)
  | invalidSample (value : String)
  | divisorOutOfRange (divisor : String)
  | misplacedSet (text : String)
  | unknownKey (key : String) (suggestions : List String)
  | invalidValue (key value : String)
  deriving DecidableEq, Repr

structure ParseError where
  position : Position
  fault : ParseFault
  deriving DecidableEq, Repr

/-- The end of a message, which says where. -/
def Position.suffix (p : Position) : String := " at " ++ toString p.line ++ ":" ++ toString p.column

def ParseError.message (e : ParseError) : String :=
  let place := e.position.suffix
  match e.fault with
  | .unexpected (some c) =>
    "syntax error" ++ place ++ ": unexpected character: " ++ quoted c.toString
  | .unexpected none => "syntax error" ++ place ++ ": unexpected end of input"
  | .badNumeral error => "syntax error" ++ place ++ ": " ++ error.message
  | .repeatedCondition case text =>
    "duplicate expression for case " ++ quoted case ++ place ++ ": " ++ quoted text
  | .unknownOperator operator => "unrecognized operator " ++ quoted operator ++ place
  | .invalidSample value => "invalid sample value " ++ quoted value ++ place
  | .divisorOutOfRange divisor => "divisor out of range" ++ place ++ ": " ++ quoted divisor
  | .misplacedSet text => "misplaced range or list" ++ place ++ ": " ++ quoted text
  | .unknownKey key suggestions =>
    "unknown rule info key " ++ quoted key ++ place ++ Suggestion.question suggestions
  | .invalidValue key value =>
    "invalid value " ++ quoted value ++ " for rule info key " ++ quoted key ++ place

/-- What is wrong with a line, and the rest of the line from the offending text on. -/
structure Complaint where
  tail : List Char
  fault : ParseFault
  deriving DecidableEq, Repr

/-- The parse error of a complaint about a text that begins in the given line. -/
def Complaint.locate (line : Nat) (source : List Char) (complaint : Complaint) : ParseError :=
  ⟨Position.ofTail line source complaint.tail, complaint.fault⟩

end PluralRules
