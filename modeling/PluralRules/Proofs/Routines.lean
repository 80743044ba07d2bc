import PluralRules.Phrase.Grammar
import PluralRules.Line.Grammar
import PluralRules.Proofs.Descent

/-!
# The routines of lines

The grammar of lines as the program of a scanner with a cursor, one routine for each layer. The
readers of the grammar are given what may stand in parentheses; a routine calls the routine of the
layer that is meant, and that is again its own one sooner or later. Signs and negations are not
counted but read by a routine that calls itself behind each of them.

That this comes to an end is settled by looking at the routines once (`Routine.descends`).
-/

namespace PluralRules

namespace Pattern

variable {ρ : Type}

/-! ### Words and marks -/

def blanks : Pattern ρ := token (.run Text.isBlank)

def mark (c : Char) : Pattern ρ := token (.text [c])

/-- A reserved word, which must not go on as a longer name. -/
def keyword (text : String) : Pattern ρ :=
  seq (token (.text text.toList)) (token (.absent Grammar.isNameChar))

/-- A pattern with blanks around it. -/
def spaced (item : Pattern ρ) : Pattern ρ := seq blanks (seq item blanks)

def comma : Pattern ρ := spaced (mark ',')

/-- A pattern between two characters, with blanks inside them. -/
def enclosed (opening closing : Char) (item : Pattern ρ) : Pattern ρ :=
  seq (seq (mark opening) blanks) (seq item (seq blanks (mark closing)))

def chain (operator operand : Pattern ρ) : Pattern ρ :=
  seq operand (many (seq (spaced operator) operand))

/-- A key of an entry or a name of a list of samples. -/
def name : Pattern ρ := token (.word Grammar.isNameChar [])

def number : Pattern ρ :=
  seq (token (.word Char.isDigit [])) (opt (seq (mark '.') (token (.word Char.isDigit []))))

def comparisonMark : Pattern ρ :=
  seq (token (.one Grammar.isComparisonChar)) (opt (token (.one Grammar.isComparisonChar)))

def arithmeticMark : Pattern ρ := alt (keyword "mod") (token (.one Grammar.isArithmeticChar))

def caseName : Pattern ρ := seq (token (.one Char.isAlpha)) (token (.run Grammar.isCaseChar))

end Pattern

inductive Routine where
  | disjunction | conjunction | negation | simpleCondition | comparison
  | list | range | arithmetic | signed | primary
  | entry | brackets | caseSegment | sampleSegment
  deriving DecidableEq, Repr

namespace Routine

open Pattern

/-- What a routine does. -/
def rule : Routine → Pattern Routine
  | disjunction => chain (alt (keyword "or") (keyword "xor")) (call conjunction)
  | conjunction => chain (keyword "and") (call negation)
  | negation => alt (seq (seq (keyword "not") blanks) (call negation)) (call simpleCondition)
  | simpleCondition =>
    alt (alt (keyword "true") (keyword "false"))
      (alt (call comparison) (enclosed '(' ')' (call disjunction)))
  | comparison => seq (call list) (seq (spaced comparisonMark) (call list))
  | list => separated (call range) comma
  | range => seq (call arithmetic) (opt (seq (spaced (token (.text ['.', '.']))) (call arithmetic)))
  | arithmetic => chain arithmeticMark (call signed)
  | signed => alt (seq (seq (token (.one Grammar.isSignChar)) blanks) (call signed)) (call primary)
  | primary =>
    alt number
      (alt (token (.word Grammar.isWordChar Grammar.reserved)) (enclosed '(' ')' (call list)))
  | entry => seq name (seq (spaced (mark '=')) (token (.run fun c => c != ',' && c != ']')))
  | brackets => enclosed '[' ']' (separated (call entry) comma)
  | caseSegment =>
    seq caseName (seq (opt (seq blanks (mark ':'))) (many (seq blanks (call disjunction))))
  | sampleSegment =>
    seq (seq (mark '@') name)
      (opt (seq blanks (separated (token (.word Grammar.isSampleChar [])) comma)))

/-- The layer of a routine: it calls only routines of lower layers before it has taken a
character. -/
def layer : Routine → Nat
  | primary | entry | brackets | caseSegment | sampleSegment => 0
  | signed => 1
  | arithmetic => 2
  | range => 3
  | list => 4
  | comparison => 5
  | simpleCondition => 6
  | negation => 7
  | conjunction => 8
  | disjunction => 9

/-- No routine calls itself, or one of its own layer or above, before it has taken a character. -/
theorem descends : Descends rule layer where
  takes r := by cases r <;> decide
  safe r := by cases r <;> decide
  height_le r := by cases r <;> decide

def line : Pattern Routine :=
  seq blanks <| seq (opt (call brackets)) <| seq blanks <| seq (opt (call caseSegment)) <|
    seq blanks <| seq (many (seq (call sampleSegment) blanks)) blanks

/-- All that the scanner of a line repeats takes a character each time. -/
theorem safe_line : line.safe = true := by decide

end Routine

end PluralRules
