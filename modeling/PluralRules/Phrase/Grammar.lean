import PluralRules.Phrase.Basic
import PluralRules.Quantity.Numeral

/-!
# The grammar of phrases

From the loosest operator to the tightest:

    or, xor  <  and  <  not  <  comparison  <  list (,)  <  range (..)  <  arithmetic (%)  <  sign

Chains group to the left. The operators of comparison and of arithmetic are read more widely than
they exist (`==`, `*`), so that a wrong one can be named instead of ending the phrase.

Every layer is a reader made from the reader of the layer below it. The only way back up leads
through parentheses, so each layer takes as an argument what may stand inside those: `value depth`
and `condition depth` read phrases whose parentheses nest less deeply than `depth`. The parentheses
of a text nest less deeply than the text is long, so `conditionReader` leaves out nothing.

An opening parenthesis begins a value or a condition, and which of them shows only later. A
comparison is tried first; if none can be read, the text is read again as a condition in
parentheses.
-/

namespace PluralRules.Grammar

open Reader

/-! ### Words and marks -/

/-- A reader that returns, instead of its item, the excerpt in which it stands. -/
def excerptOf (item : Reader α) : Reader Excerpt := fun s => do
  let (_, rest) ← item s
  some (.before s rest, rest)

/-- The characters of names: letters, digits and the underscore. -/
def isNameChar (c : Char) : Bool := c.isAlphanum || c == '_'

/-- The characters of words: letters and the underscore. -/
def isWordChar (c : Char) : Bool := c.isAlpha || c == '_'

def runOf (p : Char → Bool) : Reader Excerpt := excerptOf (run p)

/-- A reserved word, which must not go on as a longer name. -/
def keyword (text : String) : Reader Excerpt := fun s => do
  let (excerpt, rest) ← excerptOf (literal text.toList) s
  if rest.head?.any isNameChar then none else some (excerpt, rest)

/-- The words that name no operand. -/
def reserved : List (List Char) :=
  ["and", "or", "xor", "not", "mod", "true", "false"].map String.toList

def word : Reader Excerpt := fun s => do
  let (excerpt, rest) ← runOf isWordChar s
  if reserved.contains excerpt.text then none else some (excerpt, rest)

/-- Digits, and then if present a point with digits. -/
def number : Reader Excerpt := excerptOf fun s => do
  let (_, s) ← Numeral.digits s
  some ((), (optional Numeral.pointAndDigits s).2)

def isComparisonChar (c : Char) : Bool := c == '=' || c == '!' || c == '<' || c == '>'

def comparisonMark : Reader Excerpt := excerptOf fun s => do
  let (_, s) ← satisfying isComparisonChar s
  some ((), (optional (satisfying isComparisonChar) s).2)

def isArithmeticChar (c : Char) : Bool := c == '%' || c == '*' || c == '/' || c == '+' || c == '-'

def arithmeticMark : Reader Excerpt :=
  orElse (keyword "mod") (excerptOf (satisfying isArithmeticChar))

def isSignChar (c : Char) : Bool := c == '-' || c == '+' || c == '~'

def dots : Reader Excerpt := excerptOf (literal ['.', '.'])

/-- A mark, with the blanks after it. -/
def thenBlanks (mark : Reader Excerpt) : Reader Excerpt := fun s =>
  (mark s).map fun (excerpt, rest) => (excerpt, Text.skipBlanks rest)

/-! ### Shapes that several layers share -/

/-- An operator and the operand on its right, with blanks that do not count. -/
def link (operator : Reader Excerpt) (operand : Reader Phrase) : Reader (Excerpt × Phrase) :=
  skipping (pair operator operand)

/-- Operands with operators between them, grouped to the left. -/
def chain (operator : Reader Excerpt) (operand : Reader Phrase) : Reader Phrase := fun s => do
  let (first, s) ← operand s
  let (links, s) := many (link operator operand) s
  some (links.foldl (fun left (operator, right) => .joined operator left right) first, s)

/-- An operand after any number of marks. -/
def marked (mark : Reader Excerpt) (operand : Reader Phrase) : Reader Phrase := fun s => do
  let (marks, s) := many (thenBlanks mark) s
  let (operand, s) ← operand s
  some (marks.foldr .prefixed operand, s)

def parenthesized (inner : Reader Phrase) : Reader Phrase := map .paren (between '(' ')' inner)

/-! ### Values -/

/-- A number, a word, or a value in parentheses. -/
def primary (inner : Reader Phrase) : Reader Phrase :=
  orElse (map .number number) (orElse (map .word word) (parenthesized inner))

def signed (inner : Reader Phrase) : Reader Phrase :=
  marked (excerptOf (satisfying isSignChar)) (primary inner)

/-- Values with operators of arithmetic between them. -/
def arithmetic (inner : Reader Phrase) : Reader Phrase := chain arithmeticMark (signed inner)

/-- A value, or two values with dots between them. -/
def range (inner : Reader Phrase) : Reader Phrase := fun s => do
  let (least, s) ← arithmetic inner s
  match link dots (arithmetic inner) s with
  | some ((dots, greatest), s) => some (.span dots least greatest, s)
  | none => some (least, s)

/-- Values and ranges with commas between them; one alone is no list. -/
def list (inner : Reader Phrase) : Reader Phrase := fun s => do
  let ((first, more), s) ← commaSeparated (range inner) s
  match more with
  | [] => some (first, s)
  | more => some (.list first more, s)

/-- A value whose parentheses nest less deeply than `depth`. -/
def value : (depth : Nat) → Reader Phrase
  | 0 => fun _ => none
  | depth + 1 => list (value depth)

/-! ### Conditions -/

def comparison (value : Reader Phrase) : Reader Phrase := fun s => do
  let (left, s) ← value s
  let ((operator, right), s) ← link comparisonMark value s
  some (.joined operator left right, s)

/-- A truth value, a comparison, or a condition in parentheses. -/
def simpleCondition (value inner : Reader Phrase) : Reader Phrase :=
  orElse (map .truth (orElse (keyword "true") (keyword "false")))
    (orElse (comparison value) (parenthesized inner))

def negation (value inner : Reader Phrase) : Reader Phrase :=
  marked (keyword "not") (simpleCondition value inner)

/-- Conditions with `and` between them. -/
def conjunction (value inner : Reader Phrase) : Reader Phrase :=
  chain (keyword "and") (negation value inner)

/-- Conditions with `or` or `xor` between them. -/
def disjunction (value inner : Reader Phrase) : Reader Phrase :=
  chain (orElse (keyword "or") (keyword "xor")) (conjunction value inner)

/-- A condition whose parentheses nest less deeply than `depth`. -/
def condition : (depth : Nat) → Reader Phrase
  | 0 => fun _ => none
  | depth + 1 => disjunction (value (depth + 1)) (condition depth)

def conditionReader : Reader Phrase := fun s => condition (s.length + 1) s

end PluralRules.Grammar
