import PluralRules.Expr.Printer
import PluralRules.Rule.Basic

/-!
# Rules as text

A rule is printed as a line: the brackets with its label, the case with the condition, and the
samples, each where it is present, with single blanks between them.
-/

namespace PluralRules

def Sample.chars : Sample → List Char
  | single value => value.chars
  | range least greatest => least.chars ++ '~' :: greatest.chars
  | ellipsis => ['…']

def Samples.chars (samples : Samples) : List Char :=
  let values := [',', ' '].intercalate (samples.values.map Sample.chars)
  '@' :: samples.name.toList ++ if samples.values.isEmpty then [] else ' ' :: values

def Samples.toString (samples : Samples) : String := String.ofList samples.chars

/-- The numbers that a sample is spelled with. -/
def Sample.numbers : Sample → List Quantity
  | single value => [value]
  | range least greatest => [least, greatest]
  | ellipsis => []

def Samples.numbers (samples : Samples) : List Quantity := samples.values.flatMap Sample.numbers

namespace Rule

/-- The text of a case and its condition; nothing if the rule names no case. -/
def caseChars (rule : Rule) : List Char :=
  match rule.case.toList, rule.condition with
  | [], _ => []
  | case, some condition => case ++ ':' :: ' ' :: condition.chars
  | case, none => case

/-- The line of a rule. -/
def chars (rule : Rule) : List Char :=
  let parts := [rule.label.chars, rule.caseChars].filter (!·.isEmpty)
  [' '].intercalate (parts ++ rule.samples.map Samples.chars)

def toString (rule : Rule) : String := String.ofList rule.chars

/-! ### Texts that are printed -/

/-- The numbers in a rule: in its condition, and then in its samples. -/
def numbers (rule : Rule) : List Quantity :=
  rule.condition.elim [] Expr.numbers ++ rule.samples.flatMap Samples.numbers

/-- Whether a rule can be printed. Its structural key needs no more. -/
def HasText (rule : Rule) : Prop := ∀ q ∈ rule.numbers, q.HasText

instance : DecidablePred HasText := fun rule =>
  inferInstanceAs (Decidable (∀ q ∈ rule.numbers, q.HasText))

def text? (rule : Rule) : Option String := Quantity.textWith? rule.numbers rule.toString

end Rule

end PluralRules
