import PluralRules.Category

/-!
# Labels

What a rule is for: the culture and the type of counting, the plural case that it selects, the name
of a rule set, and whether it is required. Every part but the case can be left out of a rule and
taken from elsewhere (`fillFrom`). An absent text is the empty text.

In rule text a label stands in brackets. The case is not part of them, because a rule line names its
case by itself.
-/

namespace PluralRules

/-- What a rule is for. -/
structure Label where
  ruleSet : String := ""
  type : Option PluralType := none
  culture : String := ""
  case : String := ""
  required : Option Bool := none
  deriving DecidableEq, Repr

namespace Label

/-- The first text, or the second one where the first is empty. -/
def firstPresent (s t : String) : String := if s.isEmpty then t else s

/-- The label with its absent parts taken from another one. -/
def fillFrom (label defaults : Label) : Label where
  ruleSet := firstPresent label.ruleSet defaults.ruleSet
  type := label.type <|> defaults.type
  culture := firstPresent label.culture defaults.culture
  case := firstPresent label.case defaults.case
  required := label.required <|> defaults.required

/-- One entry of the brackets, if its text is present. -/
def entryChars (key text : String) : List (List Char) :=
  if text.isEmpty then [] else [key.toList ++ '=' :: text.toList]

def truthName (b : Bool) : String := if b then "true" else "false"

def typeName (label : Label) : String := (label.type.map PluralType.name).getD ""

/-- Whether the rule is required, in words; empty if the label does not say. -/
def requiredName (label : Label) : String := (label.required.map truthName).getD ""

/-- The entries of the brackets, for the parts that are present. -/
def entries (label : Label) : List (List Char) :=
  entryChars "RuleSet" label.ruleSet ++ entryChars "Category" label.typeName ++
    entryChars "Culture" label.culture ++ entryChars "Required" label.requiredName

/-- The brackets of a label; nothing at all if no part but the case is present. -/
def chars (label : Label) : List Char :=
  if label.entries.isEmpty then [] else '[' :: [',', ' '].intercalate label.entries ++ [']']

def toString (label : Label) : String := String.ofList label.chars

end Label

end PluralRules
