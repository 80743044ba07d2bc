import PluralRules.Expr.Key
import PluralRules.Label.Key
import PluralRules.Rule.Basic

/-!
# Structural keys of rules
-/

namespace PluralRules

def Samples.key (samples : Samples) : List Char :=
  "(samples ".toList ++ Text.quote samples.name.toList ++
    Expr.itemKeys (samples.values.map Sample.toExpr) ++ [')']

namespace Rule

/-- The structural key of a rule. The line that the rule comes from does not count. -/
def key (rule : Rule) : List Char :=
  let condition := match rule.condition with
    | some condition => condition.key
    | none => "(none)".toList
  "(rule ".toList ++ rule.label.key ++ ' ' :: condition ++
    rule.samples.flatMap (fun samples => ' ' :: samples.key) ++ [')']

def fingerprint (rule : Rule) : Fingerprint := Fingerprint.ofChars rule.key

end Rule

end PluralRules
