import PluralRules.Fingerprint
import PluralRules.Lint
import PluralRules.Selector.Basic

/-!
# Events

What a catalog reports while it works, apart from its answers.
-/

namespace PluralRules

inductive Level where
  | trace | debug | warn
  deriving DecidableEq, Repr

/-- Something that happened while a catalog worked: a line of a sheet has a fault, a line with a
fault or for another culture or type is left out of the rules of a culture, these rules are
doubtful, a condition was met before and is shared, the rules were made a selector, or no clause
took a number. -/
inductive Event where
  | lineRejected (error : ParseError)
  | faultSkipped (culture : String) (error : ParseError)
  | ruleSkipped (culture : String) (rule : Rule)
  | doubtful (culture : String) (finding : Finding)
  | conditionReused (fingerprint : Fingerprint)
  | selectorBuilt (culture : String) (type : PluralType) (clauses : Nat)
  | nothingMatched (number : Quantity) (clauses : Nat)
  deriving Repr

namespace Event

def level : Event → Level
  | lineRejected .. => .trace
  | conditionReused .. | selectorBuilt .. => .debug
  | faultSkipped .. | ruleSkipped .. | doubtful .. | nothingMatched .. => .warn

def message : Event → String
  | lineRejected .. => "rule line rejected"
  | faultSkipped .. => "skipping invalid plural rule"
  | ruleSkipped .. => "skipping plural rule registered for another key"
  | doubtful .. => "plural rule lint"
  | conditionReused .. => "reusing interned predicate"
  | selectorBuilt .. => "built plural rule set"
  | nothingMatched .. => "no plural rule matched, using other"

def fields : Event → List (String × String)
  | lineRejected error => [("line", toString error.position.line), ("error", error.message)]
  | faultSkipped culture error => [("culture", culture), ("error", error.message)]
  | ruleSkipped culture rule =>
    [("culture", culture), ("line", toString rule.line), ("info", rule.label.toString)]
  | doubtful culture finding => [("culture", culture), ("warning", finding.message)]
  | conditionReused fingerprint => [("hash", fingerprint.toString)]
  | selectorBuilt culture type clauses =>
    [("culture", culture), ("rule_type", type.name), ("rules", toString clauses)]
  | nothingMatched number clauses =>
    [("number", number.toString), ("rules", toString clauses)]

end Event

end PluralRules
