import PluralRules.Expr.Eval
import PluralRules.Rule.Basic

/-!
# Checking rules by their samples

The samples of a rule claim that the rule selects its case for them. Each group of rules is checked
in the order given: a sample has to satisfy the rule that lists it and none of the rules before. A
group should also have one catch-all, and each case once.
-/

namespace PluralRules

structure SampleSite where
  line : Nat
  case : String
  number : Quantity
  deriving DecidableEq, Repr

/-- What is doubtful about rules. A sample does not satisfy its rule (`mismatch`), satisfies an
earlier rule too, which takes it (`shadowed`), or has no value by a condition (`failed`). A group
has no catch-all, more than one, or two rules of one case. -/
inductive Finding where
  | mismatch (site : SampleSite)
  | shadowed (site : SampleSite) (earlier : String)
  | failed (site : SampleSite) (error : EvalError)
  | noCatchAll (culture : String) (type : Option PluralType)
  | severalCatchAlls (culture : String) (type : Option PluralType) (count : Nat)
  | repeatedCase (line : Nat) (culture case : String)
  deriving DecidableEq, Repr

namespace Lint

/-- The greatest difference between the ends of a range of samples that are all checked. -/
def expansionLimit : Int := 1000

/-- The ends of a range of samples, if they are plain 64-bit integers close enough to check all
between them. -/
def smallRange? (least greatest : Quantity) : Option (Int × Int) := do
  let plain (q : Quantity) : Bool := q.places == 0 && q.exponent == 0
  if !plain least || !plain greatest then none
  let low ← least.toInt64?
  let high ← greatest.toInt64?
  if 0 ≤ high - low && high - low ≤ expansionLimit then some (low, high) else none

/-- The numbers that a sample stands for, as far as they are checked. -/
def numbersOf : Sample → List Quantity
  | .single value => [value]
  | .range least greatest =>
    match smallRange? least greatest with
    | some (low, high) =>
      (List.range ((high - low).toNat + 1)).map fun (k : Nat) => .ofInt (low + k)
    | none => [least, greatest]
  | .ellipsis => []

/-- Whether a rule applies to a quantity. A rule without a condition that is no catch-all says
neither. -/
def applies? (q : Quantity) (rule : Rule) : Except EvalError (Option Bool) :=
  match rule.condition with
  | some condition => (condition.evalBool q).map some
  | none => .ok (if rule.isCatchAll then some true else none)

def firstApplying? (q : Quantity) : List Rule → Except EvalError (Option Rule)
  | [] => .ok none
  | rule :: more => do
    if (← applies? q rule) == some true then .ok (some rule) else firstApplying? q more

/-- What is wrong with a sample of a rule, given the rules before it. -/
def checkSample (earlier : List Rule) (rule : Rule) (q : Quantity) :
    Except EvalError (Option Finding) := do
  let site : SampleSite := ⟨rule.line, rule.case, q⟩
  match ← applies? q rule with
  | none => .ok none
  | some false => .ok (some (.mismatch site))
  | some true => .ok ((← firstApplying? q earlier).map fun found => .shadowed site found.case)

def sampleFinding? (earlier : List Rule) (rule : Rule) (q : Quantity) : Option Finding :=
  match checkSample earlier rule q with
  | .ok finding => finding
  | .error error => some (.failed ⟨rule.line, rule.case, q⟩ error)

def sampleNumbers (rule : Rule) : List Quantity :=
  rule.samples.flatMap fun samples => samples.values.flatMap numbersOf

/-- The findings about the samples of rules that follow others. -/
def sampleFindings (earlier : List Rule) : List Rule → List Finding
  | [] => []
  | rule :: more =>
    (sampleNumbers rule).filterMap (sampleFinding? earlier rule) ++
      sampleFindings (earlier ++ [rule]) more

/-- The findings about cases that rules before have already. -/
def caseFindings (seen : List String) : List Rule → List Finding
  | [] => []
  | rule :: more =>
    if seen.contains rule.case then
      .repeatedCase rule.line rule.label.culture rule.case :: caseFindings seen more
    else caseFindings (rule.case :: seen) more

/-- The finding about a number of catch-alls other than one. The group is named as its first rule
names it. -/
def catchAllFindings : List Rule → List Finding
  | [] => []
  | first :: more =>
    match (first :: more).countP Rule.isCatchAll with
    | 0 => [.noCatchAll first.label.culture first.label.type]
    | 1 => []
    | count => [.severalCatchAlls first.label.culture first.label.type count]

def groupFindings (group : List Rule) : List Finding :=
  catchAllFindings group ++ caseFindings [] group ++ sampleFindings [] group

/-- The findings about rules, group by group. -/
def findings (rules : List Rule) : List Finding := (Rule.groups rules).flatMap groupFindings

end Lint

def SampleSite.lead (site : SampleSite) : String :=
  "line " ++ toString site.line ++ ": sample " ++ site.number.toString

namespace Finding

def groupLead (culture : String) (type : Option PluralType) : String :=
  (type.map PluralType.name).getD "untyped" ++ " rules for culture " ++ quoted culture ++ " have "

def message : Finding → String
  | mismatch site => site.lead ++ " does not satisfy case " ++ quoted site.case
  | shadowed site earlier =>
    site.lead ++ " of case " ++ quoted site.case ++ " is selected by earlier case " ++
      quoted earlier
  | failed site error =>
    site.lead ++ " of case " ++ quoted site.case ++ " failed to evaluate: " ++ error.message
  | noCatchAll culture type => groupLead culture type ++ "no catch-all 'other' rule"
  | severalCatchAlls culture type count =>
    groupLead culture type ++ toString count ++ " catch-all 'other' rules"
  | repeatedCase line culture case =>
    "line " ++ toString line ++ ": case " ++ quoted case ++ " is already defined for culture " ++
      quoted culture

end Finding

end PluralRules
