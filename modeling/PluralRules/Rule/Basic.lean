import PluralRules.Culture
import PluralRules.Expr.Basic
import PluralRules.Label.Basic

/-!
# Rules

A rule says for which numbers a plural case is selected, and lists samples of such numbers. A rule
of the case `other` may do without a condition; it is then the catch-all, which takes whatever the
other rules leave.

The rules of one text may be for several cultures and both types of counting. Rules with the same
culture, up to its spelling, and the same type belong together (`Rule.groups`).
-/

namespace PluralRules

/-- A sample: a number, a range of numbers, or the mark that there are more. -/
inductive Sample where
  | single (value : Quantity)
  | range (least greatest : Quantity)
  | ellipsis
  deriving DecidableEq, Repr

def Sample.toExpr : Sample → Expr
  | single value => .literal value
  | range least greatest => .range least greatest
  | ellipsis => .ellipsis

structure Samples where
  name : String
  values : List Sample
  deriving DecidableEq, Repr

/-- A rule, with the number of the line that it comes from, counted from one. -/
structure Rule where
  label : Label
  condition : Option Expr
  samples : List Samples
  line : Nat
  deriving DecidableEq, Repr

namespace Rule

def case (rule : Rule) : String := rule.label.case

/-- A rule of the case `other` without a condition takes every number. -/
def isCatchAll (rule : Rule) : Bool := rule.condition.isNone && rule.case == Category.other.name

/-- The rule with the absent parts of its label taken from another one. -/
def fillFrom (rule : Rule) (defaults : Label) : Rule :=
  { rule with label := rule.label.fillFrom defaults }

/-- What rules have in common that belong together. -/
structure GroupKey where
  culture : String
  type : Option PluralType
  deriving DecidableEq, Repr

/-- The group that a rule belongs to. -/
def groupKey (rule : Rule) : GroupKey := ⟨Culture.canonical rule.label.culture, rule.label.type⟩

/-- The rules that belong together, group by group in the order in which the groups begin. Within a
group the rules keep their order. -/
def groups (rules : List Rule) : List (List Rule) :=
  (rules.map groupKey).eraseDups.map fun key => rules.filter fun rule => rule.groupKey == key

/-- The rules with the catch-alls moved behind all others, which keep their order, as do the
catch-alls. -/
def catchAllsLast (rules : List Rule) : List Rule :=
  rules.filter (!·.isCatchAll) ++ rules.filter (·.isCatchAll)

/-- The rules group by group, in each group with the catch-alls last. -/
def grouped (rules : List Rule) : List Rule := (groups rules).flatMap catchAllsLast

end Rule

end PluralRules
