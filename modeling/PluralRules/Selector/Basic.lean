import PluralRules.ParseError
import PluralRules.Rule.Basic
import PluralRules.Selector.Predicate

/-!
# Selectors

A selector holds the clauses of one culture and one type of counting, in the order in which they are
tried, and finds the plural case of a number: the case of the first clause whose predicate holds.
The catch-alls come last. Where no clause holds, the case is `other`.
-/

namespace PluralRules

/-- Why there is no plural case: a condition has no value, a rule of a case that needs a condition
has none, there are no rules for a culture and type, or the rules for a culture have faults. -/
inductive SelectError where
  | eval (error : EvalError)
  | missingCondition (case : String) (line : Nat)
  | noRules (culture : String) (type : Option PluralType) (suggestions : List String)
  | badSheet (culture : String) (errors : List ParseError)
  deriving DecidableEq, Repr

def SelectError.message : SelectError → String
  | eval error => error.message
  | missingCondition case line =>
    "case " ++ quoted case ++ " on line " ++ toString line ++ " has no expression"
  | noRules culture type suggestions =>
    "no " ++ (type.map PluralType.name).getD "" ++ " plural rules for culture " ++ quoted culture ++
      Suggestion.question suggestions
  | badSheet culture errors =>
    "invalid rule set for culture " ++ quoted culture ++ ": " ++
      "; ".intercalate (errors.map ParseError.message)

/-- A case with the predicate that selects it. -/
structure Clause where
  label : Label
  predicate : Predicate
  deriving DecidableEq, Repr

namespace Clause

def case (clause : Clause) : String := clause.label.case

def ofRule (rule : Rule) : Except SelectError Clause :=
  match rule.condition with
  | some condition => .ok ⟨rule.label, .ofExpr condition⟩
  | none =>
    if rule.isCatchAll then .ok ⟨rule.label, .always⟩
    else .error (.missingCondition rule.case rule.line)

/-- Whether a clause takes every number. -/
def isCatchAll (clause : Clause) : Bool := clause.predicate == .always

def takes (q : Quantity) (clause : Clause) : Except SelectError Bool :=
  (clause.predicate.eval q).mapError .eval

/-- The first clause that takes a quantity. The clauses after it are not tried. -/
def firstTaking? (q : Quantity) : List Clause → Except SelectError (Option Clause)
  | [] => .ok none
  | clause :: more => do
    if ← clause.takes q then .ok (some clause) else firstTaking? q more

def chars (clause : Clause) : List Char :=
  if clause.isCatchAll then clause.case.toList
  else clause.case.toList ++ ':' :: ' ' :: clause.predicate.chars

def toString (clause : Clause) : String := String.ofList clause.chars

end Clause

/-- The clauses of one culture and type, in the order in which they are tried. -/
structure Selector where
  culture : String
  type : Option PluralType
  clauses : List Clause
  deriving DecidableEq, Repr

namespace Selector

/-- A selector of clauses, which are tried in the order given except that catch-alls come last. The
culture and the type are those of the first clause. -/
def ofClauses (clauses : List Clause) : Selector :=
  let ordered := clauses.filter (!·.isCatchAll) ++ clauses.filter (·.isCatchAll)
  match ordered.head? with
  | some first => ⟨first.label.culture, first.label.type, ordered⟩
  | none => ⟨"", none, ordered⟩

def ofRules (rules : List Rule) : Except SelectError Selector :=
  (rules.mapM Clause.ofRule).map ofClauses

def cases (selector : Selector) : List String := selector.clauses.map Clause.case

/-- The case where no clause takes a number. -/
def fallback : String := Category.other.name

/-- The case that clauses select for a quantity. Having no clauses at all is an error, which names
the culture and the type that were asked for. -/
def choose (culture : String) (type : Option PluralType) (clauses : List Clause) (q : Quantity) :
    Except SelectError String :=
  if clauses.isEmpty then .error (.noRules culture type [])
  else (Clause.firstTaking? q clauses).map fun found => (found.map Clause.case).getD fallback

/-- The case that a selector selects for a quantity. -/
def select (selector : Selector) (q : Quantity) : Except SelectError String :=
  choose selector.culture selector.type selector.clauses q

/-- Whether a selector has clauses and yet none that takes a quantity. -/
def isUndecided (selector : Selector) (q : Quantity) : Bool :=
  !selector.clauses.isEmpty &&
    match Clause.firstTaking? q selector.clauses with
    | .ok none => true
    | _ => false

/-- The text of a selector: its clauses, one in a line. -/
def chars (selector : Selector) : List Char :=
  ['\n'].intercalate (selector.clauses.map Clause.chars)

def toString (selector : Selector) : String := String.ofList selector.chars

def text? (selector : Selector) : Option String :=
  Quantity.textWith? (selector.clauses.flatMap fun clause => clause.predicate.numbers)
    selector.toString

end Selector

end PluralRules
