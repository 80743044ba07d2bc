import PluralRules.Catalog.Event
import PluralRules.Catalog.Pool
import PluralRules.Quantity.Numeral
import PluralRules.Sheet

/-!
# Catalogs

A catalog keeps the rule text of many cultures, one text for each culture and type of counting. The
text is read when its selector is first asked for, and the outcome is kept, be it a selector or an
error, until another text replaces this one.

Every operation returns the catalog as it is afterwards. Keeping outcomes and sharing conditions
shows only in the events: the answers are those of a catalog that would read its texts anew each
time.
-/

namespace PluralRules

/-- What the user of a catalog can choose: whether one line with a fault makes a whole text an error
or is left out (`strict`), whether the rules are checked by their samples, and whether equal
conditions are shared. -/
structure Settings where
  strict : Bool := true
  verifySamples : Bool := false
  sharePredicates : Bool := true
  deriving DecidableEq, Repr

/-- What a text is kept under: the canonical name of a culture, and a type. -/
structure CatalogKey where
  culture : String
  type : PluralType
  deriving DecidableEq, Repr

namespace CatalogKey

def of (culture : String) (type : PluralType) : CatalogKey := ⟨Culture.canonical culture, type⟩

/-- Keys are ordered by culture, and cardinal comes before ordinal. -/
def compare (a b : CatalogKey) : Ordering :=
  (Ord.compare a.culture b.culture).then (Ord.compare (a.type == .ordinal) (b.type == .ordinal))

/-- The label that a text gives to rules which do not say otherwise. -/
def label (key : CatalogKey) : Label := { culture := key.culture, type := some key.type }

def admits (key : CatalogKey) (rule : Rule) : Bool :=
  rule.groupKey == ⟨key.culture, some key.type⟩

end CatalogKey

/-- A rule text, and what came of it if that is known. -/
structure Source where
  text : String
  outcome : Option (Except SelectError Selector) := none

/-- Rule texts by culture and type, in ascending order of their keys. -/
structure Catalog where
  settings : Settings
  sources : List (CatalogKey × Source) := []
  pool : Pool := {}

/-- What an operation returns: an answer, the catalog after it, and what happened meanwhile. -/
structure Reply (α : Type) where
  answer : α
  catalog : Catalog
  events : List Event

namespace Catalog

/-! ### Texts -/

/-- The texts with one more, which replaces the text it may have had under the same key. -/
def insertSource (key : CatalogKey) (source : Source) :
    List (CatalogKey × Source) → List (CatalogKey × Source)
  | [] => [(key, source)]
  | (other, old) :: more =>
    match key.compare other with
    | .lt => (key, source) :: (other, old) :: more
    | .eq => (key, source) :: more
    | .gt => (other, old) :: insertSource key source more

def add (catalog : Catalog) (culture : String) (type : PluralType) (text : String) : Catalog :=
  { catalog with sources := insertSource (.of culture type) { text } catalog.sources }

def source? (catalog : Catalog) (key : CatalogKey) : Option Source := catalog.sources.lookup key

def contains (catalog : Catalog) (culture : String) (type : PluralType) : Bool :=
  (catalog.source? (.of culture type)).isSome

def cultures (catalog : Catalog) : List String :=
  (catalog.sources.map fun (key, _) => key.culture).eraseDups

/-- The cultures that have a text of a type, in ascending order. -/
def culturesOf (catalog : Catalog) (type : PluralType) : List String :=
  (catalog.sources.filter fun (key, _) => key.type == type).map fun (key, _) => key.culture

/-- The error that there is no text for a culture and type. It suggests cultures that have one. -/
def notFound (catalog : Catalog) (culture : String) (type : PluralType) : SelectError :=
  .noRules culture (some type)
    (Suggestion.closest (Culture.canonical culture) (catalog.culturesOf type))

/-! ### Selectors -/

/-- A selector or an error, the pool after it, and what happened meanwhile. -/
structure Outcome where
  result : Except SelectError Selector
  pool : Pool
  events : List Event

/-- Share the conditions of rules, if the settings say so. -/
def shareRules (settings : Settings) (pool : Pool) (rules : List Rule) : Shared (List Rule) :=
  if settings.sharePredicates then pool.shareRules rules else ⟨rules, pool, []⟩

/-- The rules of a sheet for a key, with its label filled in, and the rules for other keys. -/
def rulesFor (key : CatalogKey) (sheet : Sheet) : List Rule × List Rule :=
  (sheet.rules.map (·.fillFrom key.label)).partition key.admits

def ofRules (settings : Settings) (pool : Pool) (key : CatalogKey) (rules : List Rule) : Outcome :=
  let doubts := if settings.verifySamples then Lint.findings rules else []
  let shared := shareRules settings pool rules
  let result := Selector.ofRules shared.value
  let built := match result with
    | .ok selector => [Event.selectorBuilt key.culture key.type selector.clauses.length]
    | .error _ => []
  ⟨result, shared.pool,
    doubts.map (.doubtful key.culture) ++ shared.reused.map .conditionReused ++ built⟩

/-- Make a selector of a text under a key. -/
def read (settings : Settings) (pool : Pool) (key : CatalogKey) (text : String) : Outcome :=
  let sheet := Sheet.parse text
  let rejected := sheet.errors.map Event.lineRejected
  if settings.strict && !sheet.errors.isEmpty then
    ⟨.error (.badSheet key.culture sheet.errors), pool, rejected⟩
  else
    let (own, others) := rulesFor key sheet
    let outcome := ofRules settings pool key own
    { outcome with
      events := rejected ++ sheet.errors.map (.faultSkipped key.culture) ++
        others.map (.ruleSkipped key.culture) ++ outcome.events }

/-- The selector for a culture and type. The text is read only if that has not happened yet. -/
def selector (catalog : Catalog) (culture : String) (type : PluralType) :
    Reply (Except SelectError Selector) :=
  let key := CatalogKey.of culture type
  match catalog.source? key with
  | none => ⟨.error (catalog.notFound culture type), catalog, []⟩
  | some ⟨_, some result⟩ => ⟨result, catalog, []⟩
  | some ⟨text, none⟩ =>
    let outcome := read catalog.settings catalog.pool key text
    let sources := insertSource key { text, outcome := some outcome.result } catalog.sources
    ⟨outcome.result, { catalog with sources, pool := outcome.pool }, outcome.events⟩

def select (catalog : Catalog) (culture : String) (type : PluralType) (q : Quantity) :
    Reply (Except SelectError String) :=
  let reply := catalog.selector culture type
  match reply.answer with
  | .error error => { reply with answer := .error error }
  | .ok selector =>
    let undecided := if selector.isUndecided q then
        [Event.nothingMatched q selector.clauses.length]
      else []
    { reply with answer := selector.select q, events := reply.events ++ undecided }

def selectText (catalog : Catalog) (culture : String) (type : PluralType) (number : String) :
    Reply (Except SelectError String) :=
  match Quantity.ofString number with
  | .error error => ⟨.error (.eval (.quantity error)), catalog, []⟩
  | .ok q => catalog.select culture type q

end Catalog

end PluralRules
