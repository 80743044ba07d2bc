import Mathlib.Data.Finmap
import PluralRules.Proofs.Sources

/-!
# Catalogs answer like ledgers

A catalog reads a text when its selector is first asked for, keeps the outcome, and shares equal
conditions among all selectors. A ledger does nothing of the kind: it knows the text that was last
put under each key, and reads it anew for every answer.

The main result is that nobody can tell the two apart by their answers, whatever is asked and in
whatever order (`Catalog.answers_eq`). What a catalog and a ledger agree on is stated by
`Catalog.Represents`, and every request preserves it (`Catalog.Represents.handle`).
-/

namespace PluralRules

/-! ### Sharing changes no condition -/

namespace Pool

/-- A copy that is taken from a pool is the very same tree. -/
theorem value_share (pool : Pool) (e : Expr) : (pool.share e).value = e := by
  unfold share
  dsimp only
  split
  · split
    · assumption
    · rfl
  · rfl

/-- Sharing does not change the rules. -/
theorem value_shareRules (pool : Pool) (rules : List Rule) :
    (pool.shareRules rules).value = rules := by
  induction rules generalizing pool with
  | nil => rfl
  | cons rule more ih =>
    unfold shareRules
    cases hcondition : rule.condition with
    | some condition =>
      show { rule with condition := some (pool.share condition).value } :: _ = rule :: more
      rw [value_share, ih, ← hcondition]
    | none =>
      cases rule.isCatchAll with
      | true => exact congrArg (rule :: ·) (ih pool)
      | false => rfl

end Pool

/-! ### Ledgers -/

/-- What the user of a catalog asks of it. -/
inductive Request where
  | add (culture : String) (type : PluralType) (text : String)
  | contains (culture : String) (type : PluralType)
  | cultures
  | selector (culture : String) (type : PluralType)
  | select (culture : String) (type : PluralType) (q : Quantity)
  | selectText (culture : String) (type : PluralType) (number : String)

/-- What the user of a catalog gets from it. -/
inductive Answer where
  | added
  | membership (found : Bool)
  | names (names : List String)
  | selector (result : Except SelectError Selector)
  | case (result : Except SelectError String)

def Request.isAdd : Request → Bool
  | add .. => true
  | _ => false

/-- The text that was last put under each key. -/
structure Ledger where
  strict : Bool
  texts : Finmap fun _ : CatalogKey => String := ∅

namespace Ledger

/-- The selector of a text under a key, made of nothing but the text. -/
def build (ledger : Ledger) (key : CatalogKey) (text : String) : Except SelectError Selector :=
  let sheet := Sheet.parse text
  if ledger.strict && !sheet.errors.isEmpty then .error (.badSheet key.culture sheet.errors)
  else Selector.ofRules (Catalog.rulesFor key sheet).1

def culturesOf (ledger : Ledger) (type : PluralType) : List String :=
  ((ledger.texts.keys.filter (·.type = type)).image CatalogKey.culture).sort

def selector (ledger : Ledger) (culture : String) (type : PluralType) :
    Except SelectError Selector :=
  let key := CatalogKey.of culture type
  match ledger.texts.lookup key with
  | none => .error (.noRules culture (some type)
      (Suggestion.closest (Culture.canonical culture) (ledger.culturesOf type)))
  | some text => ledger.build key text

def select (ledger : Ledger) (culture : String) (type : PluralType) (q : Quantity) :
    Except SelectError String := do
  let selector ← ledger.selector culture type
  selector.select q

/-- The answer to a request. -/
def answer (ledger : Ledger) : Request → Answer
  | .add .. => .added
  | .contains culture type => .membership (CatalogKey.of culture type ∈ ledger.texts)
  | .cultures => .names (ledger.texts.keys.image CatalogKey.culture).sort
  | .selector culture type => .selector (ledger.selector culture type)
  | .select culture type q => .case (ledger.select culture type q)
  | .selectText culture type number =>
    match Quantity.ofString number with
    | .error error => .case (.error (.eval (.quantity error)))
    | .ok q => .case (ledger.select culture type q)

def after (ledger : Ledger) : Request → Ledger
  | .add culture type text => { ledger with texts := ledger.texts.insert (.of culture type) text }
  | _ => ledger

def answers (ledger : Ledger) : List Request → List Answer
  | [] => []
  | request :: more => ledger.answer request :: (ledger.after request).answers more

end Ledger

namespace Catalog

/-- The answer to a request, and the catalog after it. -/
def handle (catalog : Catalog) : Request → Answer × Catalog
  | .add culture type text => (.added, catalog.add culture type text)
  | .contains culture type => (.membership (catalog.contains culture type), catalog)
  | .cultures => (.names catalog.cultures, catalog)
  | .selector culture type =>
    let reply := catalog.selector culture type
    (.selector reply.answer, reply.catalog)
  | .select culture type q =>
    let reply := catalog.select culture type q
    (.case reply.answer, reply.catalog)
  | .selectText culture type number =>
    let reply := catalog.selectText culture type number
    (.case reply.answer, reply.catalog)

def answers (catalog : Catalog) : List Request → List Answer
  | [] => []
  | request :: more => (catalog.handle request).1 :: (catalog.handle request).2.answers more

/-- The catalog after requests one after the other. -/
def after (catalog : Catalog) (requests : List Request) : Catalog :=
  requests.foldl (fun catalog request => (catalog.handle request).2) catalog

/-! ### What a catalog and a ledger agree on -/

/-- A catalog keeps the texts of a ledger, in order, and what it has made of them is what the ledger
would make of them. -/
structure Represents (catalog : Catalog) (ledger : Ledger) : Prop where
  strict : catalog.settings.strict = ledger.strict
  ascending : Ascending catalog.sources
  text : ∀ key, (catalog.source? key).map Source.text = ledger.texts.lookup key
  outcome : ∀ key text result, catalog.source? key = some ⟨text, some result⟩ →
    result = ledger.build key text

variable {catalog : Catalog} {ledger : Ledger}

/-- An empty catalog represents the empty ledger. -/
theorem represents_empty (settings : Settings) :
    Represents { settings } { strict := settings.strict } where
  strict := rfl
  ascending := .nil
  text _ := rfl
  outcome := nofun

theorem value_shareRules (settings : Settings) (pool : Pool) (rules : List Rule) :
    (shareRules settings pool rules).value = rules := by
  unfold shareRules
  split
  · exact pool.value_shareRules rules
  · rfl

/-- Neither checking samples nor sharing conditions has an effect on the selector of a text. -/
theorem result_read (h : catalog.settings.strict = ledger.strict) (key : CatalogKey)
    (text : String) :
    (read catalog.settings catalog.pool key text).result = ledger.build key text := by
  unfold read Ledger.build
  rw [h]
  dsimp only
  split
  · rfl
  · exact congrArg Selector.ofRules (value_shareRules _ _ _)

namespace Represents

/-- A catalog has a text under the same keys as its ledger. -/
theorem mem_keys_iff (h : catalog.Represents ledger) (key : CatalogKey) :
    key ∈ catalog.sources.map Prod.fst ↔ key ∈ ledger.texts.keys := by
  rw [Catalog.mem_keys_iff, Finmap.mem_keys, ← Finmap.lookup_isSome, ← h.text key,
    Option.isSome_map]
  rfl

/-- Another text for a key, and what is made of it. -/
theorem insertSource (h : catalog.Represents ledger) (key : CatalogKey) (source : Source)
    (pool : Pool)
    (hsource : ∀ result, source.outcome = some result → result = ledger.build key source.text) :
    Represents { catalog with sources := Catalog.insertSource key source catalog.sources, pool }
      { ledger with texts := ledger.texts.insert key source.text } where
  strict := h.strict
  ascending := h.ascending.insertSource
  text other := by
    show Option.map _ (List.lookup other (Catalog.insertSource key source catalog.sources)) = _
    rw [lookup_insertSource]
    by_cases hother : other = key
    · rw [if_pos hother, hother, Finmap.lookup_insert]
      rfl
    · rw [if_neg hother, Finmap.lookup_insert_of_ne _ hother]
      exact h.text other
  outcome other text result hlookup := by
    change List.lookup other (Catalog.insertSource key source catalog.sources) = _ at hlookup
    rw [lookup_insertSource] at hlookup
    split at hlookup
    · cases hlookup
      subst other
      exact hsource result rfl
    · exact h.outcome other text result hlookup

/-- The catalog finds the selector that the ledger builds. -/
theorem selector (h : catalog.Represents ledger) (culture : String) (type : PluralType) :
    (catalog.selector culture type).answer = ledger.selector culture type ∧
      (catalog.selector culture type).catalog.Represents ledger := by
  have htext := h.text (.of culture type)
  unfold Catalog.selector Ledger.selector
  dsimp only
  cases hsource : catalog.source? (.of culture type) with
  | none =>
    rw [hsource] at htext
    refine ⟨?_, h⟩
    rw [← htext]
    show Except.error (catalog.notFound culture type) = _
    rw [notFound, culturesOf_eq h.ascending h.mem_keys_iff]
    rfl
  | some source =>
    obtain ⟨text, outcome⟩ := source
    rw [hsource] at htext
    rw [← htext]
    cases outcome with
    | some result => exact ⟨h.outcome _ text result hsource, h⟩
    | none =>
      -- The text is read now. Its outcome is kept beside it, and the texts stay as they are.
      have hresult := result_read h.strict (.of culture type) text
      have hinsert : ledger.texts.insert (.of culture type) text = ledger.texts := by
        refine Finmap.ext_lookup fun key => ?_
        by_cases hkey : key = .of culture type
        · rw [hkey, Finmap.lookup_insert]
          exact htext
        · rw [Finmap.lookup_insert_of_ne _ hkey]
      refine ⟨hresult, ?_⟩
      let outcome := read catalog.settings catalog.pool (.of culture type) text
      have hafter := h.insertSource (.of culture type) { text, outcome := some outcome.result }
        outcome.pool fun result heq => (Option.some.inj heq).symm.trans hresult
      rwa [hinsert] at hafter

/-- Selecting answers as the ledger does, and the catalog represents the same ledger afterwards. -/
theorem select (h : catalog.Represents ledger) (culture : String) (type : PluralType)
    (q : Quantity) : (catalog.select culture type q).answer = ledger.select culture type q ∧
      (catalog.select culture type q).catalog.Represents ledger := by
  obtain ⟨hanswer, hafter⟩ := h.selector culture type
  unfold Catalog.select Ledger.select
  rw [← hanswer]
  dsimp only
  cases (catalog.selector culture type).answer with
  | error error => exact ⟨rfl, hafter⟩
  | ok selector => exact ⟨rfl, hafter⟩

/-- A request gets the same answer from both, and leaves both with the same texts. -/
theorem handle (h : catalog.Represents ledger) (request : Request) :
    (catalog.handle request).1 = ledger.answer request ∧
      (catalog.handle request).2.Represents (ledger.after request) := by
  cases request with
  | add culture type text =>
    exact ⟨rfl, h.insertSource (.of culture type) { text } catalog.pool nofun⟩
  | contains culture type =>
    refine ⟨congrArg Answer.membership (Bool.eq_iff_iff.mpr ?_), h⟩
    rw [decide_eq_true_eq, ← Finmap.lookup_isSome, ← h.text, Option.isSome_map]
    rfl
  | cultures => exact ⟨congrArg Answer.names (cultures_eq h.ascending h.mem_keys_iff), h⟩
  | selector culture type =>
    obtain ⟨hanswer, hafter⟩ := h.selector culture type
    exact ⟨congrArg Answer.selector hanswer, hafter⟩
  | select culture type q =>
    obtain ⟨hanswer, hafter⟩ := h.select culture type q
    exact ⟨congrArg Answer.case hanswer, hafter⟩
  | selectText culture type number =>
    rw [Catalog.handle, selectText, Ledger.answer]
    cases Quantity.ofString number with
    | error error => exact ⟨rfl, h⟩
    | ok q =>
      obtain ⟨hanswer, hafter⟩ := h.select culture type q
      exact ⟨congrArg Answer.case hanswer, hafter⟩

/-- A catalog answers requests as the ledger that it represents. -/
theorem answers (h : catalog.Represents ledger) (requests : List Request) :
    catalog.answers requests = ledger.answers requests := by
  induction requests generalizing catalog ledger with
  | nil => rfl
  | cons request more ih =>
    obtain ⟨hanswer, hafter⟩ := h.handle request
    rw [Catalog.answers, Ledger.answers, hanswer, ih hafter]

theorem after (h : catalog.Represents ledger) (requests : List Request) :
    (catalog.after requests).Represents (requests.foldl Ledger.after ledger) := by
  induction requests generalizing catalog ledger with
  | nil => exact h
  | cons request more ih => exact ih (h.handle request).2

end Represents

/-! ### The answers of a catalog -/

/-- Only texts that are put under keys matter to a ledger. -/
theorem foldl_after_filter (requests : List Request) :
    (requests.filter Request.isAdd).foldl Ledger.after ledger =
      requests.foldl Ledger.after ledger := by
  induction requests generalizing ledger with
  | nil => rfl
  | cons request more ih =>
    cases request with
    | add => exact ih
    | _ => exact ih

/-- A catalog gives the answers of a ledger, whatever is asked and in whatever order. So the answers
do not depend on whether samples are checked and conditions are shared, and the answer to a request
does not depend on what was asked before, but only on the texts that were put under keys. -/
theorem answers_eq (settings : Settings) (requests : List Request) :
    answers { settings } requests = Ledger.answers { strict := settings.strict } requests ∧
      (∀ verifySamples sharePredicates,
        answers { settings := { settings with verifySamples, sharePredicates } } requests =
          answers { settings } requests) ∧
      ∀ request, ((after { settings } requests).handle request).1 =
        ((after { settings } (requests.filter Request.isAdd)).handle request).1 := by
  have hempty := represents_empty settings
  refine ⟨hempty.answers requests, fun verifySamples sharePredicates => ?_, fun request => ?_⟩
  · have hother := represents_empty { settings with verifySamples, sharePredicates }
    exact (hother.answers requests).trans (hempty.answers requests).symm
  · obtain ⟨hall, -⟩ := (hempty.after requests).handle request
    obtain ⟨hadded, -⟩ := (hempty.after (requests.filter Request.isAdd)).handle request
    rw [hall, hadded, foldl_after_filter]

end Catalog

end PluralRules
