import PluralRules.Proofs.LineOrder

/-!
# Sharing conditions

A catalog that shares conditions keeps a pool of them. The pool keeps one condition for each
fingerprint, the last one that was met. As long as fingerprints tell structural keys apart, this is
one condition for each structural key, and a condition is taken from the pool if the last one with
its structural key was the very same (`Catalog.reused_of_met`).

So a condition that was met before is taken from the pool, unless it was met in other parentheses
since then. Parentheses do not count in structural keys, but they do in conditions, so such a
condition has replaced it (`Catalog.not_reused_of_parentheses`).
-/

namespace PluralRules

/-! ### Conditions in the order in which they are met -/

namespace Expr

variable {met front back old since : List Expr} {e : Expr}

/-- The last one of some conditions that has a structural key. -/
def latest (met : List Expr) (key : List Char) : Option Expr := (met.filter (·.key = key)).getLast?

/-- Those of some conditions, met in turn after others, for which the last one with the same
structural key was the very same condition. -/
def repeated (met : List Expr) : List Expr → List Expr
  | [] => []
  | e :: more => (if latest met e.key = some e then [e] else []) ++ repeated (met ++ [e]) more

/-- Conditions with different structural keys have different fingerprints. -/
def KeysApart (es : List Expr) : Prop :=
  ∀ a ∈ es, ∀ b ∈ es, a.fingerprint = b.fingerprint → a.key = b.key

instance : DecidablePred KeysApart := fun es =>
  inferInstanceAs (Decidable (∀ a ∈ es, ∀ b ∈ es, a.fingerprint = b.fingerprint → a.key = b.key))

/-- For the back of a list of conditions, the front has been met before. -/
theorem repeated_append (met front back : List Expr) :
    repeated met (front ++ back) = repeated met front ++ repeated (met ++ front) back := by
  induction front generalizing met with
  | nil => simp [repeated]
  | cons e front ih => simp [repeated, ih]

/-- A condition that was met is the last one of its structural key, if it was not met in other
parentheses since then. -/
theorem latest_of_since (hsince : ∀ other ∈ since, other.key = e.key → other = e) :
    latest (old ++ e :: since) e.key = some e := by
  rw [latest, List.filter_append, List.filter_cons_of_pos (by simp), List.getLast?_append,
    List.getLast?_cons]
  cases hlast : (since.filter (·.key = e.key)).getLast? with
  | none => rfl
  | some last =>
    obtain ⟨hmem, hkey⟩ := List.mem_filter.mp (List.mem_of_getLast? hlast)
    rw [hsince last hmem (of_decide_eq_true hkey)]
    rfl

/-- Of the times that a condition is met, in the same parentheses each time, all but the first are
repetitions. -/
theorem count_repeated (hsame : ∀ other ∈ met ++ back, other.key = e.key → other = e) :
    back.count e ≤ (repeated met back).count e + if e ∈ met then 0 else 1 := by
  induction back generalizing met with
  | nil => simp
  | cons first back ih =>
    rw [List.append_cons] at hsame
    have hmore := ih hsame
    rw [repeated, List.count_append]
    by_cases hfirst : first = e
    -- met before, it is repeated here; otherwise this is the one time that it is not
    · subst hfirst
      rw [List.count_cons_self]
      simp only [List.mem_append, List.mem_singleton, or_true, if_true] at hmore
      by_cases hmet : first ∈ met
      · obtain ⟨old, since, rfl⟩ := List.append_of_mem hmet
        have hlatest : latest (old ++ first :: since) first.key = some first :=
          latest_of_since fun other hother => hsame other (by simp [hother])
        simp only [hlatest, if_true, List.count_singleton_self]
        omega
      · simp only [hmet, if_false]
        omega
    · rw [List.count_cons_of_ne hfirst]
      have hmem : e ∈ met ++ [first] ↔ e ∈ met := by simp [Ne.symm hfirst]
      simp only [hmem] at hmore
      omega

/-- Where fingerprints tell structural keys apart, they can stand for them. -/
theorem KeysApart.latest_eq (h : KeysApart (met ++ [e])) :
    (met.filter (·.fingerprint = e.fingerprint)).getLast? = latest met e.key := by
  rw [latest]
  refine congrArg List.getLast? (List.filter_congr fun other hother => ?_)
  have hkey : other.fingerprint = e.fingerprint → other.key = e.key :=
    h other (List.mem_append_left _ hother) e (by simp)
  have hfingerprint : other.key = e.key → other.fingerprint = e.fingerprint :=
    congrArg Fingerprint.ofChars
  simp only [decide_eq_decide]
  exact ⟨hkey, hfingerprint⟩

/-- Keys that are apart among more conditions are apart among fewer. -/
theorem KeysApart.of_append (h : KeysApart (front ++ back)) : KeysApart front := fun a ha b hb =>
  h a (List.mem_append_left _ ha) b (List.mem_append_left _ hb)

end Expr

/-! ### What a pool recalls -/

namespace Pool

variable {pool : Pool} {met es : List Expr} {e : Expr} {f g : Fingerprint}

/-- A pool keeps the last condition that was met with each fingerprint, and nothing else. -/
structure Recalls (pool : Pool) (met : List Expr) : Prop where
  find? : ∀ f, pool.find? f = (met.filter (·.fingerprint = f)).getLast?
  nodup : (pool.copies.map Prod.fst).Nodup
  fingerprint : ∀ copy ∈ pool.copies, copy.1 = copy.2.fingerprint

/-- An empty pool recalls nothing. -/
theorem recalls_empty : Recalls {} [] := ⟨fun _ => rfl, .nil, nofun⟩

theorem lookup_filter_ne (copies : List (Fingerprint × Expr)) (h : g ≠ f) :
    (copies.filter fun (other, _) => other != f).lookup g = copies.lookup g := by
  induction copies with
  | nil => rfl
  | cons copy copies ih =>
    obtain ⟨other, e⟩ := copy
    have hne : (g == f) = false := beq_eq_false_iff_ne.mpr h
    by_cases hother : other = f
    · subst hother
      simp [List.lookup_cons, hne, ih]
    · simp [List.lookup_cons, hother, ih]

/-- A copy is found under the fingerprint that it was put under, and replaces no other. -/
theorem find?_insert (pool : Pool) (f g : Fingerprint) (e : Expr) :
    (pool.insert f e).find? g = if g = f then some e else pool.find? g := by
  unfold find? insert
  by_cases h : g = f
  · simp [h]
  · have hne : (g == f) = false := beq_eq_false_iff_ne.mpr h
    simp [List.lookup_cons, hne, h, lookup_filter_ne]

/-- A new last condition is the last one with the property, if it has the property. -/
theorem getLast?_filter_append_singleton (p : Expr → Bool) :
    ((met ++ [e]).filter p).getLast? = if p e then some e else (met.filter p).getLast? := by
  cases h : p e <;> simp [h]

namespace Recalls

/-- No two copies have the same structural key. -/
theorem pairwise_key_ne (h : pool.Recalls met) :
    pool.copies.Pairwise fun a b => a.2.key ≠ b.2.key := by
  refine (List.pairwise_map.mp h.nodup).imp_of_mem fun {a b} ha hb hne hkey => hne ?_
  rw [h.fingerprint a ha, h.fingerprint b hb]
  exact congrArg Fingerprint.ofChars hkey

/-- The pool with one condition more. -/
theorem insert (h : pool.Recalls met) (e : Expr) :
    (pool.insert e.fingerprint e).Recalls (met ++ [e]) where
  find? f := by
    rw [find?_insert, getLast?_filter_append_singleton, h.find?]
    exact if_congr (eq_comm.trans decide_eq_true_iff.symm) rfl rfl
  nodup := by
    simp only [Pool.insert, List.map_cons, List.nodup_cons, List.mem_map, List.mem_filter]
    refine ⟨?_, h.nodup.sublist (List.filter_sublist.map _)⟩
    rintro ⟨copy, ⟨-, hne⟩, heq⟩
    simp [heq] at hne
  fingerprint copy hcopy := by
    rcases List.mem_cons.mp hcopy with rfl | hcopy
    · rfl
    · exact h.fingerprint copy (List.mem_of_mem_filter hcopy)

/-- A condition that is met again leaves the pool as it is. -/
theorem of_find? (h : pool.Recalls met) (hfind : pool.find? e.fingerprint = some e) :
    pool.Recalls (met ++ [e]) where
  find? f := by
    rw [getLast?_filter_append_singleton]
    split
    · next hf => rw [← of_decide_eq_true hf, hfind]
    · exact h.find? f
  nodup := h.nodup
  fingerprint := h.fingerprint

/-- What sharing one condition does. -/
theorem share (h : pool.Recalls met) (e : Expr) :
    (pool.share e).pool.Recalls (met ++ [e]) ∧
      (pool.share e).reused = if pool.find? e.fingerprint =
        some e then [e.fingerprint] else [] := by
  unfold Pool.share
  dsimp only
  cases hfind : pool.find? e.fingerprint with
  | none => exact ⟨h.insert e, rfl⟩
  | some copy =>
    by_cases hcopy : copy = e
    · subst hcopy
      simpa using h.of_find? hfind
    · simpa [hcopy] using h.insert e

end Recalls

/-! ### The conditions of rules -/

/-- The conditions that are shared with rules: those up to the first rule that can be no clause. -/
def conditions (rules : List Rule) : List Expr :=
  (rules.takeWhile fun rule => rule.condition.isSome || rule.isCatchAll).filterMap Rule.condition

/-- What sharing the conditions of rules does. -/
theorem Recalls.shareRules (h : pool.Recalls met) (rules : List Rule)
    (hkeys : Expr.KeysApart (met ++ conditions rules)) :
    (pool.shareRules rules).pool.Recalls (met ++ conditions rules) ∧
      (pool.shareRules rules).reused = (Expr.repeated met (conditions rules)).map
        Expr.fingerprint := by
  induction rules generalizing pool met with
  | nil => simpa [Pool.shareRules, conditions, Expr.repeated] using h
  | cons rule more ih =>
    unfold Pool.shareRules
    cases hcondition : rule.condition with
    | none =>
      cases hcatchAll : rule.isCatchAll with
      | true =>
        have hconditions : conditions (rule :: more) = conditions more := by
          simp [conditions, hcondition, hcatchAll]
        rw [hconditions] at hkeys ⊢
        simp only [if_true]
        exact ih h hkeys
      | false =>
        -- the rule can be no clause, so nothing is shared from here on
        have hconditions : conditions (rule :: more) = [] := by
          simp [conditions, hcondition, hcatchAll]
        simpa [hconditions, Expr.repeated] using h
    | some e =>
      have hconditions : conditions (rule :: more) = e :: conditions more := by
        simp [conditions, hcondition]
      rw [hconditions, List.append_cons] at hkeys
      rw [hconditions, List.append_cons]
      obtain ⟨hfirst, hreused⟩ := h.share e
      obtain ⟨hrest, hmore⟩ := ih hfirst hkeys
      refine ⟨hrest, ?_⟩
      dsimp only
      rw [hreused, hmore, h.find?, hkeys.of_append.latest_eq, Expr.repeated, List.map_append]
      split <;> rfl

end Pool

/-! ### Conditions that requests meet -/

def Event.reused? : Event → Option Fingerprint
  | conditionReused fingerprint => some fingerprint
  | _ => none

namespace Catalog

variable {settings : Settings} {catalog : Catalog} {pool : Pool} {history : List Expr}

/-- The conditions that are shared when a text is read: none, if it is rejected as a whole. -/
def conditionsIn (settings : Settings) (key : CatalogKey) (text : String) : List Expr :=
  if settings.strict && !(Sheet.parse text).errors.isEmpty then [] else Pool.conditions
    (kept key text)

/-- The conditions that are shared when a selector is asked for: none, if its text was read
before. -/
def conditionsFor (catalog : Catalog) (culture : String) (type : PluralType) : List Expr :=
  match catalog.source? (.of culture type) with
  | some ⟨text, none⟩ => conditionsIn catalog.settings (.of culture type) text
  | _ => []

/-- The conditions that are shared at a request, in the order in which they are met. -/
def conditions (catalog : Catalog) : Request → List Expr
  | .selector culture type => catalog.conditionsFor culture type
  | .select culture type _ => catalog.conditionsFor culture type
  | .selectText culture type number =>
    match Quantity.ofString number with
    | .error _ => []
    | .ok _ => catalog.conditionsFor culture type
  | _ => []

/-- The conditions that are shared at requests one after the other. -/
def met (catalog : Catalog) : List Request → List Expr
  | [] => []
  | request :: more => catalog.conditions request ++ (catalog.handle request).2.met more

def events (catalog : Catalog) : Request → List Event
  | .selector culture type => (catalog.selector culture type).events
  | .select culture type q => (catalog.select culture type q).events
  | .selectText culture type number => (catalog.selectText culture type number).events
  | _ => []

/-- What making a selector of rules does to the pool, and which events report it. -/
theorem reused_of_ofRules (hshare : settings.sharePredicates = true) (pool : Pool)
    (key : CatalogKey) (rules : List Rule) :
    let outcome := ofRules settings pool key rules
    outcome.pool = (pool.shareRules rules).pool ∧
      outcome.events.filterMap Event.reused? = (pool.shareRules rules).reused := by
  intro outcome
  have hshared : shareRules settings pool rules = pool.shareRules rules := by
    rw [shareRules, hshare, if_pos rfl]
  refine ⟨congrArg Shared.pool hshared, ?_⟩
  show List.filterMap Event.reused? (_ ++ (shareRules settings pool rules).reused.map _ ++ _) = _
  rw [hshared, List.filterMap_append, List.filterMap_append, List.filterMap_map, List.filterMap_map]
  split <;> cases Selector.ofRules (pool.shareRules rules).value <;>
    simp [Function.comp_def, Event.reused?]

/-- What reading a text does to the pool, and which events report it. -/
theorem recalls_read (hshare : settings.sharePredicates = true) (h : pool.Recalls history)
    (key : CatalogKey)
    (text : String) (hkeys : Expr.KeysApart (history ++ conditionsIn settings key text)) :
    let outcome := read settings pool key text
    outcome.pool.Recalls (history ++ conditionsIn settings key text) ∧
      outcome.events.filterMap Event.reused? =
        (Expr.repeated history (conditionsIn settings key text)).map Expr.fingerprint := by
  intro outcome
  unfold conditionsIn at hkeys ⊢
  by_cases hfault : (settings.strict && !(Sheet.parse text).errors.isEmpty) = true
  · have houtcome : outcome = ⟨.error (.badSheet key.culture (Sheet.parse text).errors), pool,
        (Sheet.parse text).errors.map Event.lineRejected⟩ := if_pos hfault
    rw [if_pos hfault, houtcome]
    refine ⟨by simpa using h, ?_⟩
    simp [Expr.repeated, List.filterMap_map, Function.comp_def, Event.reused?]
  · rw [if_neg hfault] at hkeys ⊢
    obtain ⟨hpool, hreused⟩ := h.shareRules (kept key text) hkeys
    obtain ⟨hsame, hevents⟩ := reused_of_ofRules hshare pool key (kept key text)
    have houtcome : outcome.pool = (ofRules settings pool key (kept key text)).pool ∧
        outcome.events.filterMap Event.reused? =
          (ofRules settings pool key (kept key text)).events.filterMap Event.reused? := by
      show (read settings pool key text).pool = _ ∧
          (read settings pool key text).events.filterMap _ = _
      unfold read
      dsimp only
      rw [if_neg hfault]
      refine ⟨rfl, ?_⟩
      -- what is reported about faults and about other keys is no sharing
      simp [List.filterMap_map, Function.comp_def, Event.reused?, kept]
    rw [houtcome.1, houtcome.2, hsame, hevents]
    exact ⟨hpool, hreused⟩

/-- What asking for a selector does to the pool, and which events report it. -/
theorem recalls_selector (hshare : catalog.settings.sharePredicates = true)
    (h : catalog.pool.Recalls history) (culture : String) (type : PluralType)
    (hkeys : Expr.KeysApart (history ++ catalog.conditionsFor culture type)) :
    (catalog.selector culture type).catalog.pool.Recalls
      (history ++ catalog.conditionsFor culture type) ∧
      (catalog.selector culture type).events.filterMap Event.reused? =
        (Expr.repeated history (catalog.conditionsFor culture type)).map Expr.fingerprint := by
  unfold conditionsFor at hkeys ⊢
  unfold Catalog.selector
  dsimp only
  cases hsource : catalog.source? (.of culture type) with
  | none => simpa [Expr.repeated] using h
  | some source =>
    obtain ⟨text, outcome⟩ := source
    rw [hsource] at hkeys
    cases outcome with
    | some result => simpa [Expr.repeated] using h
    | none => exact recalls_read hshare h (.of culture type) text hkeys

/-- A number makes no difference to what is shared when its case is asked for. -/
theorem reused_select (catalog : Catalog) (culture : String) (type : PluralType) (q : Quantity) :
    (catalog.select culture type q).catalog = (catalog.selector culture type).catalog ∧
      (catalog.select culture type q).events.filterMap Event.reused? =
        (catalog.selector culture type).events.filterMap Event.reused? := by
  unfold select
  dsimp only
  split
  · exact ⟨rfl, rfl⟩
  · refine ⟨rfl, ?_⟩
    rw [List.filterMap_append]
    split <;> simp [Event.reused?]

/-- To the pool, a request is nothing at all, or it asks for a selector. -/
theorem handle_cases (catalog : Catalog) (request : Request) :
    ((catalog.handle request).2.pool = catalog.pool ∧
      (catalog.handle request).2.settings = catalog.settings ∧
      catalog.events request = [] ∧ catalog.conditions request = []) ∨
    ∃ culture type, (catalog.handle request).2 = (catalog.selector culture type).catalog ∧
      (catalog.events request).filterMap Event.reused? =
        (catalog.selector culture type).events.filterMap Event.reused? ∧
      catalog.conditions request = catalog.conditionsFor culture type := by
  cases request with
  | selector culture type => exact .inr ⟨culture, type, rfl, rfl, rfl⟩
  | select culture type q =>
    obtain ⟨hcatalog, hevents⟩ := reused_select catalog culture type q
    exact .inr ⟨culture, type, hcatalog, hevents, rfl⟩
  | selectText culture type number =>
    simp only [handle, events, conditions, selectText]
    cases Quantity.ofString number with
    | error error => exact .inl ⟨rfl, rfl, rfl, rfl⟩
    | ok q =>
      obtain ⟨hcatalog, hevents⟩ := reused_select catalog culture type q
      exact .inr ⟨culture, type, hcatalog, hevents, rfl⟩
  | _ => exact .inl ⟨rfl, rfl, rfl, rfl⟩

theorem settings_selector (catalog : Catalog) (culture : String) (type : PluralType) :
    (catalog.selector culture type).catalog.settings = catalog.settings := by
  unfold Catalog.selector
  dsimp only
  split <;> rfl

/-- Requests do not change the settings. -/
theorem settings_handle (catalog : Catalog) (request : Request) :
    (catalog.handle request).2.settings = catalog.settings := by
  obtain ⟨-, hsettings, -⟩ | ⟨culture, type, hcatalog, -⟩ := catalog.handle_cases request
  · exact hsettings
  · rw [hcatalog, settings_selector]

/-- What a request does to the pool, and which events report it. -/
theorem recalls_handle (hshare : catalog.settings.sharePredicates = true)
    (h : catalog.pool.Recalls history)
    (request : Request) (hkeys : Expr.KeysApart (history ++ catalog.conditions request)) :
    (catalog.handle request).2.pool.Recalls (history ++ catalog.conditions request) ∧
      (catalog.events request).filterMap Event.reused? =
        (Expr.repeated history (catalog.conditions request)).map Expr.fingerprint := by
  obtain ⟨hpool, -, hevents, hconditions⟩ | ⟨culture, type, hcatalog, hevents, hconditions⟩ :=
    catalog.handle_cases request
  · rw [hpool, hevents, hconditions, List.append_nil]
    exact ⟨h, rfl⟩
  · rw [hcatalog, hevents, hconditions]
    exact recalls_selector hshare h culture type (hconditions ▸ hkeys)

/-- After any requests, the pool recalls the conditions that they met. -/
theorem recalls_after (hshare : catalog.settings.sharePredicates = true)
    (h : catalog.pool.Recalls history)
    (requests : List Request) (hkeys : Expr.KeysApart (history ++ catalog.met requests)) :
    (catalog.after requests).settings = catalog.settings ∧
      (catalog.after requests).pool.Recalls (history ++ catalog.met requests) := by
  induction requests generalizing catalog history with
  | nil => exact ⟨rfl, by simpa [met, after] using h⟩
  | cons request more ih =>
    rw [met, ← List.append_assoc] at hkeys ⊢
    have hsettings := settings_handle catalog request
    obtain ⟨hstep, -⟩ := recalls_handle hshare h request hkeys.of_append
    obtain ⟨hrun, hpool⟩ := ih (hsettings ▸ hshare) hstep hkeys
    exact ⟨hrun.trans hsettings, hpool⟩

/-- A condition that was met before is taken from the pool. At any request, after any others, a
condition is taken from the pool that is the same as one met before, unless that one was met in
other parentheses since then. In full, the events of the request report the conditions that are the
same as the last ones with their structural keys, and no others. So the pool never has two copies
with the same structural key, and a condition that is always met in the same parentheses is put
there once. All this holds as long as the fingerprints of the conditions that were met tell their
structural keys apart. -/
theorem reused_of_met (before : List Request) (request : Request)
    (hshare : settings.sharePredicates = true) (hkeys : Expr.KeysApart
      (met { settings } before ++ (after { settings } before).conditions request)) :
    let catalog := after { settings } before
    let history := met { settings } before
    let found := (catalog.events request).filterMap Event.reused?
    (∀ front e back old since, catalog.conditions request = front ++ e :: back →
      history ++ front = old ++ e :: since → (∀ other ∈ since, other.key = e.key → other = e) →
        found = (Expr.repeated history front).map Expr.fingerprint ++ e.fingerprint ::
          (Expr.repeated (history ++ front ++ [e]) back).map Expr.fingerprint) ∧
    found = (Expr.repeated history (catalog.conditions request)).map Expr.fingerprint ∧
    (catalog.handle request).2.pool.copies.Pairwise (fun a b => a.2.key ≠ b.2.key) ∧
    ∀ e, (∀ other ∈ history ++ catalog.conditions request, other.key = e.key → other = e) →
      (history ++ catalog.conditions request).count e ≤
        (Expr.repeated [] (history ++ catalog.conditions request)).count e + 1 := by
  intro catalog history found
  have hbefore : Expr.KeysApart ([] ++ history) := hkeys.of_append
  -- the invariant of the pool, along the requests before and over this one
  obtain ⟨hsettings, hpool⟩ := recalls_after hshare Pool.recalls_empty before hbefore
  obtain ⟨hafter, hfound⟩ := recalls_handle (by rw [hsettings]; exact hshare) hpool request hkeys
  refine ⟨fun front e back old since hconditions hhistory hsince => ?_, hfound,
    hafter.pairwise_key_ne, fun e hsame => ?_⟩
  · have hlatest : Expr.latest (history ++ front) e.key = some e := by
      rw [hhistory]
      exact Expr.latest_of_since hsince
    refine hfound.trans ?_
    show (Expr.repeated history (catalog.conditions request)).map _ = _
    rw [hconditions, Expr.repeated_append, Expr.repeated, if_pos hlatest, List.map_append]
    rfl
  · have hcount : _ ≤ (Expr.repeated [] _).count e + if e ∈ [] then 0 else 1 :=
      Expr.count_repeated hsame
    exact hcount

/-- A condition is taken from the pool that another text had, with another condition met in between.
The same condition in parentheses, which comes next, is not. -/
theorem reused_of_met_of_two :
    let before : List Request := [.add "en" .cardinal "few: n = 5\ntwo: n = 2",
      .add "de" .cardinal "few: n = 5\nmany: (n = 5)\nother", .select "en" .cardinal (.ofInt 1)]
    let request : Request := .selector "de" .cardinal
    let five : Expr := .binary (.relation .eq) (.operand "n") (.literal (.ofInt 5))
    let catalog := after { settings := {} } before
    catalog.conditions request = [five, .paren five] ∧
      (catalog.events request).filterMap Event.reused? = [five.fingerprint] ∧
      (catalog.handle request).2.pool.copies.Pairwise (fun a b => a.2.key ≠ b.2.key) := by
  intro before request five catalog
  let two : Expr := .binary (.relation .eq) (.operand "n") (.literal (.ofInt 2))
  have hconditions : catalog.conditions request = [] ++ five :: [.paren five] := by decide +kernel
  have hmet : met { settings := {} } before ++ [] = [] ++ five :: [two] := by decide +kernel
  have hsince : ∀ other ∈ [two], other.key = five.key → other = five := by decide +kernel
  have hkeys : Expr.KeysApart (met { settings := {} } before ++ catalog.conditions request) := by
    decide +kernel
  obtain ⟨hreused, -, hcopies, -⟩ := reused_of_met before request rfl hkeys
  refine ⟨hconditions, (hreused [] five [.paren five] [] [two] hconditions hmet hsince).trans ?_,
    hcopies⟩
  decide +kernel

/-- A condition that was met before is not taken from the pool if it was met in parentheses in
between. -/
theorem not_reused_of_parentheses : ¬ ∀ (before : List Request) (request : Request) (e : Expr),
    let catalog := after { settings := {} } before
    Expr.KeysApart (met { settings := {} } before ++ catalog.conditions request) →
    catalog.conditions request = [e] → e ∈ met { settings := {} } before →
      (catalog.events request).filterMap Event.reused? = [e.fingerprint] := by
  intro h
  let before : List Request := [.add "en" .cardinal "few: n = 5\nmany: (n = 5)",
    .add "de" .cardinal "few: n = 5", .selector "en" .cardinal]
  let five : Expr := .binary (.relation .eq) (.operand "n") (.literal (.ofInt 5))
  have hreused := h before (.selector "de" .cardinal) five (by decide +kernel) (by decide +kernel)
    (by decide +kernel)
  exact absurd hreused (by decide +kernel)

end Catalog

end PluralRules
