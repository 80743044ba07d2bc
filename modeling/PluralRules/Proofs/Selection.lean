import PluralRules.Proofs.Result
import PluralRules.Selector.Basic

/-!
# Selection is a walk through the rules

A selector turns conditions into predicates, some of which need no tree, and moves the catch-alls
behind the other clauses. None of that shows: the case of a number is found by walking through the
rules with a condition in the order in which they were given (`Rule.firstCase`). The first condition
that holds decides, and so does the first one that has no value; no rule behind it counts. Where no
condition holds, the case is `other`, with or without a catch-all.

So a list of rules may have its catch-alls anywhere, any number of them, or none.
-/

namespace PluralRules

/-! ### Predicates -/

namespace Predicate

variable {e : Expr} {predicate : Predicate}

/-- The condition equates `n` with an integer that is written without a fraction. Parentheses may
stand around the condition and around each of its sides. -/
def IsEquation (z : Int) (e : Expr) : Prop :=
  ∃ left right, e.bare = .binary (.relation .eq) left right ∧ left.bare = .operand "n" ∧
    right.bare = .literal (.ofInt z)

/-- An equation is worth whether the magnitude compares equal to the integer. -/
theorem IsEquation.evalBool_eq {z : Int} (h : IsEquation z e) (x : Quantity) :
    e.evalBool x = .ok (x.magnitude.compare (.ofInt z) == .eq) := by
  obtain ⟨left, right, hbare, hleft, hright⟩ := h
  rw [← Expr.evalBool_bare, hbare, Expr.evalBool, ← Expr.compareSides_bare, hleft, hright]
  rfl

/-- The predicates that need no tree are those of the equations with zero and with one. -/
theorem ofEquation?_eq_some_iff : ofEquation? e = some predicate ↔
    IsEquation 0 e ∧ predicate = zero ∨ IsEquation 1 e ∧ predicate = one := by
  constructor
  · intro h
    unfold ofEquation? at h
    split at h
    · next left right hbare =>
      split at h
      · next name value hleft hright =>
        split_ifs at h with hname hzero hone
        · obtain rfl : name = "n" := by simpa using hname
          subst hzero
          exact Or.inl ⟨⟨left, right, hbare, hleft, hright⟩, (Option.some.inj h).symm⟩
        · obtain rfl : name = "n" := by simpa using hname
          subst hone
          exact Or.inr ⟨⟨left, right, hbare, hleft, hright⟩, (Option.some.inj h).symm⟩
      · cases h
    · cases h
  · rintro (⟨⟨left, right, hbare, hl, hr⟩, rfl⟩ | ⟨⟨left, right, hbare, hl, hr⟩, rfl⟩) <;>
    · simp only [ofEquation?, hbare, hl, hr]
      rfl

/-- The predicate of a condition holds where the condition does, and fails where it does. -/
theorem eval_ofExpr (e : Expr) (x : Quantity) : (ofExpr e).eval x = e.evalBool x := by
  unfold ofExpr
  cases h : ofEquation? e with
  | none => rfl
  | some predicate =>
    rcases ofEquation?_eq_some_iff.mp h with ⟨hequation, rfl⟩ | ⟨hequation, rfl⟩ <;>
      exact (hequation.evalBool_eq x).symm

/-- A predicate without a tree comes from an equation. -/
theorem ofExpr_eq_iff (h : ∀ e', predicate ≠ condition e') :
    ofExpr e = predicate ↔ ofEquation? e = some predicate := by
  unfold ofExpr
  cases ofEquation? e with
  | none => exact iff_of_false (fun heq => h e heq.symm) nofun
  | some found => exact (Option.some_inj).symm

/-- Exactly the conditions that equate `n` with zero become the predicate for zero. -/
theorem ofExpr_eq_zero_iff : ofExpr e = zero ↔ IsEquation 0 e := by
  have hne : ∀ e', zero ≠ condition e' := nofun
  rw [ofExpr_eq_iff hne, ofEquation?_eq_some_iff]
  simp

theorem ofExpr_eq_one_iff : ofExpr e = one ↔ IsEquation 1 e := by
  have hne : ∀ e', one ≠ condition e' := nofun
  rw [ofExpr_eq_iff hne, ofEquation?_eq_some_iff]
  simp

/-- No condition becomes the predicate that always holds. -/
theorem ofExpr_ne_always (e : Expr) : ofExpr e ≠ always := by
  unfold ofExpr
  cases h : ofEquation? e with
  | none => nofun
  | some predicate =>
    rcases ofEquation?_eq_some_iff.mp h with ⟨-, rfl⟩ | ⟨-, rfl⟩ <;> nofun

end Predicate

/-! ### Clauses -/

namespace Clause

variable {rule : Rule} {clause : Clause}

/-- The clause of a rule with a condition. -/
theorem ofRule_of_condition {e : Expr} (he : rule.condition = some e) :
    ofRule rule = .ok ⟨rule.label, .ofExpr e⟩ := by
  rw [ofRule, he]

/-- The clause of a rule is a catch-all if the rule is. -/
theorem isCatchAll_of_ofRule (h : ofRule rule = .ok clause) :
    clause.isCatchAll = rule.isCatchAll := by
  cases he : rule.condition with
  | some e =>
    cases (ofRule_of_condition he).symm.trans h
    rw [Rule.isCatchAll, he]
    exact beq_eq_false_iff_ne.mpr (Predicate.ofExpr_ne_always e)
  | none =>
    rw [ofRule, he] at h
    dsimp only at h
    split at h
    · next hcatchAll => cases h; exact hcatchAll.symm
    · cases h

theorem label_of_ofRule (h : ofRule rule = .ok clause) : clause.label = rule.label := by
  unfold ofRule at h
  split at h
  · cases h; rfl
  · split at h
    · cases h; rfl
    · cases h

/-- A rule makes a clause unless its case needs a condition and it has none. -/
theorem exists_ofRule_eq_ok :
    (∃ clause, ofRule rule = .ok clause) ↔
    (rule.isCatchAll = false → rule.condition.isSome = true) := by
  cases he : rule.condition with
  | some e => exact ⟨fun _ _ => rfl, fun _ => ⟨_, ofRule_of_condition he⟩⟩
  | none =>
    rw [ofRule, he]
    cases hcatchAll : rule.isCatchAll with
    | true => exact ⟨fun _ => nofun, fun _ => ⟨_, if_pos rfl⟩⟩
    | false => exact ⟨nofun, fun h => by cases h rfl⟩

/-- A catch-all takes every number. -/
theorem takes_of_isCatchAll (h : clause.isCatchAll = true) (x : Quantity) :
    clause.takes x = .ok true := by
  rw [takes, beq_iff_eq.mp h]
  rfl

end Clause

/-! ### The walk -/

/-- The case of the first rule whose condition holds, and `other` if none does. Rules without a
condition are passed over, and a condition without a value ends the walk. -/
def Rule.firstCase (x : Quantity) : List Rule → Except EvalError String
  | [] => .ok "other"
  | rule :: more =>
    match rule.condition with
    | none => firstCase x more
    | some e => do if ← e.evalBool x then .ok rule.case else firstCase x more

namespace Rule

variable {x : Quantity} {rule : Rule} {e : Expr} {front back : List Rule}

/-- The first rule whose condition holds is found by looking at the first rule and then at the
others. -/
theorem firstCase_cons (he : rule.condition = some e) : firstCase x (rule :: back) =
    (e.evalBool x >>= fun b => if b then .ok rule.case else firstCase x back) := by
  rw [firstCase, he]

/-- Conditions that do not hold are passed over. -/
theorem firstCase_append (h : ∀ rule ∈ front, ∀ e, rule.condition = some e →
    e.evalBool x = .ok false) : firstCase x (front ++ back) = firstCase x back := by
  induction front with
  | nil => rfl
  | cons rule front ih =>
    obtain ⟨hrule, hfront⟩ := List.forall_mem_cons.mp h
    cases he : rule.condition with
    | none =>
      rw [List.cons_append, firstCase, he]
      exact ih hfront
    | some e =>
      rw [List.cons_append, firstCase_cons he, hrule e he]
      exact ih hfront

end Rule

namespace Selector

variable {rules : List Rule} {clauses : List Clause} {selector : Selector}

/-- The case of the first clause that takes a quantity, and `other` if none does. -/
def caseAmong (x : Quantity) (clauses : List Clause) : Except SelectError String :=
  (Clause.firstTaking? x clauses).map fun found => (found.map Clause.case).getD fallback

theorem caseAmong_cons (x : Quantity) (clause : Clause) (more : List Clause) :
    caseAmong x (clause :: more) =
      (clause.takes x >>= fun b => if b then .ok clause.case else caseAmong x more) := by
  rw [caseAmong, Clause.firstTaking?]
  cases clause.takes x with
  | error error => rfl
  | ok b => cases b <;> rfl

/-- Catch-alls say what is said where there are none. -/
theorem caseAmong_catchAlls (x : Quantity) {clauses : List Clause}
    (h : ∀ clause ∈ clauses, clause.isCatchAll = true ∧ clause.case = fallback) :
    caseAmong x clauses = .ok fallback := by
  cases clauses with
  | nil => rfl
  | cons clause more =>
    obtain ⟨hcatchAll, hcase⟩ := h clause List.mem_cons_self
    rw [caseAmong_cons, Clause.takes_of_isCatchAll hcatchAll, ← hcase]
    rfl

/-- The clauses of rules find the case that the walk through the rules finds. -/
theorem caseAmong_append (x : Quantity) {catchAlls : List Clause}
    (h : List.Forall₂ (fun rule clause => Clause.ofRule rule = .ok clause) rules clauses)
    (hrules : ∀ rule ∈ rules, rule.isCatchAll = false)
    (hcatchAlls : caseAmong x catchAlls = .ok fallback) :
    caseAmong x (clauses ++ catchAlls) = (Rule.firstCase x rules).mapError .eval := by
  induction h with
  | nil => exact hcatchAlls
  | @cons rule clause rules clauses hclause _ ih =>
    obtain ⟨hrule, hrules⟩ := List.forall_mem_cons.mp hrules
    obtain ⟨e, he⟩ :=
      Option.isSome_iff_exists.mp (Clause.exists_ofRule_eq_ok.mp ⟨clause, hclause⟩ hrule)
    cases (Clause.ofRule_of_condition he).symm.trans hclause
    rw [List.cons_append, caseAmong_cons, Rule.firstCase_cons he, Clause.takes,
      Predicate.eval_ofExpr]
    cases e.evalBool x with
    | error error => rfl
    | ok b =>
      cases b with
      | true => rfl
      | false => exact ih hrules

/-- A selector tries the clauses in order, with the catch-alls last. -/
theorem clauses_ofClauses (clauses : List Clause) : (ofClauses clauses).clauses =
    clauses.filter (!·.isCatchAll) ++ clauses.filter (·.isCatchAll) := by
  unfold ofClauses
  dsimp only
  split <;> rfl

/-- Rules make a selector exactly if each of them makes a clause. -/
theorem ofRules_eq_ok : ofRules rules = .ok selector ↔ ∃ clauses,
    List.Forall₂ (fun rule clause => Clause.ofRule rule = .ok clause) rules clauses ∧
      ofClauses clauses = selector := by
  simp only [ofRules, map_eq_ok, mapM_eq_ok]

/-- The clauses of a selector are those of the rules, with the catch-alls last. -/
theorem forall₂_of_ofRules (h : ofRules rules = .ok selector) :
    ∃ clauses catchAlls, selector.clauses = clauses ++ catchAlls ∧
      List.Forall₂ (fun rule clause => Clause.ofRule rule = .ok clause)
        (rules.filter (!·.isCatchAll)) clauses ∧
      List.Forall₂ (fun rule clause => Clause.ofRule rule = .ok clause)
        (rules.filter (·.isCatchAll)) catchAlls := by
  obtain ⟨clauses, hall, rfl⟩ := ofRules_eq_ok.mp h
  refine ⟨_, _, clauses_ofClauses clauses, List.rel_filter ?_ hall, List.rel_filter ?_ hall⟩
  · intro rule clause h
    simp only [Clause.isCatchAll_of_ofRule h]
  · intro rule clause h
    simp only [Clause.isCatchAll_of_ofRule h]

theorem clauses_ne_nil (hne : rules ≠ []) (h : ofRules rules = .ok selector) :
    selector.clauses ≠ [] := by
  intro hnil
  obtain ⟨clauses, catchAlls, heq, hclauses, hcatchAlls⟩ := forall₂_of_ofRules h
  obtain ⟨rfl, rfl⟩ := List.append_eq_nil_iff.mp (heq.symm.trans hnil)
  rw [List.forall₂_nil_right_iff, List.filter_eq_nil_iff] at hclauses hcatchAlls
  obtain ⟨rule, hrule⟩ := List.exists_mem_of_ne_nil rules hne
  exact hclauses rule hrule (by simpa using hcatchAlls rule hrule)

/-- Rules have a selector if all but the catch-alls have a condition. -/
theorem exists_ofRules_eq_ok : (∃ selector, ofRules rules = .ok selector) ↔
    ∀ rule ∈ rules.filter (!·.isCatchAll), rule.condition.isSome = true := by
  have hmap : (∃ selector, ofRules rules = .ok selector) ↔
      ∃ clauses, rules.mapM Clause.ofRule = .ok clauses := by
    simp only [ofRules_eq_ok, mapM_eq_ok]
    exact ⟨fun ⟨_, clauses, hall, _⟩ => ⟨clauses, hall⟩, fun ⟨clauses, hall⟩ =>
      ⟨_, clauses, hall, rfl⟩⟩
  rw [hmap, exists_mapM_eq_ok]
  simp only [Clause.exists_ofRule_eq_ok, List.mem_filter, Bool.not_eq_true', and_imp]

/-- A selector of rules finds the case that the walk through the rules with a condition finds. -/
theorem select_eq_firstCase (hne : rules ≠ []) (h : ofRules rules = .ok selector) (x : Quantity) :
    selector.select x =
      (Rule.firstCase x (rules.filter (!·.isCatchAll))).mapError .eval := by
  have hclauses : selector.clauses.isEmpty = false := by simpa using clauses_ne_nil hne h
  obtain ⟨clauses, catchAlls, heq, hforall, hcatchAlls⟩ := forall₂_of_ofRules h
  have hfallback : ∀ clause ∈ catchAlls, clause.isCatchAll = true ∧ clause.case = fallback := by
    refine forall_right hcatchAlls fun rule hrule clause hclause => ?_
    obtain ⟨-, hcatchAll⟩ := List.mem_filter.mp hrule
    rw [Clause.isCatchAll_of_ofRule hclause, Clause.case, Clause.label_of_ofRule hclause]
    exact ⟨hcatchAll, beq_iff_eq.mp (Bool.and_eq_true_iff.mp hcatchAll).2⟩
  rw [select, choose, hclauses, heq]
  refine caseAmong_append x hforall (fun rule hrule => ?_) (caseAmong_catchAlls x hfallback)
  simpa using (List.mem_filter.mp hrule).2

/-- The case of a number depends only on the rules other than catch-alls, in their order.

The clauses of a selector are those of the rules with the catch-alls last, and the case it selects
is the one that a walk through the other rules finds. So a list with other catch-alls, or the same
ones elsewhere, has a selector that selects the same cases. And the first rule whose condition is
not false decides, whatever rules come behind it. -/
theorem select_of_ofRules (hne : rules ≠ []) (h : ofRules rules = .ok selector) :
    (Rule.catchAllsLast rules).mapM Clause.ofRule = .ok selector.clauses ∧
    (∀ x, selector.select x =
      (Rule.firstCase x (rules.filter (!·.isCatchAll))).mapError .eval) ∧
    (∀ rules' ≠ [], rules'.filter (!·.isCatchAll) = rules.filter (!·.isCatchAll) →
      ∃ selector', ofRules rules' = .ok selector' ∧ ∀ x, selector'.select x = selector.select x) ∧
    ∀ x front rule back e, rules.filter (!·.isCatchAll) = front ++ rule :: back →
      (∀ earlier ∈ front, ∀ e, earlier.condition = some e → e.evalBool x = .ok false) →
      rule.condition = some e →
        (e.evalBool x = .ok true → selector.select x = .ok rule.case) ∧
        ∀ error, e.evalBool x = .error error → selector.select x = .error (.eval error) := by
  refine ⟨?_, select_eq_firstCase hne h, ?_, ?_⟩
  · obtain ⟨clauses, catchAlls, heq, hclauses, hcatchAlls⟩ := forall₂_of_ofRules h
    rw [heq]
    exact mapM_eq_ok.mpr (List.rel_append hclauses hcatchAlls)
  · intro rules' hne' heq
    -- whether a selector can be made depends on the same rules, too
    have hconditions := exists_ofRules_eq_ok.mp ⟨selector, h⟩
    rw [← heq] at hconditions
    obtain ⟨selector', h'⟩ := exists_ofRules_eq_ok.mpr hconditions
    refine ⟨selector', h', fun x => ?_⟩
    rw [select_eq_firstCase hne h, select_eq_firstCase hne' h', heq]
  · intro x front rule back e heq hfront he
    have hselect : selector.select x =
        Except.mapError .eval
          (e.evalBool x >>= fun b => if b then .ok rule.case else Rule.firstCase x back) := by
      rw [select_eq_firstCase hne h, heq, Rule.firstCase_append hfront, Rule.firstCase_cons he]
    rw [hselect]
    constructor
    · intro htrue
      rw [htrue]
      rfl
    · intro error herror
      rw [herror]
      rfl

/-- A catch-all before the other rules, and a rule of the case `other` that is none. -/
theorem select_of_ofRules_catchAll_first :
    let rest : List Rule :=
      [⟨{ case := "other" }, some (.binary (.relation .eq) (.operand "v") (.literal ⟨2, 0, 0⟩)),
          [], 2⟩,
        ⟨{ case := "one" }, some (.binary (.relation .eq) (.operand "n") (.literal ⟨1, 0, 0⟩)),
          [], 3⟩]
    ∃ selector selector', ofRules (⟨{ case := "other" }, none, [], 1⟩ :: rest) = .ok selector ∧
      ofRules rest = .ok selector' ∧ selector.cases = ["other", "one", "other"] ∧
      selector'.cases = ["other", "one"] ∧
      ∀ x, selector.select x = (Rule.firstCase x rest).mapError .eval ∧
        selector'.select x = selector.select x := by
  intro rest
  let clauses : List Clause :=
    [⟨{ case := "other" },
      .condition (.binary (.relation .eq) (.operand "v") (.literal ⟨2, 0, 0⟩))⟩,
      ⟨{ case := "one" }, .one⟩]
  have h : ofRules (⟨{ case := "other" }, none, [], 1⟩ :: rest) =
      .ok ⟨"", none, clauses ++ [⟨{ case := "other" }, .always⟩]⟩ := by decide
  have h' : ofRules rest = .ok ⟨"", none, clauses⟩ := by decide
  obtain ⟨-, hselect, hcatchAlls, -⟩ := select_of_ofRules (List.cons_ne_nil _ _) h
  obtain ⟨selector', heq, hsame⟩ := hcatchAlls rest (List.cons_ne_nil _ _) rfl
  cases h'.symm.trans heq
  exact ⟨_, _, h, h', rfl, rfl, fun x => ⟨hselect x, hsame x⟩⟩

end Selector

end PluralRules
