import PluralRules.Proofs.Typing

/-!
# Conditions of rules do not go wrong

That a condition makes sense does not yet mean that it has a truth value: an operand may not exist,
a remainder may be taken by a divisor that turns out to be no positive integer, a complement by a
fraction, and a set may be compared with a set. These are the only ways to fail. Whatever error
evaluation ends in, some tree within the condition is to blame for it (`Expr.Causes`), and which
trees can be to blame shows without a number to evaluate the condition for (`Expr.isHarmless`).

In particular no truth value is ever met where a number is wanted, nor a number where a truth value
is wanted, and a divisor that is spelled out always divides.
-/

namespace PluralRules

/-- Division fails only because the divisor is no positive integer of 64 bits. -/
theorem Quantity.remainderBy_eq_error {a b : Quantity} {error : QuantityError}
    (h : a.remainderBy b = .error error) : (∃ text, error = .divisorOutOfRange text) ∧
      ¬ ∃ z : ℤ, b.value = z ∧ 1 ≤ z ∧ z ≤ 2 ^ 63 - 1 := by
  unfold remainderBy at h
  split at h
  · next d hd =>
    obtain ⟨hvalue, -, -⟩ := toInt64?_eq_some.mp hd
    unfold remainder at h
    split at h
    · next hle =>
      cases h
      refine ⟨⟨_, rfl⟩, ?_⟩
      rintro ⟨z, hz, hone, -⟩
      obtain rfl : d = z := by exact_mod_cast hvalue.symm.trans hz
      omega
    · cases h
  · next hnone =>
    cases h
    refine ⟨⟨_, rfl⟩, ?_⟩
    rintro ⟨z, hz, hone, hle⟩
    rw [toInt64?_eq_some.mpr ⟨hz, by omega, hle⟩] at hnone
    cases hnone

/-- A name that names no operand is none of the eight that do. -/
theorem Operand.not_mem_of_ofName? {name : String} (h : ofName? name = none) :
    name ∉ ["n", "i", "v", "w", "f", "t", "e", "c"] := by
  intro hmem
  obtain ⟨operand, hoperand, rfl⟩ := List.mem_map.mp (show name ∈ all.map Operand.name from hmem)
  exact List.find?_eq_none.mp h operand hoperand (beq_self_eq_true _)

namespace Expr

/-- Whether a tree is a list or a range, in parentheses or not. -/
def isSet (e : Expr) : Bool := e.bare.kind == .group || e.bare.kind == .range

mutual

/-- The trees within a tree, and the tree itself. -/
def nodes : Expr → List Expr
  | unary op arg => unary op arg :: arg.nodes
  | binary op left right => binary op left right :: (left.nodes ++ right.nodes)
  | group items => group items :: itemNodes items
  | paren inner => paren inner :: inner.nodes
  | e => [e]

def itemNodes : List Expr → List Expr
  | [] => []
  | item :: more => item.nodes ++ itemNodes more

end

/-- Whether a tree can cause no error where it makes sense: its operand exists, it is no complement,
its divisor is a literal, and it compares no two sets. -/
def isHarmless : Expr → Bool
  | operand name => ["n", "i", "v", "w", "f", "t", "e", "c"].contains name
  | unary op _ => op != .sign .complement
  | binary .modulo _ right => right.bare.kind == .constant
  | binary (.relation _) left right => !(left.isSet && right.isSet)
  | _ => true

/-- The errors that a tree can cause where it makes sense. -/
inductive Causes : Expr → EvalError → Prop
  | operand {name : String} : Operand.ofName? name = none →
      Causes (.operand name) (.unknownOperand name)
  | complement {arg : Expr} : Causes (.unary (.sign .complement) arg) .complementOfFraction
  | modulo {left right : Expr} {text : String} : (∀ q, right.bare ≠ .literal q) →
      Causes (.binary .modulo left right) (.quantity (.divisorOutOfRange text))
  | relation {comparison : Comparison} {left right : Expr} : left.isSet = true →
      right.isSet = true →
      Causes (.binary (.relation comparison) left right) (.unsupported right.bare.kind .number)

/-- A tree that causes an error is not harmless. -/
theorem Causes.isHarmless_eq_false {e : Expr} {error : EvalError} (h : e.Causes error) :
    e.isHarmless = false := by
  cases h with
  | operand hname => simpa [isHarmless] using Operand.not_mem_of_ofName? hname
  | complement => rfl
  | @modulo _ right _ hright =>
    show (right.bare.kind == .constant) = false
    cases hbare : right.bare with
    | literal q => exact absurd hbare (hright q)
    | _ => rfl
  | relation hl hr => simp [isHarmless, hl, hr]

/-- Some tree within the tree can cause the error. -/
def Blames (e : Expr) (error : EvalError) : Prop := ∃ node ∈ e.nodes, node.Causes error

section Blame

variable {e inner left right : Expr} {error : EvalError}

theorem mem_nodes_self (e : Expr) : e ∈ e.nodes := by
  cases e <;> exact List.mem_cons_self

theorem Causes.blames (h : e.Causes error) : e.Blames error := ⟨e, e.mem_nodes_self, h⟩

/-- A tree is to blame for the errors of its parts. -/
theorem Blames.mono (h : inner.Blames error) (hnodes : inner.nodes ⊆ e.nodes) : e.Blames error := by
  obtain ⟨node, hnode, h⟩ := h
  exact ⟨node, hnodes hnode, h⟩

theorem Blames.of_paren (h : inner.Blames error) : (paren inner).Blames error :=
  h.mono (List.subset_cons_self _ _)

theorem Blames.of_unary {op : UnaryOp} (h : inner.Blames error) : (unary op inner).Blames error :=
  h.mono (List.subset_cons_self _ _)

theorem Blames.of_left {op : BinaryOp} (h : left.Blames error) :
    (binary op left right).Blames error :=
  h.mono (List.subset_cons_of_subset _ (List.subset_append_left _ _))

theorem Blames.of_right {op : BinaryOp} (h : right.Blames error) :
    (binary op left right).Blames error :=
  h.mono (List.subset_cons_of_subset _ (List.subset_append_right _ _))

end Blame

/-! ### Numbers and sets -/

section Numbers

variable {e left right : Expr} {sets : Bool} (x : Quantity)

/-- A set is no number. -/
theorem evalNumber_of_elements? {elements : List Expr} : ∀ {e : Expr}, e.elements? = some elements →
    e.isSet = true ∧ e.evalNumber x = .error (.unsupported e.bare.kind .number)
  | paren inner, h => evalNumber_of_elements? (e := inner) h
  | group _, _ => ⟨rfl, rfl⟩
  | range _ _, _ => ⟨rfl, rfl⟩

/-- A number fails only because of a tree within it. -/
theorem IsValue.failsOnly_evalNumber (h : e.IsValue .ofText sets) (hset : e.elements? = none) :
    FailsOnly e.Blames (e.evalNumber x) := by
  induction h with
  | literal _ => exact trivial
  | @operand _ name _ =>
    rw [evalNumber]
    cases hname : Operand.ofName? name with
    | none => exact (Causes.operand hname).blames
    | some feature => exact trivial
  | @signed _ sign arg harg ih =>
    apply ((ih harg.elements?_eq_none).mono fun _ => Blames.of_unary).bind
    intro value _
    cases sign with
    | minus => exact trivial
    | plus => exact trivial
    | complement =>
      show FailsOnly _ (Sign.complement.apply value)
      rw [Sign.apply]
      cases value.complement? with
      | none => exact Causes.complement.blames
      | some result => exact trivial
  | @modulo _ left right hl hr hdivisor ihl ihr =>
    apply ((ihl hl.elements?_eq_none).mono fun _ => Blames.of_left).bind
    intro dividend _
    apply ((ihr hr.elements?_eq_none).mono fun _ => Blames.of_right).bind
    intro divisor heval
    cases hremainder : dividend.remainderBy divisor with
    | ok r => exact trivial
    | error error =>
      obtain ⟨⟨text, rfl⟩, hrange⟩ := Quantity.remainderBy_eq_error hremainder
      -- a divisor that is spelled out is in range, so this one is not
      have hliteral : ∀ q, right.bare ≠ .literal q := by
        intro q hbare
        rw [← evalNumber_bare, hbare] at heval
        cases heval
        exact hrange (hdivisor divisor hbare)
      exact (Causes.modulo hliteral).blames
  | range | group => cases hset
  | paren _ ih => exact (ih hset).mono fun _ => Blames.of_paren

variable {E : EvalError → Prop} {admitted : Admitted}

/-- Comparing with a set does not fail, since its elements are numbers and ranges. -/
theorem failsOnly_compareWithSet (comparison : Comparison) (value : Quantity) {elements : List Expr}
    (h : ∀ item ∈ elements, item.IsElement admitted) :
    FailsOnly E (compareWithSet comparison value elements) := by
  have hcontains : ∀ item ∈ elements, FailsOnly E (item.contains value) := by
    intro item hitem
    cases h item hitem <;> exact trivial
  have hbounds :
      ∀ comparison : Comparison, FailsOnly E (elements.allM (boundsHold comparison value)) := by
    intro comparison
    apply failsOnly_allM
    intro item hitem
    cases h item hitem <;> exact trivial
  cases comparison with
  | eq => exact failsOnly_anyM hcontains
  | ne => exact failsOnly_allM fun item hitem => (hcontains item hitem).map
  | lt => exact hbounds .lt
  | le => exact hbounds .le
  | gt => exact hbounds .gt
  | ge => exact hbounds .ge

/-- A comparison fails because of a tree within one of its sides, or because both of them are
sets. -/
theorem failsOnly_compareSides (comparison : Comparison) (hl : left.IsValue .ofText true)
    (hr : right.IsValue .ofText true) :
    FailsOnly (binary (.relation comparison) left right).Blames
      (compareSides x comparison left right) := by
  rw [compareSides]
  cases hleft : left.elements? with
  | some elements =>
    have hright :
        FailsOnly (binary (.relation comparison) left right).Blames (right.evalNumber x) := by
      cases hright : right.elements? with
      | some _ =>
        -- of two sets, the right one is wanted as a number
        have hset := (evalNumber_of_elements? x hleft).1
        obtain ⟨hset', heval⟩ := evalNumber_of_elements? x hright
        rw [heval]
        exact (Causes.relation hset hset').blames
      | none => exact (hr.failsOnly_evalNumber x hright).mono fun _ => Blames.of_right
    apply hright.bind
    intro value _
    exact failsOnly_compareWithSet comparison.swapped value (hl.isElement_of_elements? hleft)
  | none =>
    apply ((hl.failsOnly_evalNumber x hleft).mono fun _ => Blames.of_left).bind
    intro value _
    cases hright : right.elements? with
    | some elements =>
      exact failsOnly_compareWithSet comparison value (hr.isElement_of_elements? hright)
    | none =>
      apply ((hr.failsOnly_evalNumber x hright).mono fun _ => Blames.of_right).bind
      intro target _
      exact trivial

end Numbers

/-- A condition that makes sense fails only because of a tree within it. -/
theorem IsCondition.failsOnly_evalBool {e : Expr} (h : e.IsCondition .ofText) (x : Quantity) :
    FailsOnly e.Blames (e.evalBool x) := by
  induction h with
  | truth => exact trivial
  | not _ ih =>
    apply (ih.mono fun _ => Blames.of_unary).bind
    intro b _
    exact trivial
  | @logic connective left right _ _ ihl ihr =>
    apply (ihl.mono fun _ => Blames.of_left).bind
    intro b _
    have hright : FailsOnly (binary (.logic connective) left right).Blames (right.evalBool x) :=
      ihr.mono fun _ => Blames.of_right
    cases connective with
    | and => cases b <;> first | exact trivial | exact hright
    | or => cases b <;> first | exact trivial | exact hright
    | xor =>
      apply hright.bind
      intro c _
      exact trivial
  | @relation comparison _ _ hl hr => exact failsOnly_compareSides x comparison hl hr
  | paren _ ih => exact ih.mono fun _ => Blames.of_paren

end Expr

namespace Rule

variable {text : String} {rule : Rule} {e : Expr} {error : EvalError}

/-- Some tree within the condition of a rule is to blame for every error that its evaluation ends
in. -/
theorem blames_of_parse (h : parse text = .ok rule) (he : rule.condition = some e) {x : Quantity}
    (herror : e.evalBool x = .error error) : e.Blames error := by
  have hfails := (isCondition_of_parse h he).failsOnly_evalBool x
  rw [herror] at hfails
  exact hfails

/-- The condition of a rule has a truth value for every quantity if no tree within it can cause an
error: its operands exist, no two sets are compared, there is no complement, and all divisors are
literals. Without that it fails, if at all, because of an unknown operand, a divisor out of range,
the complement of a fraction, or a set that is compared with a set. -/
theorem evalBool_of_parse (h : parse text = .ok rule) (he : rule.condition = some e)
    (x : Quantity) : (e.nodes.all Expr.isHarmless = true → ∃ b, e.evalBool x = .ok b) ∧
    ∀ error, e.evalBool x = .error error →
      (∃ name, error = .unknownOperand name) ∨
      (∃ divisor, error = .quantity (.divisorOutOfRange divisor)) ∨
      error = .complementOfFraction ∨
      error = .unsupported .group .number ∨
      error = .unsupported .range .number := by
  constructor
  · intro hharmless
    cases heval : e.evalBool x with
    | ok b => exact ⟨b, rfl⟩
    | error error =>
      obtain ⟨node, hnode, hcauses⟩ := blames_of_parse h he heval
      have hnode := List.all_eq_true.mp hharmless node hnode
      rw [hcauses.isHarmless_eq_false] at hnode
      cases hnode
  · intro error heval
    obtain ⟨node, -, hcauses⟩ := blames_of_parse h he heval
    cases hcauses with
    | @operand name => exact Or.inl ⟨name, rfl⟩
    | @modulo _ _ divisor => exact Or.inr (Or.inl ⟨divisor, rfl⟩)
    | complement => exact Or.inr (Or.inr (Or.inl rfl))
    | relation _ hright =>
      rcases Bool.or_eq_true_iff.mp hright with hkind | hkind
      · rw [beq_iff_eq.mp hkind]; exact Or.inr (Or.inr (Or.inr (Or.inl rfl)))
      · rw [beq_iff_eq.mp hkind]; exact Or.inr (Or.inr (Or.inr (Or.inr rfl)))

/-- A divisor in parentheses with a fraction digit that shows, and sets in parentheses at either
side. -/
theorem evalBool_of_parse_harmless :
    let e : Expr := .binary (.logic .and)
      (.unary .not (.binary (.relation .eq)
        (.binary .modulo (.operand "n") (.paren (.literal ⟨100, 1, 0⟩)))
        (.paren (.group [.range ⟨2, 0, 0⟩ ⟨4, 0, 0⟩, .literal ⟨7, 0, 0⟩]))))
      (.binary (.relation .lt) (.paren (.range ⟨1, 0, 0⟩ ⟨5, 0, 0⟩))
        (.unary (.sign .minus) (.operand "v")))
    ∃ rule, parse "few: not n % (10.0) = (2..4,7) and (1..5) < -v" = .ok rule ∧
      rule.condition = some e ∧ e.nodes.all Expr.isHarmless = true ∧
      ∀ x, ∃ b, e.evalBool x = .ok b := by
  intro e
  have hrule : parse "few: not n % (10.0) = (2..4,7) and (1..5) < -v" =
      .ok ⟨{ case := "few" }, some e, [], 1⟩ := by decide +kernel
  have hharmless : e.nodes.all Expr.isHarmless = true := by decide
  exact ⟨_, hrule, rfl, hharmless, fun x => (evalBool_of_parse hrule rfl x).1 hharmless⟩

/-- Every one of the errors happens. -/
example :
    let texts :=
      ["x: k = 1", "x: 7 % n = 0", "x: ~n = 1", "x: 1 = 2 or 1..2 = (3,4)", "x: 3,4 = 1..2"]
    (texts.map fun text => (parse text).toOption.bind fun rule =>
      rule.condition.map (Expr.evalBool ⟨15, 1, 0⟩)) =
      [some (.error (.unknownOperand "k")), some (.error (.quantity (.divisorOutOfRange "1.5"))),
        some (.error .complementOfFraction), some (.error (.unsupported .group .number)),
        some (.error (.unsupported .range .number))] := by
  decide +kernel

end Rule

end PluralRules
