import Mathlib.Data.Int.Range
import PluralRules.Proofs.Exact

/-!
# Ranges are lists of integers

A range says no more than the list of the integers from its least to its greatest. Evaluation treats
the two differently: whether a number lies in a range is decided by its two bounds and by whether it
is an integer, while the elements of a list are looked at one after the other. Still every
comparison, with the set on either side, has the same value, or fails with the same error, when a
range is spread out into its integers (`Expr.evalBool_spread`).

For `=` and `!=` this is so because a range contains integers only. The other comparisons look at
the bounds of a range alone, and what holds for the bounds holds for all that lies between them.
-/

namespace PluralRules

/-! ### Comparing with integers between two others -/

namespace Quantity

/-- The quantities stand for the integers from one to another, in order. How they are written is
left open. -/
def CountUp (a b : ℤ) (constants : List Quantity) : Prop :=
  constants.map value = (Int.range a (b + 1)).map Int.cast

variable {a b : ℤ} {constants : List Quantity} (h : CountUp a b constants) (p : ℚ → Bool)
include h

/-- To ask whether one of the quantities has a property is to ask it of the integers. -/
theorem CountUp.any_eq :
    constants.any (fun c => p c.value) = (Int.range a (b + 1)).any fun z => p z := by
  have hany := congrArg (List.any · p) h
  simpa only [List.any_map, Function.comp_def] using hany

theorem CountUp.all_eq :
    constants.all (fun c => p c.value) = (Int.range a (b + 1)).all fun z => p z := by
  have hall := congrArg (List.all · p) h
  simpa only [List.all_map, Function.comp_def] using hall

end Quantity

namespace Comparison

variable {comparison : Comparison} {a b : ℤ} {x : ℚ}

/-- A comparison holds exactly if the swapped one holds the other way round. -/
theorem holds_eq_swapped (comparison : Comparison) (a b : Quantity) :
    comparison.holds (a.compare b) = comparison.swapped.holds (b.compare a) := by
  rw [holds_compare, holds_compare]
  cases comparison <;> simp [swapped, holdsOf, eq_comm]

/-- A number is one of the integers between two others if it is an integer between them. -/
theorem any_range_eq (x : ℚ) (a b : ℤ) :
    (Int.range a (b + 1)).any (fun z => eq.holdsOf x z) =
      (x.isInt && ge.holdsOf x a && le.holdsOf x b) := by
  rw [Bool.eq_iff_iff, List.any_eq_true]
  simp only [Int.mem_range_iff, Int.lt_add_one_iff, holdsOf, Bool.and_eq_true, decide_eq_true_eq]
  constructor
  · rintro ⟨z, ⟨ha, hb⟩, rfl⟩
    simp [Rat.isInt, ha, hb]
  · rintro ⟨⟨hint, ha⟩, hb⟩
    obtain ⟨z, rfl⟩ := exists_int_of_isInt hint
    exact ⟨z, ⟨by exact_mod_cast ha, by exact_mod_cast hb⟩, rfl⟩

/-- What holds for the bounds holds for all integers between them. -/
theorem all_range_eq (hle : a ≤ b) (heq : comparison ≠ eq) (hne : comparison ≠ ne) :
    (Int.range a (b + 1)).all (fun z => comparison.holdsOf x z) =
      (comparison.holdsOf x a && comparison.holdsOf x b) := by
  rw [Bool.eq_iff_iff, List.all_eq_true, Bool.and_eq_true]
  simp only [Int.mem_range_iff, Int.lt_add_one_iff]
  refine ⟨fun h => ⟨h a ⟨le_rfl, hle⟩, h b ⟨hle, le_rfl⟩⟩, ?_⟩
  rintro ⟨hleast, hgreatest⟩ z ⟨ha, hb⟩
  have hleast' : (a : ℚ) ≤ z := by exact_mod_cast ha
  have hgreatest' : (z : ℚ) ≤ b := by exact_mod_cast hb
  cases comparison with
  | eq => exact absurd rfl heq
  | ne => exact absurd rfl hne
  | lt => simp only [holdsOf, decide_eq_true_eq] at *; linarith
  | le => simp only [holdsOf, decide_eq_true_eq] at *; linarith
  | gt => simp only [holdsOf, decide_eq_true_eq] at *; linarith
  | ge => simp only [holdsOf, decide_eq_true_eq] at *; linarith

end Comparison

/-! ### Steps that are true or false -/

section Steps

variable {ε ι : Type} {p : ι → Except ε Bool} {xs ys : List ι}

/-- A search that may fail goes on in the second list if it finds nothing in the first. -/
theorem anyM_append :
    (xs ++ ys).anyM p = (xs.anyM p >>= fun b => if b then .ok true else ys.anyM p) := by
  induction xs with
  | nil => rfl
  | cons x xs ih =>
    simp only [List.cons_append, List.anyM]
    cases p x with
    | error e => rfl
    | ok b => cases b <;> [exact ih; rfl]

theorem allM_append :
    (xs ++ ys).allM p = (xs.allM p >>= fun b => if b then ys.allM p else .ok false) := by
  induction xs with
  | nil => rfl
  | cons x xs ih =>
    simp only [List.cons_append, List.allM]
    cases p x with
    | error e => rfl
    | ok b => cases b <;> [rfl; exact ih]

theorem anyM_singleton {x : ι} {b : Bool} (h : p x = .ok b) : [x].anyM p = .ok b := by
  rw [List.anyM, h]
  cases b <;> rfl

theorem allM_singleton {x : ι} {b : Bool} (h : p x = .ok b) : [x].allM p = .ok b := by
  rw [List.allM, h]
  cases b <;> rfl

variable {κ : Type} {g : κ → ι} {f : κ → Bool} {ks : List κ}

theorem anyM_map_eq_ok (h : ∀ k, p (g k) = .ok (f k)) : (ks.map g).anyM p = .ok (ks.any f) := by
  induction ks with
  | nil => rfl
  | cons k ks ih =>
    rw [List.map_cons, List.anyM, h, List.any_cons]
    cases f k <;> [exact ih; rfl]

theorem allM_map_eq_ok (h : ∀ k, p (g k) = .ok (f k)) : (ks.map g).allM p = .ok (ks.all f) := by
  induction ks with
  | nil => rfl
  | cons k ks ih =>
    rw [List.map_cons, List.allM, h, List.all_cons]
    cases f k <;> [rfl; exact ih]

end Steps

namespace Expr

variable {elements elements' items front back : List Expr} {least greatest value x : Quantity}
  {constants : List Quantity} {a b : ℤ} {comparison : Comparison} {side set set' : Expr}

/-! ### Comparing with sets -/

/-- What a part of a set says is all that it contributes to a comparison. -/
theorem compareWithSet_congr
    (h : compareWithSet comparison value elements = compareWithSet comparison value elements') :
    compareWithSet comparison value (front ++ (elements ++ back)) =
      compareWithSet comparison value (front ++ (elements' ++ back)) := by
  cases comparison <;> simp only [compareWithSet, anyM_append, allM_append] at h ⊢ <;> rw [h]

/-- Only `=` asks for some constant; the other comparisons ask for every one. -/
theorem compareWithSet_literals (comparison : Comparison) (value : Quantity)
    (constants : List Quantity) : compareWithSet comparison value (constants.map literal) =
      .ok (if comparison = .eq then constants.any fun c => Comparison.eq.holdsOf value.value c.value
        else constants.all fun c => comparison.holdsOf value.value c.value) := by
  have hcontains :
      ∀ c, contains value (literal c) = .ok (Comparison.eq.holdsOf value.value c.value) :=
    fun c => congrArg Except.ok (Comparison.eq.holds_compare value c)
  have hmisses : ∀ c, misses value (literal c) = .ok (Comparison.ne.holdsOf value.value c.value) :=
    fun c => congrArg Except.ok (Comparison.ne.holds_compare value c)
  have hbounds :
      ∀ comparison : Comparison, (constants.map literal).allM (boundsHold comparison value) =
      .ok (constants.all fun c => comparison.holdsOf value.value c.value) := by
    refine fun comparison => allM_map_eq_ok fun c => ?_
    rw [← comparison.holds_compare]
    exact congrArg Except.ok (Bool.and_true _)
  cases comparison with
  | eq => exact anyM_map_eq_ok hcontains
  | ne => exact allM_map_eq_ok hmisses
  | lt => exact hbounds .lt
  | le => exact hbounds .le
  | gt => exact hbounds .gt
  | ge => exact hbounds .ge

/-- To compare with a set of one literal is to compare with the literal. -/
theorem compareWithSet_literal (comparison : Comparison) (value constant : Quantity) :
    compareWithSet comparison value [literal constant] =
      .ok (comparison.holds (value.compare constant)) := by
  rw [Comparison.holds_compare]
  refine (compareWithSet_literals comparison value [constant]).trans ?_
  cases comparison <;> simp

/-- A range with integers for its bounds compares like the list of the integers between them. -/
theorem compareWithSet_spread (comparison : Comparison) (value : Quantity) (hle : a ≤ b)
    (hleast : least.value = a) (hgreatest : greatest.value = b)
    (hconstants : Quantity.CountUp a b constants) :
    compareWithSet comparison value [range least greatest] =
      compareWithSet comparison value (constants.map literal) := by
  have hcontains : contains value (range least greatest) =
      .ok (constants.any fun c => Comparison.eq.holdsOf value.value c.value) := by
    rw [hconstants.any_eq (Comparison.eq.holdsOf value.value), Comparison.any_range_eq, ← hleast,
      ← hgreatest]
    exact congrArg Except.ok (agrees_contains value (range least greatest))
  have hbounds : ∀ comparison : Comparison, comparison ≠ .eq → comparison ≠ .ne →
      boundsHold comparison value (range least greatest) =
        .ok (constants.all fun c => comparison.holdsOf value.value c.value) := by
    intro comparison heq hne
    rw [hconstants.all_eq (comparison.holdsOf value.value),
      Comparison.all_range_eq hle heq hne, ← hleast, ← hgreatest]
    exact congrArg Except.ok (agrees_boundsHold comparison value (range least greatest))
  rw [compareWithSet_literals]
  cases comparison with
  | eq => exact anyM_singleton hcontains
  | ne =>
    refine (allM_singleton (congrArg (Except.map (!·)) hcontains)).trans (congrArg Except.ok ?_)
    simp [List.not_any_eq_all_not, Comparison.holdsOf]
  | lt => exact allM_singleton (hbounds .lt (by decide) (by decide))
  | le => exact allM_singleton (hbounds .le (by decide) (by decide))
  | gt => exact allM_singleton (hbounds .gt (by decide) (by decide))
  | ge => exact allM_singleton (hbounds .ge (by decide) (by decide))

/-- An expression lists items if it is written as the list of them, in parentheses or not. One item
alone needs no list. -/
inductive Lists : List Expr → Expr → Prop
  | group (items : List Expr) : Lists items (group items)
  | range (least greatest : Quantity) : Lists [range least greatest] (range least greatest)
  | literal (value : Quantity) : Lists [literal value] (literal value)
  | paren {items : List Expr} {inner : Expr} : Lists items inner → Lists items (paren inner)

/-- A list may stand on either side of a comparison. -/
theorem compareSides_of_lists (h : Lists items set) (hside : side.elements? = none)
    (comparison : Comparison) (x : Quantity) :
    compareSides x comparison side set =
        (side.evalNumber x >>= fun value => compareWithSet comparison value items) ∧
      compareSides x comparison set side =
        (side.evalNumber x >>= fun value => compareWithSet comparison.swapped value items) := by
  induction h with
  | group items => simp [compareSides, hside, elements?]
  | range least greatest => simp [compareSides, hside, elements?]
  | literal constant =>
    simp only [compareSides, hside, elements?, evalNumber, compareWithSet_literal,
      ← Comparison.holds_eq_swapped]
    exact ⟨rfl, rfl⟩
  | paren _ ih => simpa [compareSides, hside, elements?, evalNumber] using ih

/-- A range is the list of its integers. A comparison of something that is no set with a set, on
either side, comes out the same when a range among the items of the set is replaced by the integers
from its least to its greatest, however they are written: with the same truth value, or with the
same error. -/
theorem evalBool_spread (hside : side.elements? = none) (hle : a ≤ b) (hleast : least.value = a)
    (hgreatest : greatest.value = b) (hconstants : Quantity.CountUp a b constants)
    (hset : Lists (front ++ range least greatest :: back) set)
    (hset' : Lists (front ++ (constants.map literal ++ back)) set') (comparison : Comparison)
    (x : Quantity) :
    (binary (.relation comparison) side set).evalBool x =
        (binary (.relation comparison) side set').evalBool x ∧
      (binary (.relation comparison) set side).evalBool x =
        (binary (.relation comparison) set' side).evalBool x := by
  have hspread : ∀ (comparison : Comparison) (value : Quantity),
      compareWithSet comparison value (front ++ range least greatest :: back) =
        compareWithSet comparison value (front ++ (constants.map literal ++ back)) :=
    fun comparison value =>
      compareWithSet_congr (compareWithSet_spread comparison value hle hleast hgreatest hconstants)
  obtain ⟨hright, hleft⟩ := compareSides_of_lists hset hside comparison x
  obtain ⟨hright', hleft'⟩ := compareSides_of_lists hset' hside comparison x
  simp only [evalBool, hright, hleft, hright', hleft', hspread, and_self]

/-- `-v` compares with `7,1..3` as it does with `7,1,2.00,3`. -/
theorem evalBool_spread_of_trailing_zeros :
    let side : Expr := .unary (.sign .minus) (.operand "v")
    let set : Expr := .group [.literal ⟨7, 0, 0⟩, .range ⟨1, 0, 0⟩ ⟨3, 0, 0⟩]
    let set' : Expr :=
      .group [.literal ⟨7, 0, 0⟩, .literal ⟨1, 0, 0⟩, .literal ⟨200, 2, 0⟩, .literal ⟨3, 0, 0⟩]
    ∀ comparison x,
      (binary (.relation comparison) side set).evalBool x =
        (binary (.relation comparison) side set').evalBool x ∧
        (binary (.relation comparison) set side).evalBool x =
          (binary (.relation comparison) set' side).evalBool x := by
  have hconstants : Quantity.CountUp 1 3 [⟨1, 0, 0⟩, ⟨200, 2, 0⟩, ⟨3, 0, 0⟩] := by
    have hrange : Int.range 1 (3 + 1) = [1, 2, 3] := rfl
    simp only [Quantity.CountUp, hrange, List.map_cons, List.map_nil, Quantity.value]
    norm_num
  have hset : Lists ([.literal ⟨7, 0, 0⟩] ++ .range ⟨1, 0, 0⟩ ⟨3, 0, 0⟩ :: [])
      (.group [.literal ⟨7, 0, 0⟩, .range ⟨1, 0, 0⟩ ⟨3, 0, 0⟩]) := .group _
  exact evalBool_spread rfl (by norm_num) (by norm_num [Quantity.value])
    (by norm_num [Quantity.value])
    hconstants hset (Lists.group _)

end Expr

end PluralRules
