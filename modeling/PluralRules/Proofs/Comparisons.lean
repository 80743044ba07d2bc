import PluralRules.Proofs.Ranges
import PluralRules.Proofs.Safety

/-!
# Two laws of comparisons

Both laws hold of any two expressions: numbers, sets, and sides that are neither.

* `!=` is the negation of `=`. Where one has a truth value the other has the opposite one, and where
  one fails the other fails with the same error (`Expr.evalBool_ne`).
* A comparison can be read from either side, with the swapped operator between the sides
  (`Expr.evalBool_swapped`). Both readings have the same truth value, or both fail. If just one side
  is a set, they also fail with the same error.

The first law rests on how the elements of a set are gone through. `=` searches for an element that
contains the number, and `!=` checks that every element misses it. Both stop at an element that
contains the number, and both stop at an element that is no number and no range.

For the second law it matters which side is evaluated first. A set on either side leaves that to the
other side, so one set makes the two readings the same. Two numbers are evaluated from left to
right, and of two sets the right one is taken for a number, so there the readings can fail for
different reasons.
-/

namespace PluralRules

/-! ### Operators -/

namespace Comparison

@[simp] theorem swapped_swapped (comparison : Comparison) :
    comparison.swapped.swapped = comparison := by
  cases comparison <;> rfl

theorem holds_ne (order : Ordering) : ne.holds order = !eq.holds order := by
  cases order <;> rfl

end Comparison

/-! ### The sides of a comparison -/

namespace Expr

section Sides

variable {left right : Expr} {elements : List Expr} (q : Quantity) (comparison : Comparison)

/-- An expression is a set exactly if it has elements. -/
theorem isSet_eq : ∀ e : Expr, e.isSet = e.elements?.isSome
  | paren inner => isSet_eq inner
  | literal _ | operand _ | truth _ | unary _ _ | binary _ _ _ | range _ _ | group _ | ellipsis =>
    rfl

/-- A set on the left is compared from the right, by the swapped comparison. -/
theorem compareSides_of_left (h : left.elements? = some elements) :
    compareSides q comparison left right =
      (right.evalNumber q >>= fun value => compareWithSet comparison.swapped value elements) := by
  rw [compareSides, h]

/-- A number on the left is compared with the elements of the set on the right. -/
theorem compareSides_of_right (hleft : left.elements? = none)
    (hright : right.elements? = some elements) : compareSides q comparison left right =
      (left.evalNumber q >>= fun value => compareWithSet comparison value elements) := by
  rw [compareSides, hleft, hright]

/-- Two sides that are no sets are compared by their values. -/
theorem compareSides_of_numbers (hleft : left.elements? = none) (hright : right.elements? = none) :
    compareSides q comparison left right = (left.evalNumber q >>= fun value =>
      right.evalNumber q >>= fun target => .ok (comparison.holds (value.compare target))) := by
  rw [compareSides, hleft, hright]

/-- Of two sets, the right one is taken for a number. -/
theorem compareSides_of_sets (hleft : left.isSet = true) (hright : right.isSet = true) :
    compareSides q comparison left right = .error (.unsupported right.bare.kind .number) := by
  rw [isSet_eq, Option.isSome_iff_exists] at hleft hright
  obtain ⟨elements, hleft⟩ := hleft
  obtain ⟨_, hright⟩ := hright
  rw [compareSides_of_left q comparison hleft, (evalNumber_of_elements? q hright).2]
  rfl

end Sides

/-! ### The negation of `=` -/

/-- Checking that every element is missed is the negation of searching for one that is not, and goes
just as far. -/
theorem compareWithSet_ne (value : Quantity) (elements : List Expr) :
    compareWithSet .ne value elements = (compareWithSet .eq value elements).map (!·) := by
  show elements.allM (misses value) = (elements.anyM (contains value)).map (!·)
  induction elements with
  | nil => rfl
  | cons element more ih =>
    rw [List.allM, List.anyM, misses]
    cases contains value element with
    | error error => rfl
    | ok found => cases found <;> [exact ih; rfl]

/-- Being different is the negation of being equal, for numbers and for sets. -/
theorem compareSides_ne (q : Quantity) (left right : Expr) :
    compareSides q .ne left right = (compareSides q .eq left right).map (!·) := by
  cases hleft : left.elements? with
  | some elements =>
    rw [compareSides_of_left q _ hleft, compareSides_of_left q _ hleft, map_bind]
    exact bind_congr fun value => compareWithSet_ne value elements
  | none =>
    cases hright : right.elements? with
    | some elements =>
      rw [compareSides_of_right q _ hleft hright, compareSides_of_right q _ hleft hright, map_bind]
      exact bind_congr fun value => compareWithSet_ne value elements
    | none =>
      rw [compareSides_of_numbers q _ hleft hright,
        compareSides_of_numbers q _ hleft hright, map_bind]
      refine bind_congr fun value => ?_
      rw [map_bind]
      exact bind_congr fun target => congrArg Except.ok (Comparison.holds_ne (value.compare target))

/-- `!=` is the negation of `=`, whatever stands on the two sides. It has a truth value where `=`
has the opposite one, and it fails where `=` fails, with the same error. -/
theorem evalBool_ne (left right : Expr) (q : Quantity) :
    (∀ b, (binary (.relation .ne) left right).evalBool q = .ok b ↔
      (binary (.relation .eq) left right).evalBool q = .ok !b) ∧
    ∀ error, (binary (.relation .ne) left right).evalBool q = .error error ↔
      (binary (.relation .eq) left right).evalBool q = .error error := by
  have hne : (binary (.relation .ne) left right).evalBool q =
      ((binary (.relation .eq) left right).evalBool q).map (!·) := compareSides_ne q left right
  rw [hne]
  refine ⟨fun b => ?_, fun error => map_eq_error⟩
  rw [map_eq_ok]
  constructor
  · rintro ⟨equal, h, rfl⟩
    rw [h, Bool.not_not]
  · intro h
    exact ⟨!b, h, Bool.not_not b⟩

/-! ### Reading from the other side -/

section Swapped

variable {left right : Expr} {b : Bool} {q : Quantity} {comparison : Comparison}

/-- If one side is a set, the other one is evaluated and compared with the elements, in either
reading. -/
theorem compareSides_swapped_of_isSet (h : left.isSet ≠ right.isSet) :
    compareSides q comparison.swapped right left = compareSides q comparison left right := by
  rw [isSet_eq, isSet_eq] at h
  cases hleft : left.elements? with
  | some elements =>
    have hright : right.elements? = none := by simpa [hleft] using h
    rw [compareSides_of_left q _ hleft, compareSides_of_right q _ hright hleft]
  | none =>
    obtain ⟨elements, hright⟩ := Option.ne_none_iff_exists'.mp (by simpa [hleft] using h)
    rw [compareSides_of_left q _ hright, compareSides_of_right q _ hleft hright,
      Comparison.swapped_swapped]

/-- A comparison that has a truth value has the same one when it is read from the other side. -/
theorem compareSides_swapped_of_ok (h : compareSides q comparison left right = .ok b) :
    compareSides q comparison.swapped right left = .ok b := by
  by_cases hset : left.isSet = right.isSet
  · cases hright : right.isSet with
    | true =>
      rw [compareSides_of_sets q comparison (hset.trans hright) hright] at h
      cases h
    | false =>
      have hleft := hset.trans hright
      rw [isSet_eq, Option.isSome_eq_false_iff, Option.isNone_iff_eq_none] at hleft hright
      rw [compareSides_of_numbers q comparison hleft hright] at h
      obtain ⟨value, hvalue, h⟩ := bind_eq_ok.mp h
      obtain ⟨target, htarget, h⟩ := bind_eq_ok.mp h
      rw [compareSides_of_numbers q _ hright hleft, hvalue, htarget]
      exact (congrArg Except.ok (comparison.holds_eq_swapped value target)).symm.trans h
  · rwa [compareSides_swapped_of_isSet hset]

end Swapped

/-- A comparison can be read from either side. Both readings have the same truth value, or both
fail; if just one of the sides is a set, they have the same result in any case. -/
theorem evalBool_swapped (comparison : Comparison) (left right : Expr) (q : Quantity) :
    (∀ b, (binary (.relation comparison) left right).evalBool q = .ok b ↔
      (binary (BinaryOp.relation comparison).swapped right left).evalBool q = .ok b) ∧
    (left.isSet ≠ right.isSet → (binary (.relation comparison) left right).evalBool q =
      (binary (BinaryOp.relation comparison).swapped right left).evalBool q) := by
  refine ⟨fun b => ⟨compareSides_swapped_of_ok, fun h => ?_⟩, fun h =>
    (compareSides_swapped_of_isSet h).symm⟩
  have hback := compareSides_swapped_of_ok h
  rwa [Comparison.swapped_swapped] at hback

/-- In `(1..3,true) >= f`, an element that is no number and no range does harm only where the bounds
before it leave the answer open. Read from the other side, it does the same harm. -/
theorem evalBool_swapped_of_loose_element :
    let set : Expr := .paren (.group [.range ⟨1, 0, 0⟩ ⟨3, 0, 0⟩, .truth true])
    let reading : Expr := .binary (.relation .ge) set (.operand "f")
    let reading' : Expr := .binary (.relation .le) (.operand "f") set
    set.isSet ≠ (operand "f").isSet ∧
      reading.evalBool ⟨5, 0, 0⟩ = .error (.unsupported .boolean .element) ∧
      reading'.evalBool ⟨5, 0, 0⟩ = .error (.unsupported .boolean .element) ∧
      reading.evalBool ⟨52, 1, 0⟩ = .ok false ∧ reading'.evalBool ⟨52, 1, 0⟩ = .ok false := by
  intro set reading reading'
  have hset : set.isSet ≠ (operand "f").isSet := by decide
  have hopen : reading.evalBool ⟨5, 0, 0⟩ = .error (.unsupported .boolean .element) := by decide
  have hdecided : reading.evalBool ⟨52, 1, 0⟩ = .ok false := by decide
  obtain ⟨-, hopen'⟩ := evalBool_swapped .ge set (operand "f") ⟨5, 0, 0⟩
  obtain ⟨-, hdecided'⟩ := evalBool_swapped .ge set (operand "f") ⟨52, 1, 0⟩
  exact ⟨hset, hopen, (hopen' hset).symm.trans hopen, hdecided,
    (hdecided' hset).symm.trans hdecided⟩

end Expr

end PluralRules
