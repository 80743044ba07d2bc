import Mathlib.Data.List.Forall2

/-!
# Results that may be errors

How a result comes about that is made of others: a sequence of steps succeeds exactly if every step
does, and a list of results succeeds exactly if every element does.

Two programs that take the same steps with different data are compared by `Matches`: both fail with
errors that correspond, or both succeed with values that correspond. What can be said of the errors
of one program alone is said by `FailsOnly`.
-/

namespace PluralRules

section Steps

variable {ε ε' α β : Type} {x : Except ε α}

/-- A computation in two steps succeeds exactly if both steps do. -/
theorem bind_eq_ok {f : α → Except ε β} {b : β} :
    (x >>= f) = .ok b ↔ ∃ a, x = .ok a ∧ f a = .ok b := by
  constructor
  · intro h
    cases x with
    | error e => cases h
    | ok a => exact ⟨a, rfl, h⟩
  · rintro ⟨a, rfl, h⟩
    exact h

/-- Passing a value through a function makes no success of an error. -/
theorem map_eq_ok {f : α → β} {b : β} : x.map f = .ok b ↔ ∃ a, x = .ok a ∧ f a = b := by
  constructor
  · intro h
    cases x with
    | error e => cases h
    | ok a => cases h; exact ⟨a, rfl, rfl⟩
  · rintro ⟨a, rfl, rfl⟩
    rfl

theorem map_eq_error {f : α → β} {e : ε} : x.map f = .error e ↔ x = .error e := by
  constructor
  · intro h
    cases x with
    | error e' => cases h; rfl
    | ok a => cases h
  · rintro rfl
    rfl

theorem map_bind {γ : Type} (f : α → Except ε β) (g : β → γ) :
    (x >>= f).map g = x >>= fun a => (f a).map g := by
  cases x <;> rfl

/-- Passing the error through a function does not change a value. -/
theorem mapError_eq_ok {f : ε → ε'} {a : α} : x.mapError f = .ok a ↔ x = .ok a := by
  constructor
  · intro h
    cases x with
    | error e => cases h
    | ok b => cases h; rfl
  · rintro rfl
    rfl

theorem toOption_eq_some {a : α} : x.toOption = some a ↔ x = .ok a := by
  cases x with
  | error e => exact ⟨nofun, nofun⟩
  | ok b => exact Option.some_inj.trans (Except.ok.injEq b a).symm.to_iff

end Steps

/-- A list of results succeeds with the list of what its elements succeed with. -/
theorem mapM_eq_ok {ε α β : Type} {f : α → Except ε β} :
    ∀ {xs : List α} {ys : List β},
      xs.mapM f = .ok ys ↔ List.Forall₂ (fun x y => f x = .ok y) xs ys
  | [], ys => by
    rw [List.mapM_nil, List.forall₂_nil_left_iff]
    constructor
    · intro h; cases h; rfl
    · rintro rfl; rfl
  | x :: xs, ys => by
    rw [List.mapM_cons, bind_eq_ok, List.forall₂_cons_left_iff]
    constructor
    · rintro ⟨y, hy, h⟩
      obtain ⟨ys', hys, h⟩ := bind_eq_ok.mp h
      cases h
      exact ⟨y, ys', hy, mapM_eq_ok.mp hys, rfl⟩
    · rintro ⟨y, ys', hy, hys, rfl⟩
      exact ⟨y, hy, bind_eq_ok.mpr ⟨ys', mapM_eq_ok.mpr hys, rfl⟩⟩

/-- All items succeed exactly if each one does. -/
theorem exists_mapM_eq_ok {ε α β : Type} {f : α → Except ε β} {xs : List α} :
    (∃ ys, xs.mapM f = .ok ys) ↔ ∀ x ∈ xs, ∃ y, f x = .ok y := by
  simp only [mapM_eq_ok]
  induction xs with
  | nil => exact ⟨fun _ => nofun, fun _ => ⟨[], .nil⟩⟩
  | cons x xs ih =>
    rw [List.forall_mem_cons, ← ih]
    constructor
    · rintro ⟨ys, h⟩
      obtain ⟨y, ys, hy, hys, rfl⟩ := List.forall₂_cons_left_iff.mp h
      exact ⟨⟨y, hy⟩, ys, hys⟩
    · rintro ⟨⟨y, hy⟩, ys, hys⟩
      exact ⟨y :: ys, .cons hy hys⟩

/-- What holds of every element on the right of a correspondence. -/
theorem forall_right {α β : Type} {R : α → β → Prop} {P : β → Prop} {xs : List α} {ys : List β}
    (h : List.Forall₂ R xs ys) (himp : ∀ x ∈ xs, ∀ y, R x y → P y) : ∀ y ∈ ys, P y := by
  induction h with
  | nil => intro y hy; cases hy
  | cons hR _ ih =>
    refine List.forall_mem_cons.mpr ⟨himp _ List.mem_cons_self _ hR, ih ?_⟩
    exact fun x hx => himp x (List.mem_cons_of_mem _ hx)

/-- What corresponds to two lists in a row is made of what corresponds to each. -/
theorem forall₂_append_left {α β : Type} {R : α → β → Prop} {xs ys : List α} {zs : List β}
    (h : List.Forall₂ R (xs ++ ys) zs) :
    ∃ us vs, zs = us ++ vs ∧ List.Forall₂ R xs us ∧ List.Forall₂ R ys vs := by
  induction xs generalizing zs with
  | nil => exact ⟨[], zs, rfl, .nil, h⟩
  | cons x xs ih =>
    obtain ⟨z, zs, hz, hzs, rfl⟩ := List.forall₂_cons_left_iff.mp h
    obtain ⟨us, vs, rfl, hus, hvs⟩ := ih hzs
    exact ⟨z :: us, vs, rfl, .cons hz hus, hvs⟩

/-! ### Errors that a result can be -/

/-- The result is an error only if the error has a property. -/
def FailsOnly {ε α : Type} (E : ε → Prop) : Except ε α → Prop
  | .ok _ => True
  | .error e => E e

section Failing

variable {ε ε' α β ι : Type} {E E' : ε → Prop} {x : Except ε α}

theorem FailsOnly.mono (h : FailsOnly E x) (himp : ∀ e, E e → E' e) : FailsOnly E' x := by
  cases x with
  | error e => exact himp e h
  | ok a => exact trivial

/-- A computation in two steps fails only as one of its steps does. -/
theorem FailsOnly.bind {f : α → Except ε β} (h : FailsOnly E x)
    (hf : ∀ a, x = .ok a → FailsOnly E (f a)) : FailsOnly E (x >>= f) := by
  cases x with
  | error e => exact h
  | ok a => exact hf a rfl

theorem FailsOnly.map {f : α → β} (h : FailsOnly E x) : FailsOnly E (x.map f) := by
  cases x with
  | error e => exact h
  | ok a => exact trivial

theorem FailsOnly.mapError {f : ε → ε'} {E' : ε' → Prop} (h : FailsOnly E x)
    (himp : ∀ e, E e → E' (f e)) : FailsOnly E' (x.mapError f) := by
  cases x with
  | error e => exact himp e h
  | ok a => exact trivial

/-- A list of computations fails only as one of them does. -/
theorem failsOnly_mapM {f : ι → Except ε α} {xs : List ι} (h : ∀ x ∈ xs, FailsOnly E (f x)) :
    FailsOnly E (xs.mapM f) := by
  induction xs with
  | nil => exact trivial
  | cons x xs ih =>
    obtain ⟨hx, hxs⟩ := List.forall_mem_cons.mp h
    rw [List.mapM_cons]
    exact hx.bind fun y _ => (ih hxs).bind fun ys _ => trivial

/-- A fold fails only as one of its steps does. -/
theorem failsOnly_foldlM {f : α → ι → Except ε α} {xs : List ι}
    (h : ∀ x ∈ xs, ∀ a, FailsOnly E (f a x)) (a : α) : FailsOnly E (xs.foldlM f a) := by
  induction xs generalizing a with
  | nil => exact trivial
  | cons x xs ih =>
    obtain ⟨hx, hxs⟩ := List.forall_mem_cons.mp h
    rw [List.foldlM_cons]
    exact (hx a).bind fun b _ => ih hxs b

variable {p : ι → Except ε Bool} {xs : List ι}

/-- A search fails only as one of its tests does. -/
theorem failsOnly_anyM (h : ∀ x ∈ xs, FailsOnly E (p x)) : FailsOnly E (xs.anyM p) := by
  induction xs with
  | nil => exact trivial
  | cons x xs ih =>
    obtain ⟨hx, hxs⟩ := List.forall_mem_cons.mp h
    apply hx.bind
    intro b _
    cases b with
    | true => exact trivial
    | false => exact ih hxs

theorem failsOnly_allM (h : ∀ x ∈ xs, FailsOnly E (p x)) : FailsOnly E (xs.allM p) := by
  induction xs with
  | nil => exact trivial
  | cons x xs ih =>
    obtain ⟨hx, hxs⟩ := List.forall_mem_cons.mp h
    apply hx.bind
    intro b _
    cases b with
    | true => exact ih hxs
    | false => exact trivial

end Failing

/-! ### Results that correspond -/

/-- Two results match if both are errors, or both are values, that correspond. -/
def Matches {ε ε' α β : Type} (E : ε → ε' → Prop) (R : α → β → Prop) :
    Except ε α → Except ε' β → Prop
  | .ok a, .ok b => R a b
  | .error e, .error e' => E e e'
  | _, _ => False

section Matching

variable {ε ε' α β γ δ ι κ : Type} {E : ε → ε' → Prop} {R : α → β → Prop} {S : γ → δ → Prop}
  {x : Except ε α} {y : Except ε' β}

/-- Results that match go on to match. -/
theorem Matches.bind {f : α → Except ε γ} {g : β → Except ε' δ} (h : Matches E R x y)
    (hfg : ∀ a b, R a b → Matches E S (f a) (g b)) : Matches E S (x >>= f) (y >>= g) := by
  match x, y, h with
  | .ok a, .ok b, h => exact hfg a b h
  | .error e, .error e', h => exact h

theorem Matches.map {f : α → γ} {g : β → δ} (h : Matches E R x y)
    (hfg : ∀ a b, R a b → S (f a) (g b)) : Matches E S (x.map f) (y.map g) := by
  match x, y, h with
  | .ok a, .ok b, h => exact hfg a b h
  | .error e, .error e', h => exact h

theorem Matches.mono {E' : ε → ε' → Prop} (h : Matches E R x y) (himp : ∀ e e', E e e' → E' e e') :
    Matches E' R x y := by
  match x, y, h with
  | .ok a, .ok b, h => exact h
  | .error e, .error e', h => exact himp e e' h

/-- Results that match by equality are equal. -/
theorem Matches.eq {x y : Except ε α} (h : Matches Eq Eq x y) : x = y := by
  match x, y, h with
  | .ok a, .ok b, h => exact congrArg Except.ok h
  | .error e, .error e', h => exact congrArg Except.error h

theorem Matches.of_eq {x y : Except ε α} (h : x = y) : Matches Eq Eq x y := by
  subst h
  cases x <;> rfl

variable {p : ι → Except ε Bool} {p' : κ → Except ε' Bool}

/-- Searches whose tests match have results that match. -/
theorem matches_anyM {xs : List ι} {ys : List κ}
    (h : List.Forall₂ (fun x y => Matches E Eq (p x) (p' y)) xs ys) :
    Matches E Eq (xs.anyM p) (ys.anyM p') := by
  induction h with
  | nil => exact rfl
  | cons hxy _ ih =>
    apply hxy.bind
    rintro b _ rfl
    cases b with
    | true => exact rfl
    | false => exact ih

theorem matches_allM {xs : List ι} {ys : List κ}
    (h : List.Forall₂ (fun x y => Matches E Eq (p x) (p' y)) xs ys) :
    Matches E Eq (xs.allM p) (ys.allM p') := by
  induction h with
  | nil => exact rfl
  | cons hxy _ ih =>
    apply hxy.bind
    rintro b _ rfl
    cases b with
    | true => exact ih
    | false => exact rfl

end Matching

end PluralRules
