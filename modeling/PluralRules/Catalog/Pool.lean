import PluralRules.Expr.Key
import PluralRules.Rule.Basic

/-!
# Pools of conditions

Many rules of many cultures have the same condition. A pool keeps one copy of each, found by its
fingerprint. Since conditions with the same fingerprint may differ, at least in parentheses, a copy
is used only if it is the very same tree; otherwise the new tree takes its place.
-/

namespace PluralRules

/-- Conditions by their fingerprints. -/
structure Pool where
  copies : List (Fingerprint × Expr) := []
  deriving Repr

/-- What sharing leaves: the shared thing, the pool after it, and the fingerprints of the conditions
that were found in the pool. -/
structure Shared (α : Type) where
  value : α
  pool : Pool
  reused : List Fingerprint

namespace Pool

def find? (pool : Pool) (fingerprint : Fingerprint) : Option Expr := pool.copies.lookup fingerprint

/-- The pool with a copy for a fingerprint, in place of the one it may have had. -/
def insert (pool : Pool) (fingerprint : Fingerprint) (e : Expr) : Pool :=
  ⟨(fingerprint, e) :: pool.copies.filter fun (other, _) => other != fingerprint⟩

/-- Take a condition from the pool, or put it there. -/
def share (pool : Pool) (e : Expr) : Shared Expr :=
  let fingerprint := e.fingerprint
  match pool.find? fingerprint with
  | some copy =>
    if copy = e then ⟨copy, pool, [fingerprint]⟩ else ⟨e, pool.insert fingerprint e, []⟩
  | none => ⟨e, pool.insert fingerprint e, []⟩

/-- Share the conditions of rules in order, up to the first rule that can be no clause, because its
case needs a condition and it has none. -/
def shareRules (pool : Pool) : List Rule → Shared (List Rule)
  | [] => ⟨[], pool, []⟩
  | rule :: more =>
    match rule.condition with
    | some condition =>
      let first := pool.share condition
      let rest := first.pool.shareRules more
      ⟨{ rule with condition := some first.value } :: rest.value, rest.pool,
        first.reused ++ rest.reused⟩
    | none =>
      if rule.isCatchAll then
        let rest := pool.shareRules more
        ⟨rule :: rest.value, rest.pool, rest.reused⟩
      else ⟨rule :: more, pool, []⟩

end Pool

end PluralRules
