import PluralRules.Proofs.Follow
import PluralRules.Proofs.Meaning

/-!
# Reading operators back

`ReadsAs item k sets e` says that a reader takes the text of the expression `e` off the front of
every text that does not go on with it, and returns a phrase that means `e`. It is proved layer by
layer, and here are the steps that several layers share: marks before an operand, and operators
between operands.

A chain is read to its end before it is grouped, so an operand on the left is never read on its own.
What holds of it instead is `Continues`: the chain arrives behind its text, with a phrase that means
it, and goes on from there.
-/

namespace PluralRules

/-- The symbol of an operator does not begin with a blank. -/
theorem BinaryOp.isSolid_symbol (op : BinaryOp) : Text.IsSolid op.symbol.toList := by
  rcases op with _ | (_ | _ | _) | (_ | _ | _ | _ | _ | _) <;> exact ⟨_, _, rfl, by decide⟩

/-! ### Expressions that phrases mean -/

namespace Phrase

variable {p left right : Phrase} {b : Bool} {a q : Quantity} {e l r : Expr} {s : List Char}

theorem unaryOp_symbol (op : UnaryOp) : unaryOp ⟨op.symbol.toList, s⟩ = .ok op := by
  rw [unaryOp_eq_ok, Excerpt.toString, String.ofList_toList]
  rcases op with _ | (_ | _ | _) <;> decide

theorem binaryOp_symbol (op : BinaryOp) : binaryOp ⟨op.symbol.toList, s⟩ = .ok op := by
  rw [binaryOp_eq_ok, Excerpt.toString, String.ofList_toList]
  rcases op with _ | (_ | _ | _) | (_ | _ | _ | _ | _ | _) <;> decide

/-- An operator before a phrase means the operator before what the phrase means. -/
theorem meaning_prefixed (op : UnaryOp) (h : p.meaning false = .ok e) :
    (prefixed ⟨op.symbol.toList, s⟩ p).meaning b = .ok (.unary op e) :=
  bind_eq_ok.mpr ⟨op, unaryOp_symbol op, bind_eq_ok.mpr ⟨e, h, rfl⟩⟩

/-- Two phrases with an operator between them mean the operator between what they mean. A divisor
also has to be able to divide. -/
theorem meaning_joined {op : BinaryOp} (hl : left.meaning op.isRelational = .ok l)
    (hr : right.meaning op.isRelational = .ok r) (hdivide : op = .modulo → canDivide r = true) :
    (joined ⟨op.symbol.toList, s⟩ left right).meaning b = .ok (.binary op l r) := by
  refine bind_eq_ok.mpr ⟨op, binaryOp_symbol op, bind_eq_ok.mpr ⟨l, hl, bind_eq_ok.mpr ⟨r, hr, ?_⟩⟩⟩
  cases hop : op == BinaryOp.modulo with
  | false => rfl
  | true =>
    rw [hdivide (by simpa using hop)]
    rfl

theorem meaning_paren (h : p.meaning b = .ok e) : (paren p).meaning b = .ok (.paren e) :=
  bind_eq_ok.mpr ⟨e, h, rfl⟩

def kind : Phrase → Expr.Kind
  | number _ => .constant
  | word _ => .operand
  | truth _ => .boolean
  | prefixed .. => .unary
  | joined .. => .binary
  | span .. => .range
  | list .. => .group
  | paren _ => .parenthesis

/-- The kind of an expression shows in the phrase that means it. -/
theorem kind_of_meaning (h : p.meaning b = .ok e) : e.kind = p.kind := by
  cases p with
  | number _ =>
    obtain ⟨_, _, h⟩ := bind_eq_ok.mp h
    cases h
    rfl
  | word _ => cases h; rfl
  | truth _ => cases h; rfl
  | prefixed _ _ =>
    obtain ⟨_, _, h⟩ := bind_eq_ok.mp h
    obtain ⟨_, _, h⟩ := bind_eq_ok.mp h
    cases h
    rfl
  | joined _ _ _ =>
    obtain ⟨op, _, h⟩ := bind_eq_ok.mp h
    obtain ⟨_, _, h⟩ := bind_eq_ok.mp h
    obtain ⟨r, _, h⟩ := bind_eq_ok.mp h
    cases hno : op == BinaryOp.modulo && !canDivide r <;> rw [hno] at h <;> cases h
    rfl
  | span _ _ _ =>
    rw [meaning] at h
    split at h
    · obtain ⟨_, _, h⟩ := bind_eq_ok.mp h
      obtain ⟨_, _, h⟩ := bind_eq_ok.mp h
      cases h
      rfl
    · cases h
  | list _ _ =>
    rw [meaning] at h
    split at h
    · obtain ⟨_, _, h⟩ := bind_eq_ok.mp h
      cases h
      rfl
    · cases h
  | paren _ =>
    obtain ⟨_, _, h⟩ := bind_eq_ok.mp h
    cases h
    rfl

/-- A phrase that means a literal can be an end of a range. -/
theorem bound_of_meaning (h : p.meaning b = .ok (.literal q)) : p.bound = .ok q := by
  have hkind := kind_of_meaning h
  cases p with
  | number text =>
    obtain ⟨_, hq, heq⟩ := bind_eq_ok.mp h
    cases heq
    exact hq
  | _ => cases hkind

/-- A phrase that means a literal or a range can be an element of a list. -/
theorem element_of_meaning {admitted : Expr.Admitted} (h : p.meaning b = .ok e)
    (he : e.IsElement admitted) : p.element = .ok e := by
  have hkind := kind_of_meaning h
  cases he with
  | literal _ =>
    cases p with
    | number text => exact h
    | _ => cases hkind
  | range _ _ =>
    cases p with
    | span _ least greatest =>
      rw [meaning] at h
      split at h
      · exact h
      · cases h
    | _ => cases hkind

end Phrase

namespace Grammar

open Reader

variable {item operand : Reader Phrase} {mark operator : Reader Excerpt} {p : Phrase} {m : Excerpt}
  {s rest text : List Char} {k : Nat} {sets : Bool} {e l r : Expr}

/-- A reader takes the text of an expression off the front of every text that does not go on with
it, and returns a phrase that means the expression. -/
def ReadsAs (item : Reader Phrase) (k : Nat) (sets : Bool) (e : Expr) : Prop :=
  Reads item (Follows k) e.chars fun p => p.meaning sets = .ok e

/-! ### Marks before an operand -/

/-- Where no mark stands, an operand with marks is the operand alone. -/
theorem marked_of_none (h : mark s = none) : marked mark operand s = operand s := by
  have hthen : thenBlanks mark s = none := by simp [thenBlanks, h]
  cases hs : operand s <;> simp [marked, many_of_none hthen, hs]

/-- A mark is followed by an operand with the marks that are left. -/
theorem marked_of_some (h : mark s = some (m, rest)) (hlt : rest.length < s.length)
    (hp : marked mark operand (Text.skipBlanks rest) = some (p, text)) :
    marked mark operand s = some (.prefixed m p, text) := by
  have hthen : thenBlanks mark s = some (m, Text.skipBlanks rest) := by simp [thenBlanks, h]
  have hle : (Text.skipBlanks rest).length ≤ rest.length := (List.dropWhile_suffix _).length_le
  obtain ⟨⟨last, _⟩, hlast, heq⟩ := Option.bind_eq_some_iff.mp hp
  cases heq
  simp [marked, many_of_some hthen (show (Text.skipBlanks rest).length < s.length by omega), hlast]

/-! ### Parentheses around an operand -/

/-- What a reader makes of a text, it makes of it in parentheses. -/
theorem parenthesized_append (hsolid : Text.IsSolid e.chars)
    (h : operand (e.chars ++ ')' :: rest) = some (p, ')' :: rest)) :
    parenthesized operand ((Expr.paren e).chars ++ rest) = some (.paren p, rest) := by
  have hskip : skipping operand (e.chars ++ ')' :: rest) = some (p, ')' :: rest) := by
    rw [skipping, (hsolid.append _).skipBlanks_eq, h]
  rw [Expr.chars_paren_append]
  exact map_eq_some (between_eq_some hskip (by decide))

/-! ### Operators between operands -/

/-- An operator with blanks around it, and an operand, are read as they are written. -/
theorem link_append (hsymbol : Text.IsSolid text)
    (hoperator : operator (text ++ ' ' :: (s ++ rest)) = some (m, ' ' :: (s ++ rest)))
    (hs : Text.IsSolid s) (hoperand : operand (s ++ rest) = some (p, rest)) :
    link operator operand (' ' :: text ++ ' ' :: (s ++ rest)) = some ((m, p), rest) := by
  rw [link, skipping, List.cons_append, Text.skipBlanks_blank,
    (hsymbol.append _).skipBlanks_eq]
  apply pair_eq_some hoperator
  rw [skipping, Text.skipBlanks_blank, (hs.append _).skipBlanks_eq, hoperand]

theorem link_eq_none (h : skipping operator s = none) : link operator operand s = none :=
  pair_eq_none h

/-- The chain that goes on from a phrase that has been read, and what remains of the text. -/
def chainFrom (operator : Reader Excerpt) (operand : Reader Phrase) (p : Phrase) (s : List Char) :
    Phrase × List Char :=
  ((many (link operator operand) s).1.foldl
    (fun left (operator, right) => .joined operator left right) p,
    (many (link operator operand) s).2)

/-- A chain is its first operand and what goes on from there. -/
theorem chain_eq_chainFrom (h : operand s = some (p, rest)) :
    chain operator operand s = some (chainFrom operator operand p rest) := by
  rw [chain, h]
  rfl

/-- A chain ends where no operator follows. -/
theorem chainFrom_of_none (h : skipping operator s = none) :
    chainFrom operator operand p s = (p, s) := by
  rw [chainFrom, many_of_none (link_eq_none h)]
  rfl

/-- An operator and its operand join the chain on the left, and the chain goes on from both. -/
theorem chainFrom_of_some {right : Phrase} (h : link operator operand s = some ((m, right), rest))
    (hlt : rest.length < s.length) :
    chainFrom operator operand p s = chainFrom operator operand (.joined m p right) rest := by
  rw [chainFrom, many_of_some h hlt]
  rfl

/-- Behind the text of an expression, a chain goes on from a phrase that means the expression. -/
def Continues (operator : Reader Excerpt) (operand : Reader Phrase) (k : Nat) (sets : Bool)
    (e : Expr) : Prop :=
  ∀ rest, Follows k rest → ∃ p,
    chain operator operand (e.chars ++ rest) = some (chainFrom operator operand p rest) ∧
      p.meaning sets = .ok e

theorem continues_of_readsAs (h : ReadsAs operand k sets e) :
    Continues operator operand k sets e := by
  intro rest hrest
  obtain ⟨p, hread, hp⟩ := h rest hrest
  exact ⟨p, chain_eq_chainFrom hread, hp⟩

/-- A chain continues behind an operator and its right operand if it does so behind the left one. -/
theorem Continues.binary {op : BinaryOp} (hl : Continues operator operand k op.isRelational l)
    (hr : ReadsAs operand k op.isRelational r) (hsolid : Text.IsSolid r.chars)
    (hoperator : ∀ s, operator (op.symbol.toList ++ ' ' :: s) =
      some (⟨op.symbol.toList, ' ' :: s⟩, ' ' :: s))
    (hgrouped : (Expr.binary op l r).IsGrouped) (hk : op.strength < k)
    (hdivide : op = .modulo → Phrase.canDivide r = true) :
    Continues operator operand k sets (.binary op l r) := by
  intro rest hrest
  obtain ⟨right, hright, hrightMeaning⟩ := hr rest hrest
  obtain ⟨left, hleft, hleftMeaning⟩ := hl _ (follows_symbol op (s := r.chars ++ rest) hk)
  have hlink := link_append op.isSolid_symbol (hoperator (r.chars ++ rest)) hsolid hright
  refine ⟨.joined ⟨op.symbol.toList, ' ' :: (r.chars ++ rest)⟩ left right, ?_,
    Phrase.meaning_joined hleftMeaning hrightMeaning hdivide⟩
  rw [Expr.chars_binary_append hgrouped, hleft, chainFrom_of_some hlink (by simp; omega)]

/-- A chain that continues behind an expression and finds no operator there has read the
expression. -/
theorem Continues.readsAs {j : Nat} (h : Continues operator operand k sets e)
    (hend : ∀ rest, Follows j rest → skipping operator rest = none) (hjk : j ≤ k) :
    ReadsAs (chain operator operand) j sets e := by
  intro rest hrest
  obtain ⟨p, hread, hp⟩ := h rest (hrest.mono hjk)
  rw [chainFrom_of_none (hend rest hrest)] at hread
  exact ⟨p, hread, hp⟩

end Grammar

end PluralRules
