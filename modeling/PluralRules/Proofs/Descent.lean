import PluralRules.Proofs.Patterns
import PluralRules.Proofs.Reader

/-!
# Descent

Why a scanner comes to an end. Each run that another one starts has either less text before it or
the same text and, in the order of the layers, a lower pattern. For that two things have to hold of
the routines, and both can be read off their patterns (`Descends`): a routine that is called before
any character was taken is of a lower layer than the caller, and whatever is repeated takes a
character each time.

It follows that runs come to an end (`Descends.acc`), that a repetition never stalls
(`Runs.ne_stalled`), and that a routine that is called again from within itself has less text before
it then (`Descends.length_lt_of_reaches`).
-/

namespace PluralRules

/-! ### Conditions on patterns -/

namespace Pattern

variable {ρ : Type}

/-- Whether a pattern takes a character wherever it fits, if all routines do. -/
def takes : Pattern ρ → Bool
  | token t => t.takes
  | seq a b => a.takes || b.takes
  | alt a b => a.takes && b.takes
  | loop _ => false
  | moving _ | call _ => true

/-- Whether all that is repeated in a pattern takes a character each time, even if nothing looks
after that. -/
def safe : Pattern ρ → Bool
  | token _ | call _ => true
  | seq a b | alt a b => a.safe && b.safe
  | loop a | moving a => a.takes && a.safe

/-- A bound for the layers of the routines that a pattern may call before it has taken a
character. -/
def height (layer : ρ → Nat) : Pattern ρ → Nat
  | token _ => 0
  | seq a b => max (a.height layer) (if a.takes then 0 else b.height layer)
  | alt a b => max (a.height layer) (b.height layer)
  | loop a | moving a => a.height layer
  | call r => layer r + 1

end Pattern

open Pattern

/-- The routines take characters, repeat only what takes characters, and call none of their own
layer or of a higher one before they have taken a character. -/
structure Descends {ρ : Type} (rule : ρ → Pattern ρ) (layer : ρ → Nat) : Prop where
  takes (r : ρ) : (rule r).takes = true
  safe (r : ρ) : (rule r).safe = true
  height_le (r : ρ) : (rule r).height layer ≤ layer r

/-! ### What runs leave of a text -/

/-- What a reader leaves is the end of what it was given. -/
theorem Reader.Takes.suffix_of_leaves {α : Type} {item : Reader α} {Q : List Char → α → Prop}
    {s t : List Char} (h : Takes item Q) (hs : item.leaves s = some t) : t <:+ s := by
  obtain ⟨⟨a, _⟩, hread, rfl⟩ := Option.map_eq_some_iff.mp hs
  obtain ⟨text, rfl, -⟩ := h hread
  exact List.suffix_append text _

namespace Token

variable {token : Token} {s t : List Char}

/-- What a token leaves is the end of what it was given. -/
theorem suffix_of_leaves (h : token.leaves s = some t) : t <:+ s := by
  cases token with
  | one p => exact (Reader.takes_satisfying p).suffix_of_leaves h
  | run p => cases h; exact List.dropWhile_suffix p
  | word p reserved =>
    rw [leaves] at h
    split at h <;> cases h
    exact List.dropWhile_suffix p
  | text u => exact (Reader.takes_literal u).suffix_of_leaves h
  | absent p =>
    rw [leaves] at h
    split at h <;> cases h
    exact List.suffix_refl s

/-- A token that is never empty leaves a shorter text. -/
theorem length_lt (htakes : token.takes = true) (h : token.leaves s = some t) :
    t.length < s.length := by
  cases token with
  | one p =>
    obtain ⟨⟨c, _⟩, hread, rfl⟩ := Option.map_eq_some_iff.mp h
    obtain ⟨_, rfl, rfl, -⟩ := Reader.takes_satisfying p hread
    simp
  | word p reserved =>
    rw [leaves] at h
    split at h <;> cases h
    next hne =>
      have hpos := List.length_pos_iff.mpr (not_or.mp hne).1
      have hlength := congrArg List.length (List.takeWhile_append_dropWhile (p := p) (l := s))
      rw [List.length_append] at hlength
      omega
  | text u =>
    obtain ⟨⟨_, _⟩, hread, rfl⟩ := Option.map_eq_some_iff.mp h
    obtain ⟨text, rfl, rfl⟩ := Reader.takes_literal u hread
    have hpos : 0 < text.length := List.length_pos_iff.mpr (by simpa [takes] using htakes)
    simp only [List.length_append]
    omega
  | run p | absent p => cases htakes

end Token

/-- Where a cursor stays is a place in the text. -/
def Outcome.Within (s : List Char) : Outcome → Prop
  | .done rest => rest <:+ s
  | .failed stop => stop <:+ s
  | .stalled => True

/-- A cursor that stays in a text stays in every text that ends with it. -/
theorem Outcome.Within.mono {s t : List Char} {o : Outcome} (h : o.Within t) (hts : t <:+ s) :
    o.Within s := by
  cases o with
  | done rest => exact List.IsSuffix.trans h hts
  | failed stop => exact List.IsSuffix.trans h hts
  | stalled => exact trivial

namespace Runs

variable {ρ : Type} {rule : ρ → Pattern ρ} {layer : ρ → Nat} {e : Pattern ρ} {s t : List Char}
  {o : Outcome}

/-- The cursor never leaves the text, also where a run fails. -/
theorem within (h : Runs rule e s o) : o.Within s := by
  induction h with
  | token hs => exact Token.suffix_of_leaves hs
  | token_failed _ => exact List.suffix_refl _
  | seq _ _ iha ihb => exact ihb.mono iha
  | loop _ _ iha ihloop => exact ihloop.mono iha
  | loop_failed _ _ => exact List.suffix_refl _
  | loop_stalled _ _ | moving_stalled _ _ _ => exact trivial
  | seq_ended _ _ ih | alt _ _ ih | alt_failed _ _ _ ih | moving _ _ ih | moving_ended _ _ ih
  | call _ ih =>
    exact ih

theorem suffix (h : Runs rule e s (.done t)) : t <:+ s := h.within

/-- A pattern that takes a character wherever it fits leaves less text than there was. -/
theorem length_lt (hrule : Descends rule layer) (h : Runs rule e s (.done t))
    (htakes : e.takes = true) : t.length < s.length := by
  generalize ho : Outcome.done t = o at h
  induction h generalizing t with
  | token hs => cases ho; exact Token.length_lt htakes hs
  | token_failed _ | moving_stalled _ _ _ => cases ho
  | seq ha hb iha ihb =>
    subst ho
    have hsuffix := hb.suffix.length_le
    rcases Bool.or_eq_true_iff.mp htakes with ha' | hb'
    · have := iha ha' rfl
      omega
    · have := ihb hb' rfl
      have := ha.suffix.length_le
      omega
  | seq_ended _ hne _ | moving_ended _ hne _ => exact absurd ho.symm (hne t)
  | alt _ _ ih => exact ih (Bool.and_eq_true_iff.mp htakes).1 ho
  | alt_failed _ _ _ ih => exact ih (Bool.and_eq_true_iff.mp htakes).2 ho
  | loop _ _ _ _ | loop_failed _ _ | loop_stalled _ _ => cases htakes
  | moving _ hlt _ => cases ho; exact hlt
  | @call r _ _ _ ih => exact ih (hrule.takes r) ho

/-- What takes a character each time can be repeated without ever stalling. -/
theorem ne_stalled (hrule : Descends rule layer) (h : Runs rule e s o) (hsafe : e.safe = true) :
    o ≠ .stalled := by
  induction h with
  | token _ | token_failed _ | loop_failed _ _ | moving _ _ _ => nofun
  | seq _ _ _ ih => exact ih (Bool.and_eq_true_iff.mp hsafe).2
  | seq_ended _ _ ih => exact ih (Bool.and_eq_true_iff.mp hsafe).1
  | alt _ _ ih => exact ih (Bool.and_eq_true_iff.mp hsafe).1
  | alt_failed _ _ _ ih => exact ih (Bool.and_eq_true_iff.mp hsafe).2
  | loop _ _ _ ih => exact ih hsafe
  | loop_stalled _ ih => exact ih (Bool.and_eq_true_iff.mp hsafe).2
  | moving_stalled ha hnot _ =>
    exact absurd (ha.length_lt hrule (Bool.and_eq_true_iff.mp hsafe).1) hnot
  | moving_ended _ _ ih => exact ih (Bool.and_eq_true_iff.mp hsafe).2
  | @call r _ _ _ ih => exact ih (hrule.safe r)

end Runs

/-! ### Lower patterns -/

namespace Pattern

variable {ρ : Type} {layer : ρ → Nat} {a b : Pattern ρ}

/-- What goes down while the text stays the same: the layer, and within a layer the size of the
pattern. -/
def Below (layer : ρ → Nat) (b a : Pattern ρ) : Prop :=
  b.height layer < a.height layer ∨ b.height layer ≤ a.height layer ∧ sizeOf b < sizeOf a

/-- Going down never raises the height. -/
theorem Below.height_le (h : Below layer b a) : b.height layer ≤ a.height layer := by
  rcases h with hlt | ⟨hle, -⟩
  · exact hlt.le
  · exact hle

theorem below_seq_first : Below layer a (seq a b) :=
  Or.inr ⟨le_max_left _ _, by rw [seq.sizeOf_spec]; omega⟩

/-- Behind a pattern that may take nothing, the layers of what follows count as well. -/
theorem below_seq_second (htakes : a.takes = false) : Below layer b (seq a b) := by
  have hheight : b.height layer ≤ (seq a b).height layer := by
    rw [height, htakes]
    exact le_max_right _ _
  exact Or.inr ⟨hheight, by rw [seq.sizeOf_spec]; omega⟩

theorem below_alt_first : Below layer a (alt a b) :=
  Or.inr ⟨le_max_left _ _, by rw [alt.sizeOf_spec]; omega⟩

theorem below_alt_second : Below layer b (alt a b) :=
  Or.inr ⟨le_max_right _ _, by rw [alt.sizeOf_spec]; omega⟩

theorem below_loop : Below layer a (loop a) :=
  Or.inr ⟨le_rfl, by rw [loop.sizeOf_spec]; omega⟩

theorem below_moving : Below layer a (moving a) :=
  Or.inr ⟨le_rfl, by rw [moving.sizeOf_spec]; omega⟩

end Pattern

/-- What a routine does is of a lower layer than the call, even if it is the larger pattern. -/
theorem Descends.below_call {ρ : Type} {rule : ρ → Pattern ρ} {layer : ρ → Nat}
    (hrule : Descends rule layer) (r : ρ) : Below layer (rule r) (call r) :=
  Or.inl (Nat.lt_succ_of_le (hrule.height_le r))

/-! ### What calls leave of a text -/

section Calls

variable {ρ : Type} {rule : ρ → Pattern ρ} {layer : ρ → Nat} {x y : Pattern ρ × List Char} {r q : ρ}
  {s t : List Char}

/-- What a run starts is safe as well. It has less text before it, or else the same text and a lower
pattern. -/
theorem Calls.descends (hrule : Descends rule layer) (h : Calls rule x y)
    (hsafe : x.1.safe = true) :
    y.1.safe = true ∧ (y.2.length < x.2.length ∨ y.2 = x.2 ∧ Below layer y.1 x.1) := by
  cases h with
  | seq_first => exact ⟨(Bool.and_eq_true_iff.mp hsafe).1, Or.inr ⟨rfl, below_seq_first⟩⟩
  | @seq_second a b s t ha =>
    refine ⟨(Bool.and_eq_true_iff.mp hsafe).2, ?_⟩
    rcases ha.suffix.length_le.lt_or_eq with hlt | heq
    · exact Or.inl hlt
    · have htakes : a.takes = false := by
        rw [Bool.eq_false_iff]
        exact fun htakes => (ha.length_lt hrule htakes).ne heq
      exact Or.inr ⟨ha.suffix.eq_of_length heq, below_seq_second htakes⟩
  | alt_first => exact ⟨(Bool.and_eq_true_iff.mp hsafe).1, Or.inr ⟨rfl, below_alt_first⟩⟩
  | alt_second _ => exact ⟨(Bool.and_eq_true_iff.mp hsafe).2, Or.inr ⟨rfl, below_alt_second⟩⟩
  | loop_item => exact ⟨(Bool.and_eq_true_iff.mp hsafe).2, Or.inr ⟨rfl, below_loop⟩⟩
  | loop_again ha => exact ⟨hsafe, Or.inl (ha.length_lt hrule (Bool.and_eq_true_iff.mp hsafe).1)⟩
  | moving => exact ⟨(Bool.and_eq_true_iff.mp hsafe).2, Or.inr ⟨rfl, below_moving⟩⟩
  | @call r _ => exact ⟨hrule.safe r, Or.inr ⟨rfl, hrule.below_call r⟩⟩

/-- No chain of runs, each started by the one before, goes on for ever: what remains of the text,
the layer and the size of the pattern go down, in this order. -/
theorem Descends.acc (hrule : Descends rule layer) (x : Pattern ρ × List Char)
    (hsafe : x.1.safe = true) : Acc (fun y x => Calls rule x y) x :=
  ⟨x, fun y hcall =>
    have hlower := hcall.descends hrule hsafe
    hrule.acc y hlower.1⟩
termination_by (x.2.length, x.1.height layer, sizeOf x.1)
decreasing_by
  obtain ⟨-, hlt | ⟨heq, hlt | ⟨hle, hlt⟩⟩⟩ := hlower
  · exact Prod.Lex.left _ _ hlt
  · rw [heq]
    exact Prod.Lex.right _ (Prod.Lex.left _ _ hlt)
  · rw [heq]
    rcases hle.lt_or_eq with hlt' | heq'
    · exact Prod.Lex.right _ (Prod.Lex.left _ _ hlt')
    · rw [heq']
      exact Prod.Lex.right _ (Prod.Lex.right _ hlt)

/-- All that a run reaches is safe. It has less text before it, or else the same text and no higher
pattern. -/
theorem Descends.of_reaches (hrule : Descends rule layer)
    (h : Relation.ReflTransGen (Calls rule) x y) (hsafe : x.1.safe = true) : y.1.safe = true ∧
      (y.2.length < x.2.length ∨ y.2 = x.2 ∧ y.1.height layer ≤ x.1.height layer) := by
  induction h with
  | refl => exact ⟨hsafe, Or.inr ⟨rfl, le_refl _⟩⟩
  | tail _ hcall ih =>
    obtain ⟨hsafe', hlower⟩ := ih
    obtain ⟨hsafe'', hlower'⟩ := hcall.descends hrule hsafe'
    refine ⟨hsafe'', ?_⟩
    rcases hlower with hlt | ⟨heq, hle⟩ <;> rcases hlower' with hlt' | ⟨heq', hbelow⟩
    · exact Or.inl (hlt'.trans hlt)
    · exact Or.inl (heq' ▸ hlt)
    · exact Or.inl (heq ▸ hlt')
    · exact Or.inr ⟨heq'.trans heq, hbelow.height_le.trans hle⟩

/-- A routine that is reached from one of its own layer or of a lower one has less text before it.
So has every routine that is reached from itself. -/
theorem Descends.length_lt_of_reaches (hrule : Descends rule layer) (hle : layer r ≤ layer q)
    (h : Reaches rule (.call r, s) (.call q, t)) : t.length < s.length := by
  obtain ⟨x, hcall, hreach⟩ := Relation.TransGen.head'_iff.mp h
  cases hcall
  obtain ⟨-, hlt | ⟨-, hheight⟩⟩ := hrule.of_reaches hreach (hrule.safe r)
  · exact hlt
  -- with the same text before it, it could be reached from higher layers only
  · have hheight' : layer q + 1 ≤ (rule r).height layer := hheight
    have := hrule.height_le r
    omega

/-- A safe pattern comes to an end, and so does all that it reaches; nothing in it ever stalls. -/
theorem Descends.exists_runs (hrule : Descends rule layer) (hsafe : x.1.safe = true)
    (h : Relation.ReflTransGen (Calls rule) x y) :
    (∃ o, Runs rule y.1 y.2 o) ∧ ¬ Runs rule y.1 y.2 .stalled := by
  have hsafe' := (hrule.of_reaches h hsafe).1
  exact ⟨Runs.exists_of_acc (hrule.acc y hsafe'), fun hrun => hrun.ne_stalled hrule hsafe' rfl⟩

end Calls

end PluralRules
