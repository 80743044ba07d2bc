import PluralRules.Proofs.Layer

/-!
# What may follow a text

A printed expression is read back only if what follows it does not go on with it: `1` followed by
`0` is another number, and `n = 1` followed by `and v = 0` is another condition. `Follows k rest`
says that `rest` may follow an expression of strength `k` or more. The looser the expression, the
more would go on with it, so the less may follow.

All texts that come after an expression in a printed rule are covered by the lemmas of the last
section.
-/

namespace PluralRules.Grammar

open Reader

/-! ### Words and marks in front of a text -/

variable {s rest : List Char}

/-- The excerpt of an item is what was taken off. -/
theorem excerptOf_append {α : Type} {item : Reader α} {a : α} {text : List Char}
    (h : item (text ++ rest) = some (a, rest)) :
    excerptOf item (text ++ rest) = some (⟨text, rest⟩, rest) := by
  simp [excerptOf, h, before_append]

theorem excerptOf_eq_none {α : Type} {item : Reader α} (h : item s = none) :
    excerptOf item s = none := by
  simp [excerptOf, h]

/-- A reserved word is read if no longer name begins with it. -/
theorem keyword_append (text : String) (h : rest.head?.any isNameChar = false) :
    keyword text (text.toList ++ rest) = some (⟨text.toList, rest⟩, rest) := by
  simp [keyword, excerptOf_append literal_append, h]

/-- A word that begins a text is no other word. -/
theorem keyword_eq_none {text : String} (htext : ∀ c ∈ text.toList, isNameChar c = true)
    (h : s.takeWhile isNameChar ≠ text.toList) : keyword text s = none := by
  cases hliteral : literal text.toList s with
  | none => simp [keyword, excerptOf_eq_none hliteral]
  | some x =>
    obtain ⟨_, rest⟩ := x
    obtain ⟨_, rfl, rfl⟩ := takes_literal text.toList hliteral
    cases hrest : rest.head?.any isNameChar with
    | true => simp [keyword, excerptOf_append hliteral, hrest]
    | false => exact absurd (takeWhile_run htext hrest) h

theorem isWordChar_of_mem_reserved {text : List Char} (h : text ∈ reserved) :
    text ≠ [] ∧ ∀ c ∈ text, isWordChar c = true := by
  have hall : ∀ word ∈ reserved, word ≠ [] ∧ word.all isWordChar = true := by decide
  obtain ⟨hne, hchars⟩ := hall text h
  exact ⟨hne, List.all_eq_true.mp hchars⟩

/-- A word that only begins like a keyword is not read as one. -/
theorem keyword_eq_none_of_not_reserved {text : String} (htext : text.toList ∈ reserved)
    (h : s.takeWhile isNameChar ∉ reserved) : keyword text s = none := by
  refine keyword_eq_none (fun c hc => ?_) fun heq => h (heq ▸ htext)
  exact isNameChar_of_isWordChar ((isWordChar_of_mem_reserved htext).2 c hc)

/-- A keyword is ruled out by its first letter. -/
theorem keyword_eq_none_of_head {text : String} {c : Char} (htext : text.toList.head? = some c)
    (h : s.head? ≠ some c) : keyword text s = none := by
  have hliteral : literal text.toList s = none := by
    rw [literal, if_neg]
    intro hpre
    obtain ⟨t, rfl⟩ := List.isPrefixOf_iff_prefix.mp hpre
    rw [List.head?_append, htext] at h
    exact h rfl
  simp [keyword, excerptOf_eq_none hliteral]

/-- What does not go on with a name does not go on with a word. -/
theorem isWordChar_head (h : rest.head?.any isNameChar = false) :
    rest.head?.any isWordChar = false := by
  cases rest with
  | nil => rfl
  | cons c t =>
    cases hc : isWordChar c with
    | false => simpa using hc
    | true =>
      have hname : isNameChar c = false := by simpa using h
      rw [isNameChar_of_isWordChar hc] at hname
      cases hname

/-- A word is read to its end, if the text does not go on with a name. -/
theorem word_append {text : List Char} (h : IsWord text)
    (hrest : rest.head?.any isNameChar = false) :
    word (text ++ rest) = some (⟨text, rest⟩, rest) := by
  obtain ⟨hne, hall, hreserved⟩ := h
  have hrun := excerptOf_append (run_append hne hall (isWordChar_head hrest))
  simp [word, runOf, hrun, hreserved]

theorem word_eq_none (h : s.head?.any isWordChar = false) : word s = none := by
  simp [word, runOf, excerptOf_eq_none (run_eq_none h)]

/-- A reserved word is no word that could name an operand. -/
theorem word_eq_none_of_reserved {text : List Char} (htext : text ∈ reserved)
    (hrest : rest.head?.any isNameChar = false) : word (text ++ rest) = none := by
  obtain ⟨hne, hchars⟩ := isWordChar_of_mem_reserved htext
  have hrun := excerptOf_append (run_append hne hchars (isWordChar_head hrest))
  simp [word, runOf, hrun, htext]

/-! ### What may follow an expression -/

/-- A text that does not go on with an expression of a given strength or a greater one. -/
structure Follows (k : Nat) (rest : List Char) : Prop where
  name : rest.head?.any isNameChar = false
  point : Numeral.pointAndDigits rest = none
  arithmetic : k ≤ 7 → skipping arithmeticMark rest = none
  dots : k ≤ 6 → skipping dots rest = none
  comma : k ≤ 5 → skipping (char ',') rest = none
  and : k ≤ 2 → skipping (keyword "and") rest = none
  or : k ≤ 1 → skipping (orElse (keyword "or") (keyword "xor")) rest = none

/-- What may follow a loose operand may follow a tight one. -/
theorem Follows.mono {j k : Nat} (h : Follows j rest) (hjk : j ≤ k) : Follows k rest where
  name := h.name
  point := h.point
  arithmetic hk := h.arithmetic (hjk.trans hk)
  dots hk := h.dots (hjk.trans hk)
  comma hk := h.comma (hjk.trans hk)
  and hk := h.and (hjk.trans hk)
  or hk := h.or (hjk.trans hk)

/-! ### The texts that follow expressions in printed rules -/

variable {k : Nat}

/-- The end of the text may follow anything. -/
theorem follows_nil : Follows k [] where
  name := rfl
  point := rfl
  arithmetic _ := by decide
  dots _ := rfl
  comma _ := rfl
  and _ := by decide
  or _ := by decide

/-- How a text goes on shows in its first character that is not blank. -/
theorem follows_of_head {c : Char} {t : List Char} (hskip : Text.skipBlanks rest = c :: t)
    (hname : rest.head?.any isNameChar = false) (hpoint : Numeral.pointAndDigits rest = none)
    (harithmetic : k ≤ 7 → c ≠ 'm' ∧ isArithmeticChar c = false) (hdots : k ≤ 6 → c ≠ '.')
    (hcomma : k ≤ 5 → c ≠ ',') (hand : k ≤ 2 → c ≠ 'a') (hor : k ≤ 1 → c ≠ 'o' ∧ c ≠ 'x') :
    Follows k rest where
  name := hname
  point := hpoint
  arithmetic hk := by
    obtain ⟨hm, hc⟩ := harithmetic hk
    rw [skipping, hskip, arithmeticMark,
      orElse_of_none (keyword_eq_none_of_head (c := 'm') (by decide) (by simpa using hm))]
    exact excerptOf_eq_none (satisfying_eq_none (by simpa using hc))
  dots hk := by
    have hc := hdots hk
    rw [skipping, hskip]
    exact excerptOf_eq_none (by simp [literal, hc.symm])
  comma hk := by
    rw [skipping, hskip]
    exact char_eq_none (by simpa using hcomma hk)
  and hk := by
    rw [skipping, hskip]
    exact keyword_eq_none_of_head (c := 'a') (by decide) (by simpa using hand hk)
  or hk := by
    obtain ⟨ho, hx⟩ := hor hk
    rw [skipping, hskip,
      orElse_of_none (keyword_eq_none_of_head (c := 'o') (by decide) (by simpa using ho))]
    exact keyword_eq_none_of_head (c := 'x') (by decide) (by simpa using hx)

/-- A closing parenthesis may follow anything. -/
theorem follows_close : Follows k (')' :: s) :=
  follows_of_head (c := ')') (t := s) rfl rfl (Numeral.pointAndDigits_eq_none (by simp))
    (fun _ => by decide) (fun _ => by decide) (fun _ => by decide) (fun _ => by decide)
    (fun _ => by decide)

/-- The samples of a rule end its condition. -/
theorem follows_samples : Follows k (' ' :: '@' :: s) :=
  follows_of_head (c := '@') (t := s) rfl rfl (Numeral.pointAndDigits_eq_none (by simp))
    (fun _ => by decide) (fun _ => by decide) (fun _ => by decide) (fun _ => by decide)
    (fun _ => by decide)

/-- A comma may follow what holds together more strongly than a list. -/
theorem follows_comma (hk : 5 < k) : Follows k (',' :: s) :=
  follows_of_head (c := ',') (t := s) rfl rfl (Numeral.pointAndDigits_eq_none (by simp))
    (fun _ => by decide) (fun _ => by decide) (fun h => by omega) (fun _ => by decide)
    (fun _ => by decide)

/-- Dots may follow what holds together more strongly than a range. -/
theorem follows_dots (hk : 6 < k) : Follows k ('.' :: '.' :: s) := by
  have hpoint : Numeral.pointAndDigits ('.' :: '.' :: s) = none := by
    simp [Numeral.pointAndDigits, char_cons, Numeral.digits,
      run_eq_none (show ('.' :: s).head?.any Char.isDigit = false from rfl)]
  exact follows_of_head (c := '.') (t := '.' :: s) rfl rfl hpoint
    (fun _ => by decide) (fun h => by omega) (fun _ => by decide) (fun _ => by decide)
    (fun _ => by decide)

/-- An operator goes on with nothing that holds together more strongly than it does. -/
theorem follows_symbol (op : BinaryOp) (hk : op.strength < k) :
    Follows k (' ' :: op.symbol.toList ++ ' ' :: s) := by
  obtain ⟨c, t, hsymbol⟩ : ∃ c t, op.symbol.toList = c :: t := by
    rcases op with _ | (_ | _ | _) | (_ | _ | _ | _ | _ | _) <;> exact ⟨_, _, rfl⟩
  have hskip : Text.skipBlanks (' ' :: op.symbol.toList ++ ' ' :: s) = c :: (t ++ ' ' :: s) := by
    rw [List.cons_append, Text.skipBlanks_blank, hsymbol, List.cons_append]
    apply Text.skipBlanks_eq_self
    rcases op with _ | (_ | _ | _) | (_ | _ | _ | _ | _ | _) <;> cases hsymbol <;> rfl
  refine follows_of_head hskip rfl (Numeral.pointAndDigits_eq_none (by simp)) ?_ ?_ ?_ ?_ ?_
  all_goals
    intro h
    rcases op with _ | (_ | _ | _) | (_ | _ | _ | _ | _ | _) <;> cases hsymbol <;>
      first | decide | (simp only [BinaryOp.strength] at hk; omega)

end PluralRules.Grammar
