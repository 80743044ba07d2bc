import PluralRules.Proofs.Values

/-!
# Reading conditions back

The layers of the grammar of conditions read the texts of conditions as those of values read the
texts of values (`readsAs_conditionReader`).

One case is special. An opening parenthesis may begin a value or a condition, and the grammar tries
the value first. That attempt fails on a condition in parentheses: whatever it reads inside them is
not followed by the closing parenthesis (`no_close_behind_value`).
-/

namespace PluralRules

/-! ### How the texts of conditions begin -/

/-- A condition is printed without a blank in front. -/
theorem Expr.IsCondition.isSolid_chars {e : Expr} (h : e.IsCondition .written) (hg : e.IsGrouped) :
    Text.IsSolid e.chars := by
  induction h with
  | @truth b => cases b <;> exact ⟨_, _, rfl, by decide⟩
  | not _ _ =>
    rw [chars_unary hg]
    exact ⟨'n', _, rfl, by decide⟩
  | logic _ _ ihl _ =>
    rw [chars_binary hg]
    exact (ihl hg.2.2.1).append _
  | relation hl _ =>
    rw [chars_binary hg]
    exact (hl.isSolid_chars hg.2.2.1).append _
  | @paren inner _ _ => exact ⟨'(', inner.chars ++ [')'], rfl, by decide⟩

namespace Grammar

open Reader

variable {s rest : List Char} {inner valueReader : Reader Phrase} {e : Expr} {depth n : Nat}

/-! ### Values that are not there -/

/-- No value begins where neither a number, a word, a parenthesis nor a sign stands. -/
theorem value_eq_none (hprimary : primary (value depth) s = none)
    (hsign : s.head?.any isSignChar = false) : value (depth + 1) s = none := by
  have hmark : excerptOf (satisfying isSignChar) s = none :=
    excerptOf_eq_none (satisfying_eq_none hsign)
  have hsigned : signed (value depth) s = none := by rw [signed, marked_of_none hmark, hprimary]
  have harithmetic : arithmetic (value depth) s = none := by simp [arithmetic, chain, hsigned]
  have hrange : range (value depth) s = none := by simp [range, harithmetic]
  simp [value, list, commaSeparated, hrange]

/-- A reserved word begins no value. -/
theorem value_eq_none_of_reserved {text : List Char} (htext : text ∈ reserved)
    (hrest : rest.head?.any isNameChar = false) : value depth (text ++ rest) = none := by
  -- a reserved word begins with a letter, which rules out numbers, parentheses and signs
  have hall : ∀ word ∈ reserved, word.head?.any isWordChar = true := by decide
  obtain ⟨c, t, heq, hc⟩ : ∃ c t, text = c :: t ∧ isWordChar c = true := by
    have hhead := hall text htext
    cases text with
    | nil => cases hhead
    | cons c t => exact ⟨c, t, rfl, by simpa using hhead⟩
  cases depth with
  | zero => rfl
  | succ depth =>
    have hopen : (text ++ rest).head? ≠ some '(' := by
      rw [heq]
      rintro ⟨⟩
      cases hc
    refine value_eq_none ?_ ?_
    · rw [primary, orElse_of_none (map_eq_none (number_eq_none ?_)),
        orElse_of_none (map_eq_none (word_eq_none_of_reserved htext hrest))]
      · exact map_eq_none (by simp [between, char_eq_none hopen])
      · rw [heq]
        exact isDigit_of_isWordChar hc
    · rw [heq]
      exact isSignChar_of_isNameChar (isNameChar_of_isWordChar hc)

/-- What stands in parentheses is no value if what is read of it is not followed by the closing
one. -/
theorem value_eq_none_of_parens {text : List Char} (hsolid : Text.IsSolid text)
    (h : ∀ p t, value depth (text ++ s) = some (p, t) → skipping (char ')') t = none) :
    value (depth + 1) ('(' :: (text ++ s)) = none := by
  have hbetween : between '(' ')' (value depth) ('(' :: (text ++ s)) = none := by
    refine between_eq_none fun p t hp => ?_
    rw [skipping, (hsolid.append s).skipBlanks_eq] at hp
    exact h p t hp
  refine value_eq_none ?_ rfl
  rw [primary, orElse_of_none (map_eq_none (number_eq_none rfl)),
    orElse_of_none (map_eq_none (word_eq_none rfl))]
  exact map_eq_none hbetween

/-- If a value is read off the text of a condition, no closing parenthesis follows it. -/
theorem no_close_behind_value (h : e.IsCondition .written) : ∀ {depth : Nat} {rest : List Char},
    e.IsGrouped → e.chars.length < depth → rest.head?.any isNameChar = false →
      ∀ p s, value depth (e.chars ++ rest) = some (p, s) → skipping (char ')') s = none := by
  -- Either the whole text is no value at all, or what is read is the left side of a comparison.
  induction h with
  | @truth b =>
    intro depth rest _ _ hrest p s hread
    have htext : (Expr.truth b).chars ∈ reserved := by cases b <;> decide
    rw [value_eq_none_of_reserved htext hrest] at hread
    cases hread
  | @not arg _ _ =>
    intro depth rest hg _ _ p s hread
    have hnone : value depth ("not".toList ++ ' ' :: (arg.chars ++ rest)) = none :=
      value_eq_none_of_reserved (by decide) rfl
    rw [Expr.chars_unary hg] at hread
    exact absurd (hnone.symm.trans hread) (by simp)
  | logic _ _ ihl _ =>
    intro depth rest hg hlength _ p s hread
    rw [Expr.chars_binary_append hg] at hread
    exact ihl hg.2.2.1 ((Expr.length_left_lt hg).trans hlength) rfl p s hread
  | @relation comparison left right hl _ =>
    intro depth rest hg hlength _ p s hread
    rw [Expr.chars_binary_append hg] at hread
    obtain ⟨p', hp', -⟩ := readsValues_value depth hl hg.2.2.1 hl.five_le_strength
      ((Expr.length_left_lt hg).trans hlength) _
      (follows_symbol (.relation comparison) (s := right.chars ++ rest)
        (show 4 < 5 by decide))
    rw [hp'] at hread
    cases hread
    cases comparison <;> rfl
  | @paren inner hinner ih =>
    intro depth rest hg hlength _ p s hread
    rw [Expr.length_chars_paren] at hlength
    cases depth with
    | zero => cases hread
    | succ depth =>
      have hnone : value (depth + 1) ('(' :: (inner.chars ++ ')' :: rest)) = none :=
        value_eq_none_of_parens (hinner.isSolid_chars hg) (ih hg (by omega) rfl)
      rw [Expr.chars_paren_append, hnone] at hread
      cases hread

/-- A condition in parentheses is not read as a value. -/
theorem value_eq_none_of_condition (h : e.IsCondition .written) (hg : e.IsGrouped)
    (hlength : e.chars.length < depth) :
    value (depth + 1) ('(' :: (e.chars ++ ')' :: rest)) = none :=
  value_eq_none_of_parens (h.isSolid_chars hg) (no_close_behind_value h hg hlength rfl)

/-! ### The layers of conditions -/

/-- A reader reads all conditions of less than a given length that hold together with a given
strength. -/
def ReadsConditions (item : Reader Phrase) (k n : Nat) : Prop :=
  ∀ ⦃e : Expr⦄, e.IsCondition .written → e.IsGrouped → k ≤ e.strength → e.chars.length < n →
    ReadsAs item k false e

/-- A printed comparison is read to its end, since a blank follows it. -/
theorem comparisonMark_append (op : Comparison) (s : List Char) :
    comparisonMark ((BinaryOp.relation op).symbol.toList ++ ' ' :: s) =
      some (⟨(BinaryOp.relation op).symbol.toList, ' ' :: s⟩, ' ' :: s) := by
  apply excerptOf_append (a := ())
  cases op <;> simp [BinaryOp.symbol, Reader.satisfying, Reader.optional, isComparisonChar]

/-- A printed comparison is read back with its two sides. -/
theorem readsAs_comparison (h : ReadsValues valueReader 5 n) {op : Comparison} {left right : Expr}
    (hl : left.IsValue .written true) (hr : right.IsValue .written true)
    (hg : (Expr.binary (.relation op) left right).IsGrouped)
    (hlength : (Expr.binary (.relation op) left right).chars.length < n) :
    ReadsAs (comparison valueReader) 4 false (.binary (.relation op) left right) := by
  intro rest hrest
  have hright : ReadsAs valueReader 5 true right :=
    h hr hg.2.2.2 hr.five_le_strength ((Expr.length_right_lt hg).trans hlength)
  obtain ⟨q, hreadq, hq⟩ := hright rest (hrest.mono (by decide))
  have hleft : ReadsAs valueReader 5 true left :=
    h hl hg.2.2.1 hl.five_le_strength ((Expr.length_left_lt hg).trans hlength)
  obtain ⟨p, hreadp, hp⟩ := hleft _
    (follows_symbol (.relation op) (s := right.chars ++ rest) (show 4 < 5 by decide))
  have hlink := link_append (BinaryOp.relation op).isSolid_symbol
    (comparisonMark_append op (right.chars ++ rest)) (hr.isSolid_chars hg.2.2.2) hreadq
  refine ⟨.joined ⟨(BinaryOp.relation op).symbol.toList, ' ' :: (right.chars ++ rest)⟩ p q, ?_,
    Phrase.meaning_joined hp hq fun h => by cases h⟩
  rw [Expr.chars_binary_append hg]
  exact Option.bind_eq_some_iff.mpr ⟨_, hreadp, Option.bind_eq_some_iff.mpr ⟨_, hlink, rfl⟩⟩

/-- Comparisons and truth values are read back, and conditions in parentheses with the reader for
what stands inside. -/
theorem readsConditions_simple (hvalue : ReadsValues (value (n + 1)) 5 (n + 1))
    (h : ReadsConditions inner 1 n) :
    ReadsConditions (simpleCondition (value (n + 1)) inner) 4 (n + 1) := by
  intro e he hg hk hlength rest hrest
  cases he with
  | @truth b =>
    refine ⟨.truth ⟨(if b then "true" else "false").toList, rest⟩, ?_, ?_⟩
    · refine orElse_of_some (map_eq_some ?_)
      cases b with
      | true => exact orElse_of_some (keyword_append "true" hrest.name)
      | false =>
        have htrue : keyword "true" ("false".toList ++ rest) = none :=
          keyword_eq_none_of_head (c := 't') rfl (by simp)
        exact (orElse_of_none htrue).trans (keyword_append "false" hrest.name)
    · cases b <;> rfl
  | @relation op left right hl hr =>
    obtain ⟨p, hread, hp⟩ := readsAs_comparison hvalue hl hr hg hlength rest hrest
    refine ⟨p, ?_, hp⟩
    have hleading : ((Expr.binary (.relation op) left right).chars ++ rest).takeWhile isNameChar ∉
        reserved := by
      rw [Expr.chars_binary_append hg]
      exact hl.leading_not_reserved hg.2.2.1 rfl
    have hnone : orElse (keyword "true") (keyword "false")
        ((Expr.binary (.relation op) left right).chars ++ rest) = none := by
      rw [orElse_of_none (keyword_eq_none_of_not_reserved (by decide) hleading)]
      exact keyword_eq_none_of_not_reserved (by decide) hleading
    rw [simpleCondition, orElse_of_none (map_eq_none hnone)]
    exact orElse_of_some hread
  | @paren e hinner =>
    have hshorter : e.chars.length < n := by
      rw [Expr.length_chars_paren] at hlength
      omega
    obtain ⟨p, hread, hp⟩ :=
      h hinner hg hinner.one_le_strength hshorter (')' :: rest) follows_close
    have hnone : value (n + 1) ((Expr.paren e).chars ++ rest) = none := by
      rw [Expr.chars_paren_append]
      exact value_eq_none_of_condition hinner hg hshorter
    refine ⟨.paren p, ?_, Phrase.meaning_paren hp⟩
    -- a comparison is tried first, and its left side cannot be this pair of parentheses
    rw [simpleCondition, orElse_of_none (map_eq_none ?_), orElse_of_none ?_]
    · exact parenthesized_append (hinner.isSolid_chars hg) hread
    · simp [comparison, hnone]
    · rw [Expr.chars_paren_append,
        orElse_of_none (keyword_eq_none_of_head (c := 't') rfl (by simp))]
      exact keyword_eq_none_of_head (c := 'f') rfl (by simp)
  | not _ => exact absurd hk (show ¬ 4 ≤ 3 by decide)
  | @logic connective _ _ _ _ =>
    cases connective with
    | and => exact absurd hk (show ¬ 4 ≤ 2 by decide)
    | or => exact absurd hk (show ¬ 4 ≤ 1 by decide)
    | xor => exact absurd hk (show ¬ 4 ≤ 1 by decide)

/-- Negations are read back if simple conditions are. -/
theorem readsConditions_negation
    (h : ReadsConditions (simpleCondition valueReader inner) 4 n) :
    ReadsConditions (negation valueReader inner) 3 n := by
  have hsimple : ∀ {e : Expr}, e.IsCondition .written → e.IsGrouped → 4 ≤ e.strength →
      e.chars.length < n →
      (∀ rest, rest.head?.any isNameChar = false → keyword "not" (e.chars ++ rest) = none) →
      ReadsAs (negation valueReader inner) 3 false e := by
    intro e he hg hk hlength hnot rest hrest
    obtain ⟨p, hread, hp⟩ := h he hg hk hlength rest (hrest.mono (by decide))
    refine ⟨p, ?_, hp⟩
    rw [negation, marked_of_none (hnot rest hrest.name), hread]
  intro e he
  -- The induction is on the negations in front: each takes one off, the rest begins with none.
  induction he with
  | @truth b =>
    refine fun hg _ hlength => hsimple .truth hg (show 4 ≤ 9 by decide) hlength fun rest _ => ?_
    cases b <;> exact keyword_eq_none_of_head (c := 'n') rfl (by simp [Expr.chars])
  | @relation op left right hl hr =>
    refine fun hg hk hlength => hsimple (.relation hl hr) hg (Nat.le_refl 4) hlength
      fun rest _ => ?_
    rw [Expr.chars_binary_append hg]
    exact keyword_eq_none_of_not_reserved (by decide) (hl.leading_not_reserved hg.2.2.1 rfl)
  | @paren inner hinner _ =>
    refine fun hg _ hlength => hsimple (.paren hinner) hg (show 4 ≤ 9 by decide) hlength
      fun rest _ => ?_
    exact keyword_eq_none_of_head (c := 'n') rfl (by simp [Expr.chars])
  | @not arg harg ih =>
    intro hg _ hlength rest hrest
    have hchars : (Expr.unary .not arg).chars ++ rest =
        "not".toList ++ ' ' :: (arg.chars ++ rest) := by
      rw [Expr.chars_unary hg]
      rfl
    have hshorter : arg.chars.length < n := by
      rw [Expr.chars_unary hg, List.length_append] at hlength
      omega
    obtain ⟨p, hread, hp⟩ := ih hg.2 hg.1 hshorter rest hrest
    refine ⟨.prefixed ⟨"not".toList, ' ' :: (arg.chars ++ rest)⟩ p, ?_,
      Phrase.meaning_prefixed .not hp⟩
    rw [hchars]
    apply marked_of_some (keyword_append "not" rfl) (by simp)
    rw [Text.skipBlanks_blank, ((harg.isSolid_chars hg.2).append rest).skipBlanks_eq]
    exact hread
  | @logic connective _ _ _ _ =>
    cases connective with
    | and => exact fun _ hk => absurd hk (show ¬ 3 ≤ 2 by decide)
    | or => exact fun _ hk => absurd hk (show ¬ 3 ≤ 1 by decide)
    | xor => exact fun _ hk => absurd hk (show ¬ 3 ≤ 1 by decide)

/-- Behind a condition, a chain of connectives of one strength goes on from a phrase that means the
condition. -/
theorem continues_logic {operator : Reader Excerpt} {operand : Reader Phrase} {k : Nat} (hk : k ≤ 2)
    (h : ReadsConditions operand (k + 1) n)
    (hoperator : ∀ connective : Connective, (BinaryOp.logic connective).strength = k →
      ∀ s, operator ((BinaryOp.logic connective).symbol.toList ++ ' ' :: s) =
        some (⟨(BinaryOp.logic connective).symbol.toList, ' ' :: s⟩, ' ' :: s))
    (he : e.IsCondition .written) : e.IsGrouped → k ≤ e.strength → e.chars.length < n →
      Continues operator operand (k + 1) false e := by
  -- Only a connective of strength `k` is a link of the chain; everything else is its first operand.
  induction he with
  | @logic connective left right hl hr ihl _ =>
    intro hg hstrength hlength
    rcases Nat.lt_or_eq_of_le hstrength with hlt | heq
    · exact continues_of_readsAs (h (.logic hl hr) hg hlt hlength)
    · have hleft : Continues operator operand (k + 1) false left := by
        have hparens : ¬ left.strength < (BinaryOp.logic connective).strength :=
          of_decide_eq_false hg.1
        refine ihl hg.2.2.1 ?_ ((Expr.length_left_lt hg).trans hlength)
        exact (heq.trans_le (Nat.not_lt.mp hparens))
      have hright : ReadsAs operand (k + 1) false right :=
        h hr hg.2.2.2 (heq.trans_lt hg.2.1) ((Expr.length_right_lt hg).trans hlength)
      exact hleft.binary hright (hr.isSolid_chars hg.2.2.2) (hoperator connective heq.symm) hg
        (Nat.lt_succ_of_le heq.ge) fun h => by cases h
  | truth =>
    exact fun hg _ hlength =>
      continues_of_readsAs (h .truth hg (show k + 1 ≤ 9 by omega) hlength)
  | not harg _ =>
    exact fun hg _ hlength =>
      continues_of_readsAs (h (.not harg) hg (show k + 1 ≤ 3 by omega) hlength)
  | relation hl hr =>
    exact fun hg _ hlength =>
      continues_of_readsAs (h (.relation hl hr) hg (show k + 1 ≤ 4 by omega) hlength)
  | paren hinner _ =>
    exact fun hg _ hlength =>
      continues_of_readsAs (h (.paren hinner) hg (show k + 1 ≤ 9 by omega) hlength)

/-- Conjunctions are read back if negations are. -/
theorem readsConditions_conjunction (h : ReadsConditions (negation valueReader inner) 3 n) :
    ReadsConditions (conjunction valueReader inner) 2 n := by
  intro e he hg hk hlength
  refine (continues_logic (Nat.le_refl 2) h ?_ he hg hk hlength).readsAs
    (fun rest hrest => hrest.and (Nat.le_refl 2)) (by decide)
  intro connective hstrength s
  cases connective with
  | and => exact keyword_append "and" rfl
  | or => cases hstrength
  | xor => cases hstrength

/-- Disjunctions are read back if conjunctions are. -/
theorem readsConditions_disjunction (h : ReadsConditions (conjunction valueReader inner) 2 n) :
    ReadsConditions (disjunction valueReader inner) 1 n := by
  intro e he hg hk hlength
  refine (continues_logic (by decide) h ?_ he hg hk hlength).readsAs
    (fun rest hrest => hrest.or (Nat.le_refl 1)) (by decide)
  intro connective hstrength s
  cases connective with
  | and => cases hstrength
  | or => exact orElse_of_some (keyword_append "or" rfl)
  | xor =>
    have hor : keyword "or" ("xor".toList ++ ' ' :: s) = none :=
      keyword_eq_none_of_head (c := 'o') rfl (by simp)
    exact (orElse_of_none hor).trans (keyword_append "xor" rfl)

/-- All conditions whose texts are shorter than the depth are read. -/
theorem readsConditions_condition : ∀ depth : Nat, ReadsConditions (condition depth) 1 depth
  | 0 => fun _ _ _ _ hlength => absurd hlength (Nat.not_lt_zero _)
  | depth + 1 =>
    readsConditions_disjunction (readsConditions_conjunction (readsConditions_negation
      (readsConditions_simple (readsValues_value (depth + 1)) (readsConditions_condition depth))))

/-- The text of a grouped condition is read back, whatever may follow it. -/
theorem readsAs_conditionReader (he : e.IsCondition .written) (hg : e.IsGrouped) :
    ReadsAs conditionReader 1 false e := by
  intro rest hrest
  refine readsConditions_condition _ he hg he.one_le_strength ?_ rest hrest
  rw [List.length_append]
  omega

/-- Neither the end of a text nor the mark of samples begins a condition. -/
theorem conditionReader_eq_none (h : s = [] ∨ ∃ t, s = '@' :: t) : conditionReader s = none := by
  -- all readers decide by the first character, so it goes up layer by layer
  have hhead : s.head? = none ∨ s.head? = some '@' := by
    rcases h with rfl | ⟨t, rfl⟩
    · exact Or.inl rfl
    · exact Or.inr rfl
  have hno : ∀ p : Char → Bool, p '@' = false → s.head?.any p = false := by
    intro p hp
    rcases hhead with hhead | hhead <;> simp [hhead, hp]
  have hne : ∀ c : Char, c ≠ '@' → s.head? ≠ some c := by
    intro c hc heq
    rcases hhead with hhead | hhead <;> rw [hhead] at heq <;> cases heq
    exact hc rfl
  have hprimary : primary (value s.length) s = none := by
    rw [primary, orElse_of_none (map_eq_none (number_eq_none (hno _ rfl))),
      orElse_of_none (map_eq_none (word_eq_none (hno _ rfl)))]
    exact map_eq_none (by simp [between, char_eq_none (hne '(' (by decide))])
  have hvalue : value (s.length + 1) s = none := value_eq_none hprimary (hno _ rfl)
  have htruth : orElse (keyword "true") (keyword "false") s = none := by
    rw [orElse_of_none (keyword_eq_none_of_head (c := 't') rfl (hne 't' (by decide)))]
    exact keyword_eq_none_of_head (c := 'f') rfl (hne 'f' (by decide))
  have hsimple : simpleCondition (value (s.length + 1)) (condition s.length) s = none := by
    rw [simpleCondition, orElse_of_none (map_eq_none htruth),
      orElse_of_none (by simp [comparison, hvalue])]
    exact map_eq_none (by simp [between, char_eq_none (hne '(' (by decide))])
  have hnegation : negation (value (s.length + 1)) (condition s.length) s = none := by
    rw [negation, marked_of_none (keyword_eq_none_of_head (c := 'n') rfl (hne 'n' (by decide))),
      hsimple]
  simp [conditionReader, condition, disjunction, conjunction, chain, hnegation]

end Grammar

end PluralRules
