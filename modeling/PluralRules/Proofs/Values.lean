import PluralRules.Proofs.Chain

/-!
# Reading values back

Every layer of the grammar of values reads the texts of the values that hold together as strongly as
the layer is tight, and stops behind them (`readsValues_value`). The values are grouped, so that
their texts have parentheses only where the trees have them.

Parentheses are the only way from a layer back up, so the statement bounds the length of the texts:
what stands in parentheses is shorter than the text with them.
-/

namespace PluralRules

/-! ### How the texts of values begin -/

/-- A literal as conditions write it is printed as a number. -/
theorem Quantity.isNumberText_chars {q : Quantity} (h : q.IsWritten) :
    Grammar.IsNumberText q.chars := by
  have hnegative : ¬ q.digits < 0 := Int.not_lt.mpr h.digits
  refine ⟨(Numeral.ofQuantity q).whole, (Numeral.ofQuantity q).fraction, ?_,
    (Numeral.isValid_ofQuantity q).whole, (Numeral.isValid_ofQuantity q).fraction⟩
  rw [chars_eq, Numeral.chars]
  simp [Numeral.ofQuantity, Numeral.signChars, Numeral.exponentChars, h.exponent, hnegative]

namespace Grammar

theorem IsNumberText.exists_digit {s : List Char} (h : IsNumberText s) :
    ∃ c t, s = c :: t ∧ c.isDigit = true := by
  obtain ⟨whole, fraction, rfl, ⟨hne, hdigits⟩, -⟩ := h
  cases whole with
  | nil => exact absurd rfl hne
  | cons c t => exact ⟨c, t ++ Numeral.pointChars fraction, rfl, hdigits c List.mem_cons_self⟩

theorem IsWord.exists_wordChar {s : List Char} (h : IsWord s) :
    ∃ c t, s = c :: t ∧ isWordChar c = true := by
  obtain ⟨hne, hall, -⟩ := h
  cases s with
  | nil => exact absurd rfl hne
  | cons c t => exact ⟨c, t, rfl, hall c List.mem_cons_self⟩

theorem isSignChar_of_isNameChar {c : Char} (h : isNameChar c = true) : isSignChar c = false := by
  have hminus : c ≠ '-' := by rintro rfl; cases h
  have hplus : c ≠ '+' := by rintro rfl; cases h
  have htilde : c ≠ '~' := by rintro rfl; cases h
  simp [isSignChar, hminus, hplus, htilde]

theorem isAlpha_of_isDigit {c : Char} (h : c.isDigit = true) : c.isAlpha = false := by
  have hc := isDigit_iff.mp h
  rw [Bool.eq_false_iff, Ne, isAlpha_iff]
  omega

/-- Only a letter can begin a reserved word. -/
theorem leading_not_reserved {c : Char} {t : List Char} (h : c.isAlpha = false) :
    (c :: t).takeWhile isNameChar ∉ reserved := by
  intro hmem
  have hall : ∀ word ∈ reserved, word.head?.any Char.isAlpha = true := by decide
  have halpha := hall _ hmem
  cases hc : isNameChar c with
  | false => simp [hc] at halpha
  | true => simp [hc, h] at halpha

end Grammar

namespace Expr

open Grammar

variable {sets : Bool} {e : Expr}

/-- An element of a list is printed with a digit in front. -/
theorem IsElement.exists_digit (h : e.IsElement .written) :
    ∃ c t, e.chars = c :: t ∧ c.isDigit = true := by
  cases h with
  | literal hq => exact (Quantity.isNumberText_chars hq).exists_digit
  | range hq _ =>
    obtain ⟨c, t, heq, hc⟩ := (Quantity.isNumberText_chars hq).exists_digit
    exact ⟨c, _, by rw [chars, heq]; rfl, hc⟩

/-- A list is printed with a digit in front. -/
theorem exists_digit_of_group {items : List Expr} (hlength : 2 ≤ items.length)
    (h : ∀ item ∈ items, IsElement .written item) :
    ∃ c t, (group items).chars = c :: t ∧ c.isDigit = true := by
  cases items with
  | nil => cases hlength
  | cons item more =>
    obtain ⟨c, t, heq, hc⟩ := (h item List.mem_cons_self).exists_digit
    refine ⟨c, t ++ (more.map chars).flatMap ([','] ++ ·), ?_, hc⟩
    rw [chars, itemChars_eq, List.map_cons, Reader.intercalate_cons, heq]
    rfl

/-- The text of a value begins with no blank, and with a sign only if the sign stands before the
whole value or before its leftmost operand. -/
theorem IsValue.exists_head (h : e.IsValue .written sets) (hg : e.IsGrouped) :
    ∃ c t, e.chars = c :: t ∧ Text.isBlank c = false ∧ (9 ≤ e.strength → isSignChar c = false) := by
  induction h with
  | literal hq =>
    obtain ⟨c, t, heq, hc⟩ := (Quantity.isNumberText_chars hq).exists_digit
    have hname := isNameChar_of_isDigit hc
    exact ⟨c, t, heq, isBlank_of_isNameChar hname, fun _ => isSignChar_of_isNameChar hname⟩
  | operand hw =>
    obtain ⟨c, t, heq, hc⟩ := hw.exists_wordChar
    have hname := isNameChar_of_isWordChar hc
    exact ⟨c, t, heq, isBlank_of_isNameChar hname, fun _ => isSignChar_of_isNameChar hname⟩
  | @signed _ sign arg _ _ =>
    rw [chars_unary hg]
    cases sign <;> exact ⟨_, _, rfl, by decide, fun h => absurd h (by decide : ¬ 9 ≤ 8)⟩
  -- the text begins as that of the left side does
  | @modulo _ left right _ _ _ ihl _ =>
    obtain ⟨c, t, heq, hc, -⟩ := ihl hg.2.2.1
    have hchars := chars_binary hg
    rw [heq] at hchars
    exact ⟨c, _, hchars, hc, fun h => absurd h (by decide : ¬ 9 ≤ 7)⟩
  | @range least greatest hq _ =>
    obtain ⟨c, t, heq, hc⟩ := IsElement.exists_digit (.range hq ‹_›)
    have hname := isNameChar_of_isDigit hc
    exact ⟨c, t, heq, isBlank_of_isNameChar hname, fun _ => isSignChar_of_isNameChar hname⟩
  | group hlength hall =>
    obtain ⟨c, t, heq, hc⟩ := exists_digit_of_group hlength hall
    have hname := isNameChar_of_isDigit hc
    exact ⟨c, t, heq, isBlank_of_isNameChar hname, fun _ => isSignChar_of_isNameChar hname⟩
  | @paren _ inner _ _ => exact ⟨'(', inner.chars ++ [')'], rfl, by decide, fun _ => by decide⟩

/-- A value is printed without a blank in front. -/
theorem IsValue.isSolid_chars (h : e.IsValue .written sets) (hg : e.IsGrouped) :
    Text.IsSolid e.chars := by
  obtain ⟨c, t, heq, hc, -⟩ := h.exists_head hg
  exact ⟨c, t, heq, hc⟩

/-- The text of a value does not begin with a reserved word. -/
theorem IsValue.leading_not_reserved (h : e.IsValue .written sets) (hg : e.IsGrouped) :
    ∀ {rest : List Char}, rest.head?.any isNameChar = false →
      (e.chars ++ rest).takeWhile isNameChar ∉ reserved := by
  induction h with
  | literal hq =>
    obtain ⟨c, t, heq, hc⟩ := (Quantity.isNumberText_chars hq).exists_digit
    intro rest _
    rw [chars, heq]
    exact Grammar.leading_not_reserved (isAlpha_of_isDigit hc)
  -- the only text that begins with a word; all others begin with a digit or a mark
  | @operand _ name hw =>
    intro rest hrest
    have hrun : ∀ c ∈ name.toList, isNameChar c = true :=
      fun c hc => isNameChar_of_isWordChar (hw.2.1 c hc)
    rw [chars, takeWhile_run hrun hrest]
    exact hw.2.2
  | @signed _ sign arg _ _ =>
    intro rest _
    rw [chars_unary hg]
    cases sign <;> exact Grammar.leading_not_reserved rfl
  | modulo _ _ _ ihl _ =>
    intro rest _
    rw [chars_binary_append hg]
    exact ihl hg.2.2.1 rfl
  | range hq hq' =>
    obtain ⟨c, t, heq, hc⟩ := IsElement.exists_digit (.range hq hq')
    intro rest _
    rw [heq]
    exact Grammar.leading_not_reserved (isAlpha_of_isDigit hc)
  | group hlength hall =>
    obtain ⟨c, t, heq, hc⟩ := exists_digit_of_group hlength hall
    intro rest _
    rw [heq]
    exact Grammar.leading_not_reserved (isAlpha_of_isDigit hc)
  | paren _ _ =>
    intro rest _
    exact Grammar.leading_not_reserved rfl

end Expr

namespace Grammar

open Reader

/-! ### Numbers -/

variable {s rest : List Char} {inner : Reader Phrase} {n : Nat}

/-- A number is read to its end, if neither a name nor a fraction goes on. -/
theorem number_append (h : IsNumberText s) (hrest : rest.head?.any isNameChar = false)
    (hpoint : Numeral.pointAndDigits rest = none) :
    number (s ++ rest) = some (⟨s, rest⟩, rest) := by
  obtain ⟨whole, fraction, rfl, hwhole, hfraction⟩ := h
  have hdigit : rest.head?.any Char.isDigit = false := by
    cases rest with
    | nil => rfl
    | cons c t =>
      have hname : isNameChar c = false := by simpa using hrest
      cases hc : c.isDigit with
      | false => simpa using hc
      | true => rw [isNameChar_of_isDigit hc] at hname; cases hname
  have hpoints := Numeral.isFraction_pointChars hfraction
  obtain ⟨found, hfound, -⟩ := Numeral.optional_pointAndDigits hpoints hdigit hpoint
  have hdigits := Numeral.digits_append hwhole (hpoints.isDigit_head hdigit)
  rw [← List.append_assoc] at hdigits
  exact excerptOf_append (a := ()) (by rw [hdigits]; simp [hfound])

theorem number_eq_none (h : s.head?.any Char.isDigit = false) : number s = none :=
  excerptOf_eq_none (by simp [Numeral.digits, run_eq_none h])

/-! ### The layers of values -/

/-- A reader reads all values of less than a given length that hold together with a given
strength. -/
def ReadsValues (item : Reader Phrase) (k n : Nat) : Prop :=
  ∀ ⦃sets : Bool⦄ ⦃e : Expr⦄, e.IsValue .written sets → e.IsGrouped → k ≤ e.strength →
    e.chars.length < n → ReadsAs item k sets e

/-- Literals, words and values in parentheses are read back. -/
theorem readsValues_primary (h : ReadsValues inner 5 n) :
    ReadsValues (primary inner) 9 (n + 1) := by
  intro sets e he hg hk hlength rest hrest
  cases he with
  | @literal _ q hq =>
    have hnumber := number_append (Quantity.isNumberText_chars hq) hrest.name hrest.point
    refine ⟨.number ⟨q.chars, rest⟩, orElse_of_some (map_eq_some hnumber), ?_⟩
    have hquantity : Excerpt.quantity ⟨q.chars, rest⟩ = .ok q := by
      rw [Excerpt.quantity, Quantity.ofChars_chars hq.isSpelled.2,
        Quantity.respelled_eq_self hq.isSpelled.1]
      rfl
    exact bind_eq_ok.mpr ⟨q, hquantity, rfl⟩
  | @operand _ name hw =>
    obtain ⟨c, t, heq, hc⟩ := hw.exists_wordChar
    have hnumber : number (name.toList ++ rest) = none := by
      rw [heq]
      exact number_eq_none (isDigit_of_isWordChar hc)
    refine ⟨.word ⟨name.toList, rest⟩, ?_, ?_⟩
    · rw [primary, Expr.chars, orElse_of_none (map_eq_none hnumber)]
      exact orElse_of_some (map_eq_some (word_append hw hrest.name))
    · show Except.ok (Expr.operand (String.ofList name.toList)) = _
      rw [String.ofList_toList]
  | @paren _ e hinner =>
    rw [Expr.length_chars_paren] at hlength
    obtain ⟨p, hread, hp⟩ :=
      h hinner hg hinner.five_le_strength (by omega) (')' :: rest) follows_close
    refine ⟨.paren p, ?_, Phrase.meaning_paren hp⟩
    -- no number and no word begins with a parenthesis, so the readers before this one fail
    rw [primary, orElse_of_none (map_eq_none (number_eq_none rfl)),
      orElse_of_none (map_eq_none (word_eq_none rfl))]
    exact parenthesized_append (hinner.isSolid_chars hg) hread
  | signed _ => exact absurd hk (by decide : ¬ 9 ≤ 8)
  | modulo _ _ _ => exact absurd hk (by decide : ¬ 9 ≤ 7)
  | range _ _ => exact absurd hk (by decide : ¬ 9 ≤ 6)
  | group _ _ => exact absurd hk (by decide : ¬ 9 ≤ 5)

theorem readsValues_signed (h : ReadsValues (primary inner) 9 n) :
    ReadsValues (signed inner) 8 n := by
  have hprimary : ∀ {sets : Bool} {e : Expr}, e.IsValue .written sets → e.IsGrouped →
      9 ≤ e.strength → e.chars.length < n → ReadsAs (signed inner) 8 sets e := by
    intro sets e he hg hk hlength rest hrest
    obtain ⟨c, t, heq, -, hsign⟩ := he.exists_head hg
    have hmark : excerptOf (satisfying isSignChar) (e.chars ++ rest) = none := by
      rw [heq]
      exact excerptOf_eq_none (satisfying_eq_none (hsign hk))
    obtain ⟨p, hread, hp⟩ := h he hg hk hlength rest (hrest.mono (by decide))
    refine ⟨p, ?_, hp⟩
    rw [signed, marked_of_none hmark, hread]
  intro sets e he
  -- Signs in a row are marks of one operand, so the induction goes through them and not by layers.
  induction he with
  | literal hq => exact fun hg _ => hprimary (.literal hq) hg (Nat.le_refl 9)
  | operand hw => exact fun hg _ => hprimary (.operand hw) hg (Nat.le_refl 9)
  | paren hinner => exact fun hg _ => hprimary (.paren hinner) hg (Nat.le_refl 9)
  | @signed _ sign arg harg ih =>
    intro hg _ hlength rest hrest
    have hchars := Expr.chars_unary hg
    obtain ⟨c, hlead, hsymbol, hc⟩ : ∃ c, (UnaryOp.sign sign).lead = [c] ∧
        (UnaryOp.sign sign).symbol.toList = [c] ∧ isSignChar c = true := by
      cases sign <;> exact ⟨_, rfl, rfl, rfl⟩
    rw [hlead] at hchars
    obtain ⟨hstrength, harg'⟩ := hg
    have hshorter : arg.chars.length < n := by
      rw [hchars] at hlength
      simp only [List.length_append, List.length_cons, List.length_nil] at hlength
      omega
    obtain ⟨p, hread, hp⟩ := ih harg' hstrength hshorter rest hrest
    refine ⟨.prefixed ⟨[c], arg.chars ++ rest⟩ p, ?_, ?_⟩
    · rw [hchars, List.append_assoc]
      apply marked_of_some (excerptOf_append (satisfying_cons hc)) (by simp)
      rw [((harg.isSolid_chars harg').append rest).skipBlanks_eq]
      exact hread
    · rw [← hsymbol]
      exact Phrase.meaning_prefixed _ hp
  | modulo _ _ _ => exact fun _ hk => absurd hk (by decide : ¬ 8 ≤ 7)
  | range _ _ => exact fun _ hk => absurd hk (by decide : ¬ 8 ≤ 6)
  | group _ _ => exact fun _ hk => absurd hk (by decide : ¬ 8 ≤ 5)

/-- Behind a value, arithmetic goes on from a phrase that means the value. -/
theorem continues_arithmetic (h : ReadsValues (signed inner) 8 n) {sets : Bool} {e : Expr}
    (he : e.IsValue .written sets) : e.IsGrouped → 7 ≤ e.strength → e.chars.length < n →
      Continues arithmeticMark (signed inner) 8 sets e := by
  -- The chain groups to the left: the left operand is part of it, the right one is not.
  induction he with
  | @modulo _ left right hl hr hdivide ihl ihr =>
    intro hg _ hlength
    have hleft : Continues arithmeticMark (signed inner) 8 false left :=
      ihl hg.2.2.1 hl.seven_le_strength ((Expr.length_left_lt hg).trans hlength)
    have hright : ReadsAs (signed inner) 8 false right :=
      h hr hg.2.2.2 hg.2.1 ((Expr.length_right_lt hg).trans hlength)
    refine hleft.binary hright (hr.isSolid_chars hg.2.2.2) ?_ hg (by decide) fun _ => hdivide
    intro s
    have hmod : keyword "mod" ("%".toList ++ ' ' :: s) = none :=
      keyword_eq_none_of_head (c := 'm') rfl (by simp)
    show arithmeticMark ("%".toList ++ ' ' :: s) = _
    rw [arithmeticMark, orElse_of_none hmod]
    exact excerptOf_append (satisfying_cons rfl)
  | literal hq =>
    exact fun hg _ hlength =>
      continues_of_readsAs (h (.literal hq) hg (show 8 ≤ 9 by decide) hlength)
  | operand hw =>
    exact fun hg _ hlength =>
      continues_of_readsAs (h (.operand hw) hg (show 8 ≤ 9 by decide) hlength)
  | signed harg _ =>
    exact fun hg _ hlength =>
      continues_of_readsAs (h (.signed harg) hg (Nat.le_refl 8) hlength)
  | paren hinner _ =>
    exact fun hg _ hlength =>
      continues_of_readsAs (h (.paren hinner) hg (show 8 ≤ 9 by decide) hlength)
  | range _ _ => exact fun _ hk => absurd hk (by decide : ¬ 7 ≤ 6)
  | group _ _ => exact fun _ hk => absurd hk (by decide : ¬ 7 ≤ 5)

/-- Arithmetic is read back if its operands are. -/
theorem readsValues_arithmetic (h : ReadsValues (signed inner) 8 n) :
    ReadsValues (arithmetic inner) 7 n := by
  intro sets e he hg hk hlength
  exact (continues_arithmetic h he hg hk hlength).readsAs
    (fun rest hrest => hrest.arithmetic (Nat.le_refl 7)) (by decide)

theorem readsValues_range (h : ReadsValues (arithmetic inner) 7 n) :
    ReadsValues (range inner) 6 n := by
  intro sets e he hg hk hlength rest hrest
  by_cases hstrength : 7 ≤ e.strength
  -- no range: the reader for arithmetic does it all, if no dots follow
  · obtain ⟨p, hread, hp⟩ := h he hg hstrength hlength rest (hrest.mono (by decide))
    refine ⟨p, ?_, hp⟩
    have hlink : link dots (arithmetic inner) rest = none :=
      link_eq_none (hrest.dots (Nat.le_refl 6))
    simp [range, hread, hlink]
  · cases he with
    | @range least greatest hl hr =>
      simp only [Expr.chars, List.length_append, List.length_cons] at hlength
      -- from right to left, since the text behind the least end is dots and the greatest one
      have hgreatest : ReadsAs (arithmetic inner) 7 true (.literal greatest) :=
        h (.literal hr) trivial (show 7 ≤ 9 by decide) (show greatest.chars.length < n by omega)
      obtain ⟨q, hreadq, hq⟩ := hgreatest rest (hrest.mono (by decide))
      have hleast : ReadsAs (arithmetic inner) 7 true (.literal least) :=
        h (.literal hl) trivial (show 7 ≤ 9 by decide) (show least.chars.length < n by omega)
      obtain ⟨p, hreadp, hp⟩ := hleast _ (follows_dots (s := greatest.chars ++ rest) (by decide))
      have hsolid : Text.IsSolid (greatest.chars ++ rest) :=
        ((show (Expr.literal greatest).IsValue .written true from .literal hr).isSolid_chars
          trivial).append rest
      have hdots : dots ('.' :: '.' :: (greatest.chars ++ rest)) =
          some (⟨['.', '.'], greatest.chars ++ rest⟩, greatest.chars ++ rest) :=
        excerptOf_append
          (show literal ['.', '.'] (['.', '.'] ++ _) = some ((), _) from literal_append)
      have hlink : link dots (arithmetic inner) ('.' :: '.' :: (greatest.chars ++ rest)) =
          some ((⟨['.', '.'], greatest.chars ++ rest⟩, q), rest) := by
        apply pair_eq_some hdots
        rw [skipping, hsolid.skipBlanks_eq]
        exact hreadq
      have hchars : (Expr.range least greatest).chars ++ rest =
          least.chars ++ '.' :: '.' :: (greatest.chars ++ rest) := by
        simp [Expr.chars]
      refine ⟨.span ⟨['.', '.'], greatest.chars ++ rest⟩ p q, ?_, ?_⟩
      · simp only [Expr.chars] at hreadp
        simp [range, hchars, hreadp, hlink]
      · exact bind_eq_ok.mpr ⟨least, Phrase.bound_of_meaning hp,
          bind_eq_ok.mpr ⟨greatest, Phrase.bound_of_meaning hq, rfl⟩⟩
    | group _ _ => exact absurd hk (by decide : ¬ 6 ≤ 5)
    | signed _ => exact absurd (show 7 ≤ 8 by decide) hstrength
    | modulo _ _ _ => exact absurd (Nat.le_refl 7) hstrength
    | _ => exact absurd (show 7 ≤ 9 by decide) hstrength

/-- The elements of a list, read as values, mean the list. -/
theorem meaning_items {first : Expr} {more : List Expr} {p : Phrase} {ps : List Phrase}
    (hall : ∀ item ∈ first :: more, Expr.IsElement .written item) (hp : p.meaning true = .ok first)
    (hps : List.Forall₂ (fun item p => p.meaning true = .ok item) more ps) :
    (Phrase.list p ps).meaning true = .ok (.group (first :: more)) := by
  have hboth := (List.forall₂_and_left _ _).mpr ⟨hall, List.Forall₂.cons hp hps⟩
  have hitems :
      List.Forall₂ (fun item p => Phrase.element p = .ok item) (first :: more) (p :: ps) :=
    hboth.imp fun item p h => Phrase.element_of_meaning h.2 h.1
  exact bind_eq_ok.mpr ⟨first :: more, mapM_eq_ok.mpr hitems.flip, rfl⟩

/-- Lists are read back if their elements are. -/
theorem readsValues_list (h : ReadsValues (range inner) 6 n) : ReadsValues (list inner) 5 n := by
  intro sets e he hg hk hlength rest hrest
  by_cases hstrength : 6 ≤ e.strength
  · obtain ⟨p, hread, hp⟩ := h he hg hstrength hlength rest (hrest.mono (by decide))
    refine ⟨p, ?_, hp⟩
    have hmany : many (introduced ',' (range inner)) rest = ([], rest) :=
      many_of_none (introduced_eq_none (hrest.comma (Nat.le_refl 5)))
    simp [list, commaSeparated, hread, hmany]
  · cases he with
    | @group items hcount hall =>
      cases items with
      | nil => cases hcount
      | cons first more =>
        -- each item is shorter than the list, so the hypothesis applies to it
        have hread : ∀ item ∈ first :: more, Text.IsSolid item.chars ∧
            Reads (range inner) (Follows 6) item.chars fun p => p.meaning true = .ok item := by
          intro item hitem
          obtain ⟨hvalue, hgrouped, hsix⟩ := (hall item hitem).isValue
          have hle := Expr.length_le_itemChars hitem
          exact ⟨hvalue.isSolid_chars hgrouped,
            h hvalue hgrouped hsix (Nat.lt_of_le_of_lt hle hlength)⟩
        obtain ⟨hfirst, hmore⟩ := List.forall_mem_cons.mp hread
        obtain ⟨⟨p, ps⟩, hcomma, hp, hps⟩ := reads_commaSeparated []
          (fun c hc => by cases hc) (fun s => follows_comma (by decide)) hfirst.2 hmore rest
          ⟨hrest.mono (by decide), hrest.comma (Nat.le_refl 5)⟩
        rw [← Expr.itemChars_eq] at hcomma
        refine ⟨.list p ps, ?_, meaning_items hall hp hps⟩
        cases hps with
        -- one item alone would be no list
        | nil => cases hcount with | step h => cases h
        | cons _ _ => simp [list, Expr.chars, hcomma]
    | signed _ => exact absurd (show 6 ≤ 8 by decide) hstrength
    | modulo _ _ _ => exact absurd (show 6 ≤ 7 by decide) hstrength
    | range _ _ => exact absurd (Nat.le_refl 6) hstrength
    | _ => exact absurd (show 6 ≤ 9 by decide) hstrength

/-- All values whose texts are shorter than the depth are read. -/
theorem readsValues_value : ∀ depth : Nat, ReadsValues (value depth) 5 depth
  | 0 => fun _ _ _ _ _ hlength => absurd hlength (Nat.not_lt_zero _)
  | depth + 1 =>
    readsValues_list (readsValues_range (readsValues_arithmetic (readsValues_signed
      (readsValues_primary (readsValues_value depth)))))

end Grammar

end PluralRules
