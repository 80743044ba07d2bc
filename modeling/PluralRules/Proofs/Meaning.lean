import PluralRules.Proofs.Layer

/-!
# What phrases mean

A phrase of a layer of the grammar that means an expression at all means one of the shapes of
`PluralRules.Proofs.Shape`: a value where the layer is one of values, a condition where it is one of
conditions, without ranges and lists except beside a comparison. Its literals are as written
(`Quantity.IsWritten`), its operands are grouped without further parentheses, and it is at least as
strong as its layer is tight.
-/

namespace PluralRules

namespace Quantity

/-- A literal as conditions write it is spelled by a text. -/
theorem IsWritten.isSpelled {q : Quantity} (h : q.IsWritten) : q.IsSpelled := by
  have hexponent := h.exponent
  refine ⟨?_, by simp [hexponent]⟩
  have hscale := h.scale
  omega

/-- The text of a number in a condition spells a number. -/
theorem ofChars_of_isNumberText {s : List Char} (h : Grammar.IsNumberText s) :
    ∃ q, ofChars s = .ok q ∧ q.IsWritten := by
  obtain ⟨whole, fraction, rfl, hwhole, hfraction⟩ := h
  let n : Numeral := ⟨false, whole, fraction, none⟩
  have hvalid : n.IsValid := ⟨hwhole, hfraction, fun x hx => by cases hx⟩
  have hchars : n.chars = whole ++ Numeral.pointChars fraction := by
    simp [n, Numeral.chars, Numeral.signChars, Numeral.exponentChars]
  have htrim : Text.trim n.chars = n.chars :=
    Text.trim_eq_self (Text.isTrimmed_of_forall fun c hc =>
      Numeral.isBlank_of_isNumeralChar (Numeral.isNumeralChar_of_mem_chars hvalid c hc))
  refine ⟨n.quantity, ?_, ?_, ?_, rfl⟩
  · rw [← hchars, ofChars, htrim, Numeral.ofChars?_chars hvalid]
    rfl
  · exact Int.natCast_nonneg _
  · show (0 : Int) ≤ fraction.length - 0
    omega

end Quantity

/-! ### Operators -/

theorem UnaryOp.symbol_of_ofSymbol? {symbol : String} {op : UnaryOp}
    (h : ofSymbol? symbol = some op) : op.symbol = symbol := by
  simpa using List.find?_some h

/-- An operator between two operands is written as it is printed, except that the modulo operator
may be a word. -/
theorem BinaryOp.symbol_of_ofSymbol? {symbol : String} {op : BinaryOp}
    (h : ofSymbol? symbol = some op) : symbol = "mod" ∧ op = modulo ∨ op.symbol = symbol := by
  unfold ofSymbol? at h
  split at h
  · next hmod => cases h; exact Or.inl ⟨by simpa using hmod, rfl⟩
  · exact Or.inr (by simpa using List.find?_some h)

namespace Phrase

open Grammar

variable {text : Excerpt} {b : Bool} {e : Expr}

theorem unaryOp_eq_ok {op : UnaryOp} :
    unaryOp text = .ok op ↔ UnaryOp.ofSymbol? text.toString = some op := by
  unfold unaryOp
  cases UnaryOp.ofSymbol? text.toString <;> simp

theorem binaryOp_eq_ok {op : BinaryOp} :
    binaryOp text = .ok op ↔ BinaryOp.ofSymbol? text.toString = some op := by
  unfold binaryOp
  cases BinaryOp.ofSymbol? text.toString <;> simp

/-- An operator before an operand was written by its symbol. -/
theorem symbol_of_unaryOp {op : UnaryOp} (h : unaryOp text = .ok op) :
    op.symbol.toList = text.text := by
  rw [UnaryOp.symbol_of_ofSymbol? (unaryOp_eq_ok.mp h), Excerpt.toString, String.toList_ofList]

/-- An operator between operands was written by its symbol, but modulo may have been a word. -/
theorem symbol_of_binaryOp {op : BinaryOp} (h : binaryOp text = .ok op) :
    text.text = "mod".toList ∧ op = .modulo ∨ op.symbol.toList = text.text := by
  rcases BinaryOp.symbol_of_ofSymbol? (binaryOp_eq_ok.mp h) with ⟨hmod, rfl⟩ | hsymbol
  · refine Or.inl ⟨?_, rfl⟩
    rw [← hmod, Excerpt.toString, String.toList_ofList]
  · apply Or.inr
    rw [hsymbol, Excerpt.toString, String.toList_ofList]

/-- A sign character means a sign. -/
theorem sign_of_unaryOp {op : UnaryOp} (htext : ∃ c, text.text = [c] ∧ isSignChar c = true)
    (h : unaryOp text = .ok op) : ∃ sign, op = .sign sign := by
  obtain ⟨c, hc, -⟩ := htext
  have hsymbol := symbol_of_unaryOp h
  cases op with
  | sign sign => exact ⟨sign, rfl⟩
  | not => rw [hc] at hsymbol; simp [UnaryOp.symbol] at hsymbol

/-- The word `not` means the negation. -/
theorem not_of_unaryOp {op : UnaryOp} (htext : text.text = "not".toList)
    (h : unaryOp text = .ok op) : op = .not := by
  have hsymbol := symbol_of_unaryOp h
  rw [htext] at hsymbol
  cases op with
  | not => rfl
  | sign sign => cases sign <;> simp [UnaryOp.symbol] at hsymbol

theorem modulo_of_binaryOp {op : BinaryOp} (htext : IsArithmeticText text.text)
    (h : binaryOp text = .ok op) : op = .modulo := by
  rcases symbol_of_binaryOp h with ⟨-, rfl⟩ | hsymbol
  · rfl
  · rcases htext with htext | ⟨c, htext, hc⟩
    · rw [htext] at hsymbol
      rcases op with _ | (_ | _ | _) | (_ | _ | _ | _ | _ | _) <;> simp [BinaryOp.symbol] at hsymbol
    · rw [htext] at hsymbol
      rcases op with _ | (_ | _ | _) | (_ | _ | _ | _ | _ | _) <;>
        simp [BinaryOp.symbol] at hsymbol <;> first | rfl | (subst hsymbol; cases hc)

/-- The characters of comparisons mean comparisons. -/
theorem relation_of_binaryOp {op : BinaryOp} (htext : IsComparisonText text.text)
    (h : binaryOp text = .ok op) : ∃ comparison, op = .relation comparison := by
  obtain ⟨-, hall⟩ := htext
  rcases symbol_of_binaryOp h with ⟨hmod, -⟩ | hsymbol
  · rw [hmod] at hall
    exact absurd (hall 'm' (by simp)) (by decide)
  · rw [← hsymbol] at hall
    cases op with
    | relation comparison => exact ⟨comparison, rfl⟩
    | modulo => exact absurd (hall '%' (by simp [BinaryOp.symbol])) (by decide)
    | logic connective =>
      cases connective with
      | and => exact absurd (hall 'a' (by simp [BinaryOp.symbol])) (by decide)
      | or => exact absurd (hall 'o' (by simp [BinaryOp.symbol])) (by decide)
      | xor => exact absurd (hall 'x' (by simp [BinaryOp.symbol])) (by decide)

/-! ### Values -/

/-- A number in a condition means a literal as conditions write it. -/
theorem quantity_of_isNumberText {q : Quantity} (htext : IsNumberText text.text)
    (h : text.quantity = .ok q) : q.IsWritten := by
  obtain ⟨q', hq', hwritten⟩ := Quantity.ofChars_of_isNumberText htext
  rw [Excerpt.quantity, mapError_eq_ok, hq'] at h
  cases h
  exact hwritten

variable {k : Nat} {p : Phrase}

/-- The end of a range is a number as written. -/
theorem isWritten_of_bound (hp : IsValue k p) :
    ∀ {q : Quantity}, p.bound = .ok q → q.IsWritten := by
  induction hp with
  | number htext => exact fun h => quantity_of_isNumberText htext h
  | looser _ ih => exact ih
  | _ => exact fun h => by cases h

/-- A range has literals as its ends. -/
theorem range_of_rangeOf {least greatest : Phrase} (hl : IsValue k least) (hg : IsValue k greatest)
    (h : rangeOf least greatest = .ok e) :
    ∃ a b, e = .range a b ∧ a.IsWritten ∧ b.IsWritten := by
  obtain ⟨a, ha, h⟩ := bind_eq_ok.mp h
  obtain ⟨b, hb, h⟩ := bind_eq_ok.mp h
  cases h
  exact ⟨a, b, rfl, isWritten_of_bound hl ha, isWritten_of_bound hg hb⟩

/-- The elements of a list are literals and ranges of them. -/
theorem isElement_of_element (hp : IsValue k p) :
    ∀ {e : Expr}, p.element = .ok e → Expr.IsElement .written e := by
  induction hp with
  | number htext =>
    intro e h
    obtain ⟨q, hq, h⟩ := bind_eq_ok.mp h
    cases h
    exact .literal (quantity_of_isNumberText htext hq)
  | span hl hg =>
    intro e h
    obtain ⟨a, b, rfl, ha, hb⟩ := range_of_rangeOf hl hg h
    exact .range ha hb
  | looser _ ih => exact ih
  | _ => exact fun h => by cases h

/-- What a phrase of a layer of values means. -/
theorem isValue_of_meaning (hp : IsValue k p) : ∀ {b : Bool} {e : Expr}, p.meaning b = .ok e →
    Expr.IsValue .written b e ∧ e.IsGrouped ∧ k ≤ e.strength := by
  induction hp with
  | number htext =>
    intro b e h
    obtain ⟨q, hq, h⟩ := bind_eq_ok.mp h
    cases h
    exact ⟨.literal (quantity_of_isNumberText htext hq), trivial, Nat.le_refl 9⟩
  | word htext =>
    intro b e h
    cases h
    refine ⟨.operand ?_, trivial, Nat.le_refl 9⟩
    rwa [Excerpt.toString, String.toList_ofList]
  | paren _ ih =>
    intro b e h
    obtain ⟨inner, hinner, h⟩ := bind_eq_ok.mp h
    cases h
    obtain ⟨hvalue, hgrouped, -⟩ := ih hinner
    exact ⟨.paren hvalue, hgrouped, Nat.le_refl 9⟩
  | signed htext _ ih =>
    intro b e h
    obtain ⟨op, hop, h⟩ := bind_eq_ok.mp h
    obtain ⟨arg, harg, h⟩ := bind_eq_ok.mp h
    cases h
    obtain ⟨sign, rfl⟩ := sign_of_unaryOp htext hop
    obtain ⟨hvalue, hgrouped, hstrength⟩ := ih harg
    exact ⟨.signed hvalue, ⟨hstrength, hgrouped⟩, Nat.le_refl 8⟩
  | arithmetic htext _ _ ihl ihr =>
    intro b e h
    obtain ⟨op, hop, h⟩ := bind_eq_ok.mp h
    obtain ⟨left, hleft, h⟩ := bind_eq_ok.mp h
    obtain ⟨right, hright, h⟩ := bind_eq_ok.mp h
    obtain rfl := modulo_of_binaryOp htext hop
    obtain ⟨hlv, hlg, hls⟩ := ihl hleft
    obtain ⟨hrv, hrg, hrs⟩ := ihr hright
    -- a divisor that cannot divide is an error, so the phrase means an expression only otherwise
    cases hdivide : canDivide right with
    | false => rw [hdivide] at h; cases h
    | true =>
      rw [hdivide] at h
      cases h
      have hparens : Expr.leftNeedsParens .modulo left = false :=
        decide_eq_false (Nat.not_lt.mpr hls)
      exact ⟨.modulo hlv hrv hdivide, ⟨hparens, hrs, hlg, hrg⟩, Nat.le_refl 7⟩
  | span hl hg =>
    intro b e h
    rw [meaning] at h
    cases b with
    | false => cases h
    | true =>
      obtain ⟨least, greatest, rfl, ha, hb⟩ := range_of_rangeOf hl hg h
      exact ⟨.range ha hb, trivial, Nat.le_refl 6⟩
  | list hmore hall =>
    intro b e h
    rw [meaning] at h
    cases b with
    | false => cases h
    | true =>
      obtain ⟨items, hitems, h⟩ := bind_eq_ok.mp h
      cases h
      have helements := mapM_eq_ok.mp hitems
      have hlength : 2 ≤ items.length := by
        rw [← helements.length_eq, List.length_cons]
        have := List.length_pos_iff.mpr hmore
        omega
      -- every element of the list was admitted one by one
      refine ⟨.group hlength ?_, trivial, Nat.le_refl 5⟩
      exact forall_right helements fun q hq item hitem => isElement_of_element (hall q hq) hitem
  | looser _ ih =>
    intro b e h
    obtain ⟨hvalue, hgrouped, hstrength⟩ := ih h
    exact ⟨hvalue, hgrouped, Nat.le_of_succ_le hstrength⟩

/-! ### Conditions -/

/-- Two conditions with a connective between them mean a grouped condition. -/
theorem logic_of_meaning {operator : Excerpt} {left right : Phrase} (connective : Connective)
    (htext : operator.text = (BinaryOp.logic connective).symbol.toList)
    (hl : ∀ {e : Expr}, left.meaning false = .ok e → e.IsCondition .written ∧ e.IsGrouped ∧
      (BinaryOp.logic connective).strength ≤ e.strength)
    (hr : ∀ {e : Expr}, right.meaning false = .ok e → e.IsCondition .written ∧ e.IsGrouped ∧
      (BinaryOp.logic connective).strength < e.strength)
    (h : (joined operator left right).meaning b = .ok e) :
    e.IsCondition .written ∧ e.IsGrouped ∧
      (BinaryOp.logic connective).strength ≤ e.strength := by
  obtain ⟨op, hop, h⟩ := bind_eq_ok.mp h
  have hlogic : op = .logic connective := by
    rcases symbol_of_binaryOp hop with ⟨hmod, -⟩ | hsymbol
    · rw [hmod] at htext
      cases connective <;> simp [BinaryOp.symbol] at htext
    · rw [htext] at hsymbol
      rcases op with _ | (_ | _ | _) | (_ | _ | _ | _ | _ | _) <;> cases connective <;>
        first | rfl | simp [BinaryOp.symbol] at hsymbol
  subst hlogic
  obtain ⟨l, hleft, h⟩ := bind_eq_ok.mp h
  obtain ⟨r, hright, h⟩ := bind_eq_ok.mp h
  cases h
  obtain ⟨hlc, hlg, hls⟩ := hl hleft
  obtain ⟨hrc, hrg, hrs⟩ := hr hright
  have hparens : Expr.leftNeedsParens (.logic connective) l = false :=
    decide_eq_false (Nat.not_lt.mpr hls)
  exact ⟨.logic hlc hrc, ⟨hparens, hrs, hlg, hrg⟩, Nat.le_refl _⟩

/-- What a phrase of a layer of conditions means. -/
theorem isCondition_of_meaning (hp : Grammar.IsCondition k p) :
    ∀ {e : Expr}, p.meaning false = .ok e →
      e.IsCondition .written ∧ e.IsGrouped ∧ k ≤ e.strength := by
  induction hp with
  | truth _ =>
    intro e h
    cases h
    exact ⟨.truth, trivial, show 4 ≤ 9 by decide⟩
  | comparison htext hl hr =>
    intro e h
    obtain ⟨op, hop, h⟩ := bind_eq_ok.mp h
    obtain ⟨left, hleft, h⟩ := bind_eq_ok.mp h
    obtain ⟨right, hright, h⟩ := bind_eq_ok.mp h
    obtain ⟨comparison, rfl⟩ := relation_of_binaryOp htext hop
    cases h
    obtain ⟨hlv, hlg, hls⟩ := isValue_of_meaning hl hleft
    obtain ⟨hrv, hrg, hrs⟩ := isValue_of_meaning hr hright
    -- comparisons do not chain: both sides hold together more strongly
    have hparens : Expr.leftNeedsParens (.relation comparison) left = false :=
      decide_eq_false (Nat.not_le.mpr hls)
    exact ⟨.relation hlv hrv, ⟨hparens, hrs, hlg, hrg⟩, Nat.le_refl 4⟩
  | paren _ ih =>
    intro e h
    obtain ⟨inner, hinner, h⟩ := bind_eq_ok.mp h
    cases h
    obtain ⟨hcondition, hgrouped, -⟩ := ih hinner
    exact ⟨.paren hcondition, hgrouped, show 4 ≤ 9 by decide⟩
  | negation htext _ ih =>
    intro e h
    obtain ⟨op, hop, h⟩ := bind_eq_ok.mp h
    obtain ⟨arg, harg, h⟩ := bind_eq_ok.mp h
    cases h
    obtain rfl := not_of_unaryOp htext hop
    obtain ⟨hcondition, hgrouped, hstrength⟩ := ih harg
    exact ⟨.not hcondition, ⟨hstrength, hgrouped⟩, Nat.le_refl 3⟩
  | conjunction htext _ _ ihl ihr =>
    exact fun h => logic_of_meaning .and htext ihl ihr h
  | disjunction htext _ _ ihl ihr =>
    intro e h
    rcases htext with htext | htext
    · exact logic_of_meaning .or htext ihl ihr h
    · exact logic_of_meaning .xor htext ihl ihr h
  -- a condition of a tight layer stands where looser ones may stand, too
  | looser _ ih =>
    intro e h
    obtain ⟨hcondition, hgrouped, hstrength⟩ := ih h
    exact ⟨hcondition, hgrouped, Nat.le_of_succ_le hstrength⟩

end Phrase

end PluralRules
