import PluralRules.Proofs.Canonical
import PluralRules.Proofs.Findings
import PluralRules.Proofs.Places
import PluralRules.Proofs.Verdicts

/-!
# Short texts are printed

A number with too many digits behind its point cannot be printed, and neither can what holds such a
number. This takes a text that is as long as the limit. The numbers of a rule are spelled out in its
text (`Rule.isSpelledIn_of_ofChars`), and a number has fewer digits behind the point than its text
has characters (`Quantity.printedPlaces_lt_of_ofChars`).

Evaluation computes with the numbers of a condition and with the number that it is asked about, and
an exponent can move the point. So numbers are called narrow that can be printed with and without
their exponents. From narrow numbers come narrow numbers, and the divisors that errors quote are
among them (`Expr.failsOnly_evalBool_hasText`). Hence whatever is made from a sheet with lines that
are short enough can be printed: the rules, their selectors, the errors of selection, and the
findings (`Sheet.texts_of_short_lines`).
-/

namespace PluralRules

/-! ### Numbers and the lengths of their texts -/

/-- A numeral has a digit before the point. -/
theorem Numeral.Spells.length_fraction_lt {s : List Char} {n : Numeral} (h : Spells s n) :
    n.fraction.length < s.length := by
  obtain @⟨sign, whole, point, fraction, tail, negative, exponent, -, hwhole, hf, -⟩ := h
  have hpos : 0 < whole.length := List.length_pos_of_ne_nil hwhole.1
  have hpoint : fraction.length ≤ point.length := by
    cases hf with
    | absent => exact le_rfl
    | present _ => exact Nat.le_succ _
  simp only [List.length_append]
  omega

namespace Quantity

variable {s : List Char} {q r : Quantity}

/-- What a text spells shows fewer fraction digits than the text has characters. -/
theorem printedPlaces_lt_of_ofChars (h : ofChars s = .ok q) : q.printedPlaces < s.length := by
  obtain ⟨n, hspells, -, rfl⟩ := ofChars_eq_ok_iff.mp h
  have hblanks : (Text.trim s).length ≤ s.length :=
    ((Text.trimEnd_prefix _).length_le).trans (Reader.skipBlanks_suffix s).length_le
  rw [printedPlaces, n.scale_add_exponent, Int.toNat_natCast]
  exact hspells.length_fraction_lt.trans_le hblanks

/-- The exponent moves the point by as many places as the limit allows. So the powers of ten that
are computed with have small exponents, as long as texts are not thousands of millions of characters
long. -/
theorem scale_of_ofChars (h : ofChars s = .ok q) :
    -(exponentLimit : ℤ) ≤ q.scale ∧ q.scale < s.length + exponentLimit := by
  have hplaces := printedPlaces_lt_of_ofChars h
  obtain ⟨hspelled, hexponent⟩ := isSpelled_of_ofChars h
  unfold printedPlaces at hplaces
  omega

/-- A quantity is narrow if it can be printed with and without its exponent. -/
structure IsNarrow (q : Quantity) : Prop where
  scale : q.scale < greatestWidth
  hasText : q.HasText

/-- What a short text spells is narrow. The exponent may add places of its own. -/
theorem isNarrow_of_ofChars (h : ofChars s = .ok q)
    (hs : s.length + exponentLimit ≤ greatestWidth) : q.IsNarrow := by
  obtain ⟨-, hscale⟩ := scale_of_ofChars h
  have hplaces := printedPlaces_lt_of_ofChars h
  refine ⟨by omega, hasText_iff.mpr ?_⟩
  unfold printedPlaces at hplaces
  omega

/-- A part of the text spells the quantity. -/
def IsSpelledIn (q : Quantity) (s : List Char) : Prop := ∃ t, t <:+: s ∧ ofChars t = .ok q

namespace IsSpelledIn

theorem mono {t : List Char} (h : q.IsSpelledIn t) (ht : t <:+: s) : q.IsSpelledIn s := by
  obtain ⟨u, hu, hread⟩ := h
  exact ⟨u, hu.trans ht, hread⟩

/-- What is spelled in a text can be printed if the text is no longer than the limit. -/
theorem hasText (h : q.IsSpelledIn s) (hs : s.length ≤ greatestWidth) : q.HasText := by
  obtain ⟨t, ht, hread⟩ := h
  exact Or.inr ((printedPlaces_lt_of_ofChars hread).trans_le (ht.length_le.trans hs))

/-- What is spelled in a short text is narrow. -/
theorem isNarrow (h : q.IsSpelledIn s) (hs : s.length + exponentLimit ≤ greatestWidth) :
    q.IsNarrow := by
  obtain ⟨t, ht, hread⟩ := h
  exact isNarrow_of_ofChars hread ((Nat.add_le_add_right ht.length_le _).trans hs)

end IsSpelledIn

/-- Without an exponent the two conditions are the same. -/
theorem isNarrow_of_exponent (hscale : q.scale < greatestWidth) (hexponent : q.exponent = 0) :
    q.IsNarrow :=
  ⟨hscale, hasText_iff.mpr (by rwa [hexponent, add_zero])⟩

/-- Integers are narrow, whatever their size: they need no padding. -/
theorem isNarrow_ofInt (z : ℤ) : (ofInt z).IsNarrow :=
  isNarrow_of_exponent (Int.ofNat_lt.mpr (by decide : 0 < greatestWidth)) rfl

theorem IsNarrow.negate (h : q.IsNarrow) : q.negate.IsNarrow := ⟨h.scale, h.hasText⟩

/-- The operands of a narrow number are narrow. -/
theorem IsNarrow.operand (h : q.IsNarrow) : ∀ operand, (q.operand operand).IsNarrow
  | .n => isNarrow_of_exponent h.scale rfl
  | .i | .v | .w | .f | .t | .e | .c => isNarrow_ofInt _

theorem IsNarrow.complement? (h : q.complement? = some r) : r.IsNarrow := by
  obtain ⟨z, -, rfl⟩ := Option.map_eq_some_iff.mp h
  exact isNarrow_ofInt _

/-- A remainder of a narrow number is narrow. -/
theorem IsNarrow.remainder (h : q.IsNarrow) {d : ℤ} (hr : q.remainder d = .ok r) : r.IsNarrow := by
  unfold Quantity.remainder at hr
  split at hr
  · cases hr
  · cases hr
    have hscale := h.scale
    refine isNarrow_of_exponent ?_ rfl
    show (q.places : ℤ) < greatestWidth
    unfold places greatestWidth at *
    omega

end Quantity

/-! ### The numbers of a rule -/

theorem Expr.mem_itemNumbers {q : Quantity} {items : List Expr} :
    q ∈ itemNumbers items ↔ ∃ item ∈ items, q ∈ item.numbers := by
  induction items with
  | nil => simp [itemNumbers]
  | cons item more ih => simp [itemNumbers, ih]

namespace Phrase

variable {p p' : Phrase} {q : Quantity}

/-- A number in a phrase spells the quantity. -/
def Writes (p : Phrase) (q : Quantity) : Prop :=
  ∃ e, number e ∈ p.nodes ∧ Quantity.ofChars e.text = .ok q

theorem Writes.mono (h : p'.Writes q) (hsub : ∀ node ∈ p'.nodes, node ∈ p.nodes) : p.Writes q := by
  obtain ⟨e, he, hq⟩ := h
  exact ⟨e, hsub _ he, hq⟩

theorem writes_of_quantity {e : Excerpt} (h : e.quantity = .ok q) : (number e).Writes q :=
  ⟨e, mem_nodes_self _, mapError_eq_ok.mp h⟩

/-- The end of a range is written in its phrase. -/
theorem writes_of_bound (h : p.bound = .ok q) : p.Writes q := by
  cases p with
  | number e => exact writes_of_quantity h
  | _ => cases h

/-- Both ends of a range are written in its phrase. -/
theorem writes_of_rangeOf {dots : Excerpt} {least greatest : Phrase} {e : Expr}
    (h : rangeOf least greatest = .ok e) :
    ∀ q ∈ e.numbers, (span dots least greatest).Writes q := by
  obtain ⟨a, ha, h⟩ := bind_eq_ok.mp h
  obtain ⟨b, hb, h⟩ := bind_eq_ok.mp h
  cases h
  intro q hq
  rcases List.mem_pair.mp hq with rfl | rfl
  · exact (writes_of_bound ha).mono nodes_least
  · exact (writes_of_bound hb).mono nodes_greatest

/-- The numbers of an element of a list are written in its phrase. -/
theorem writes_of_element {e : Expr} (h : p.element = .ok e) : ∀ q ∈ e.numbers, p.Writes q := by
  cases p with
  | number text =>
    obtain ⟨value, hvalue, h⟩ := bind_eq_ok.mp h
    cases h
    exact fun q hq => List.mem_singleton.mp hq ▸ writes_of_quantity hvalue
  | span dots least greatest => exact writes_of_rangeOf h
  | _ => cases h

/-- The numbers of an expression are those of the phrase that means it. The recursion is that of the
meaning. -/
theorem writes_of_meaning : ∀ {p : Phrase} {b : Bool} {e : Expr}, p.meaning b = .ok e →
    ∀ q ∈ e.numbers, p.Writes q
  | number text, _, _, h => by
    obtain ⟨value, hvalue, h⟩ := bind_eq_ok.mp h
    cases h
    exact fun q hq => List.mem_singleton.mp hq ▸ writes_of_quantity hvalue
  | word _, _, _, h | truth _, _, _, h => by
    cases h
    exact nofun
  | prefixed operator operand, _, _, h => by
    obtain ⟨op, -, h⟩ := bind_eq_ok.mp h
    obtain ⟨arg, harg, h⟩ := bind_eq_ok.mp h
    cases h
    exact fun q hq => (writes_of_meaning harg q hq).mono nodes_operand
  | joined operator left right, _, _, h => by
    obtain ⟨op, -, h⟩ := bind_eq_ok.mp h
    obtain ⟨l, hl, h⟩ := bind_eq_ok.mp h
    obtain ⟨r, hr, h⟩ := bind_eq_ok.mp h
    split at h
    -- the divisor cannot divide, so there is no expression
    · cases h
    · cases h
      intro q hq
      rcases List.mem_append.mp hq with hq | hq
      · exact (writes_of_meaning hl q hq).mono nodes_left
      · exact (writes_of_meaning hr q hq).mono nodes_right
  | span dots least greatest, b, _, h => by
    cases b with
    | false => cases h
    | true => exact writes_of_rangeOf h
  | list first more, b, _, h => by
    cases b with
    | false => cases h
    | true =>
      obtain ⟨items, hitems, h⟩ := bind_eq_ok.mp h
      cases h
      have hall : ∀ item ∈ items, ∀ q ∈ item.numbers, (list first more).Writes q :=
        forall_right (mapM_eq_ok.mp hitems) fun item hitem _ helement q hq =>
          (writes_of_element helement q hq).mono (nodes_item hitem)
      intro q hq
      obtain ⟨item, hitem, hq⟩ := Expr.mem_itemNumbers.mp hq
      exact hall item hitem q hq
  | paren inner, _, _, h => by
    obtain ⟨e, he, h⟩ := bind_eq_ok.mp h
    cases h
    exact fun q hq => (writes_of_meaning he q hq).mono nodes_inner

/-- The excerpts of a line are stretches of its text. -/
theorem Writes.isSpelledIn {s rest : List Char} (h : p.Writes q)
    (hp : Excerpt.InOrder s p.excerpts rest) : q.IsSpelledIn s := by
  obtain ⟨e, he, hq⟩ := h
  have htail : e.tail <:+ s :=
    hp.tail_suffix ((excerpts_sublist he).subset (List.mem_singleton_self e))
  exact ⟨e.text, (List.prefix_append e.text e.after).isInfix.trans htail.isInfix, hq⟩

end Phrase

/-- The numbers of a sample are spelled by parts of its text. -/
theorem Sample.isSpelledIn_of_ofChars? {s : List Char} {sample : Sample}
    (h : ofChars? s = some sample) : ∀ q ∈ sample.numbers, q.IsSpelledIn s := by
  unfold ofChars? at h
  split at h
  · cases h
    exact nofun
  · split at h
    · next least greatest hends =>
      obtain ⟨a, ha, h⟩ := Option.bind_eq_some_iff.mp h
      obtain ⟨b, hb, h⟩ := Option.bind_eq_some_iff.mp h
      cases h
      -- a tilde or dots, whatever stands between the ends
      obtain ⟨separator, rfl⟩ : ∃ separator, s = least ++ separator ++ greatest := by
        rcases (Option.orElse_eq_some _ _ _).mp hends with hends | ⟨-, hends⟩
        · exact ⟨_, Text.eq_of_splitFirst hends⟩
        · exact ⟨_, Text.eq_of_splitFirst hends⟩
      intro q hq
      rcases List.mem_pair.mp hq with rfl | rfl
      · have hleast := (List.prefix_append least separator).trans (List.prefix_append _ greatest)
        exact ⟨least, hleast.isInfix, toOption_eq_some.mp ha⟩
      · exact ⟨greatest, (List.suffix_append _ greatest).isInfix, toOption_eq_some.mp hb⟩
    · obtain ⟨value, hvalue, rfl⟩ := Option.map_eq_some_iff.mp h
      exact fun q hq => List.mem_singleton.mp hq ▸
        ⟨s, List.infix_refl s, toOption_eq_some.mp hvalue⟩

/-- The numbers of a sample are spelled by parts of the text that its excerpt is from. -/
theorem Sample.isSpelledIn_of_ofExcerpt {s : List Char} {e : Excerpt} {sample : Sample}
    (h : ofExcerpt e = .ok sample) (he : e.tail <:+ s) :
    ∀ q ∈ sample.numbers, q.IsSpelledIn s := by
  unfold ofExcerpt at h
  split at h
  · next hchars =>
    cases h
    have htext := (List.prefix_append e.text e.after).isInfix.trans he.isInfix
    exact fun q hq => (isSpelledIn_of_ofChars? hchars q hq).mono htext
  · cases h

namespace Rule

variable {n : Nat} {s : List Char} {rule : Rule}

/-- The numbers of a condition are spelled by parts of its line. -/
theorem isSpelledIn_of_conditionOf {line : Line} {segment : CaseSegment} {condition : Option Expr}
    (hread : Line.read s = .ok line) (hcase : line.case = some segment)
    (h : conditionOf segment = .ok condition) :
    ∀ q ∈ condition.elim [] Expr.numbers, q.IsSpelledIn s := by
  unfold conditionOf at h
  split at h
  · cases h
    exact nofun
  · next only honly =>
    obtain ⟨e, he, h⟩ := bind_eq_ok.mp h
    cases h
    have hphrase := Line.inOrder_phrase hread hcase honly
    exact fun q hq => (Phrase.writes_of_meaning he q hq).isSpelledIn hphrase
  · cases h

/-- The numbers of samples are spelled by parts of their line. -/
theorem isSpelledIn_of_samples {line : Line} {samples : List Samples}
    (hread : Line.read s = .ok line) (h : line.samples.mapM Samples.ofSegment = .ok samples) :
    ∀ q ∈ samples.flatMap Samples.numbers, q.IsSpelledIn s := by
  have hall : ∀ list ∈ samples, ∀ q ∈ list.numbers, q.IsSpelledIn s := by
    refine forall_right (mapM_eq_ok.mp h) fun segment hsegment list hlist => ?_
    obtain ⟨values, hvalues, hlist⟩ := bind_eq_ok.mp hlist
    cases hlist
    have hvalue := forall_right (mapM_eq_ok.mp hvalues) fun value hvalue sample hsample =>
      Sample.isSpelledIn_of_ofExcerpt hsample (Line.tail_suffix_of_sample hread hsegment hvalue)
    intro q hq
    obtain ⟨sample, hsample, hq⟩ := List.mem_flatMap.mp hq
    exact hvalue sample hsample q hq
  intro q hq
  obtain ⟨list, hlist, hq⟩ := List.mem_flatMap.mp hq
  exact hall list hlist q hq

/-- The numbers of a rule are spelled out in its text. -/
theorem isSpelledIn_of_ofChars (h : ofChars n s = .ok rule) :
    ∀ q ∈ rule.numbers, q.IsSpelledIn s := by
  obtain ⟨line, hline, h⟩ := bind_eq_ok.mp (mapError_eq_ok.mp h)
  have hread : Line.read s = .ok line := mapError_eq_ok.mp hline
  obtain ⟨label, -, h⟩ := bind_eq_ok.mp h
  cases hcase : line.case with
  | none =>
    rw [hcase] at h
    obtain ⟨_, ⟨⟩, h⟩ := bind_eq_ok.mp h
    obtain ⟨samples, hsamples, h⟩ := bind_eq_ok.mp h
    cases h
    exact isSpelledIn_of_samples hread hsamples
  | some segment =>
    rw [hcase] at h
    obtain ⟨condition, hcondition, h⟩ := bind_eq_ok.mp h
    obtain ⟨samples, hsamples, h⟩ := bind_eq_ok.mp h
    cases h
    intro q hq
    rcases List.mem_append.mp hq with hq | hq
    · exact isSpelledIn_of_conditionOf hread hcase hcondition q hq
    · exact isSpelledIn_of_samples hread hsamples q hq

/-- A rule can be printed if its text is no longer than the limit. -/
theorem hasText_of_ofChars (h : ofChars n s = .ok rule) (hs : s.length ≤ Quantity.greatestWidth) :
    rule.HasText :=
  fun q hq => (isSpelledIn_of_ofChars h q hq).hasText hs

/-- All numbers of a rule are narrow. -/
def IsNarrow (rule : Rule) : Prop := ∀ q ∈ rule.numbers, q.IsNarrow

/-- The rule of a short line is narrow. -/
theorem isNarrow_of_ofChars (h : ofChars n s = .ok rule)
    (hs : s.length + Quantity.exponentLimit ≤ Quantity.greatestWidth) : rule.IsNarrow :=
  fun q hq => (isSpelledIn_of_ofChars h q hq).isNarrow hs

theorem IsNarrow.hasText (h : rule.IsNarrow) : rule.HasText := fun q hq => (h q hq).hasText

end Rule

/-! ### Evaluation -/

/-- Whether the text of an error can be printed. The only number that an error quotes is a divisor,
and integers are printed without padding. -/
def EvalError.HasText : EvalError → Prop
  | .quantity (.divisorOutOfRange text) =>
    (∃ z : ℤ, text = toString z) ∨ ∃ divisor : Quantity, divisor.HasText ∧ text = divisor.toString
  | _ => True

section Evaluation

variable {q value result divisor : Quantity}

theorem Quantity.isNarrow_of_remainderBy (hvalue : value.IsNarrow)
    (h : value.remainderBy divisor = .ok result) : result.IsNarrow := by
  unfold remainderBy at h
  split at h
  · exact hvalue.remainder h
  · cases h

/-- A division that fails quotes the divisor, which can be printed if it is narrow. -/
theorem Quantity.failsOnly_remainderBy (value : Quantity) (h : divisor.IsNarrow) :
    FailsOnly EvalError.HasText ((value.remainderBy divisor).mapError .quantity) := by
  unfold remainderBy
  split
  · next d _ =>
    unfold Quantity.remainder
    split
    · exact Or.inl ⟨d, rfl⟩
    · exact trivial
  · exact Or.inr ⟨divisor, h.hasText, rfl⟩

theorem Sign.isNarrow_of_apply {sign : Sign} (hvalue : value.IsNarrow)
    (h : sign.apply value = .ok result) : result.IsNarrow := by
  cases sign with
  | minus => cases h; exact hvalue.negate
  | plus => cases h; exact hvalue
  | complement =>
    unfold apply at h
    dsimp only at h
    split at h
    · next hresult => cases h; exact Quantity.IsNarrow.complement? hresult
    · cases h

theorem Sign.failsOnly_apply (sign : Sign) (value : Quantity) :
    FailsOnly EvalError.HasText (sign.apply value) := by
  unfold apply
  split
  · exact trivial
  · exact trivial
  · split <;> exact trivial

namespace Expr

/-- From narrow numbers only narrow numbers are computed. -/
theorem isNarrow_of_evalNumber (hq : q.IsNarrow) : ∀ {e : Expr} {value : Quantity},
    (∀ r ∈ e.numbers, r.IsNarrow) → e.evalNumber q = .ok value → value.IsNarrow
  | literal value, _, he, h => by
    cases h
    exact he value (List.mem_singleton_self value)
  | operand name, _, _, h => by
    unfold evalNumber at h
    split at h
    · cases h
      exact hq.operand _
    · cases h
  | paren inner, _, he, h => isNarrow_of_evalNumber (e := inner) hq he h
  | unary op arg, _, he, h => by
    obtain ⟨value, hvalue, h⟩ := bind_eq_ok.mp h
    cases op with
    | not => cases h
    | sign sign => exact sign.isNarrow_of_apply (isNarrow_of_evalNumber (e := arg) hq he hvalue) h
  | binary .modulo left right, _, he, h => by
    obtain ⟨dividend, hdividend, h⟩ := bind_eq_ok.mp h
    obtain ⟨divisor, -, h⟩ := bind_eq_ok.mp h
    have hnarrow := isNarrow_of_evalNumber hq (List.forall_mem_append.mp he).1 hdividend
    exact Quantity.isNarrow_of_remainderBy hnarrow (mapError_eq_ok.mp h)

/-- Where all numbers are narrow, an expression fails only with errors that can be printed. -/
theorem failsOnly_evalNumber_hasText (hq : q.IsNarrow) : ∀ {e : Expr},
    (∀ r ∈ e.numbers, r.IsNarrow) → FailsOnly EvalError.HasText (e.evalNumber q)
  | operand name, _ => by
    unfold evalNumber
    split <;> exact trivial
  | paren inner, he => failsOnly_evalNumber_hasText (e := inner) hq he
  | unary op arg, he => by
    refine (failsOnly_evalNumber_hasText (e := arg) hq he).bind fun value _ => ?_
    cases op with
    | not => exact trivial
    | sign sign => exact sign.failsOnly_apply value
  | binary .modulo left right, he => by
    obtain ⟨hleft, hright⟩ := List.forall_mem_append.mp he
    refine (failsOnly_evalNumber_hasText hq hleft).bind fun dividend _ => ?_
    refine (failsOnly_evalNumber_hasText hq hright).bind fun divisor hdivisor => ?_
    exact Quantity.failsOnly_remainderBy dividend (isNarrow_of_evalNumber hq hright hdivisor)
  | literal _, _ | truth _, _ | range _ _, _ | group _, _ | ellipsis, _
  | binary (.logic _) _ _, _ | binary (.relation _) _ _, _ => trivial

/-- Comparing with a set computes nothing. -/
theorem failsOnly_compareWithSet_hasText (comparison : Comparison) (value : Quantity)
    (elements : List Expr) :
    FailsOnly EvalError.HasText (compareWithSet comparison value elements) := by
  have hcontains : ∀ e, FailsOnly EvalError.HasText (contains value e) := fun e => by
    cases e <;> exact trivial
  have hbounds : ∀ e, FailsOnly EvalError.HasText (bounds e) := fun e => by
    cases e <;> exact trivial
  unfold compareWithSet
  split
  · exact failsOnly_anyM fun e _ => hcontains e
  · exact failsOnly_allM fun e _ => (hcontains e).map
  · exact failsOnly_allM fun e _ => (hbounds e).map

/-- Where all numbers are narrow, a comparison fails only with errors that can be printed. -/
theorem failsOnly_compareSides_hasText (hq : q.IsNarrow) (comparison : Comparison)
    {left right : Expr} (hleft : ∀ r ∈ left.numbers, r.IsNarrow)
    (hright : ∀ r ∈ right.numbers, r.IsNarrow) :
    FailsOnly EvalError.HasText (compareSides q comparison left right) := by
  unfold compareSides
  split
  · exact (failsOnly_evalNumber_hasText hq hright).bind fun value _ =>
      failsOnly_compareWithSet_hasText _ value _
  · refine (failsOnly_evalNumber_hasText hq hleft).bind fun value _ => ?_
    split
    · exact failsOnly_compareWithSet_hasText _ value _
    · exact (failsOnly_evalNumber_hasText hq hright).bind fun target _ => trivial

/-- A condition with narrow numbers is evaluated for a narrow number without meeting a divisor that
cannot be quoted. -/
theorem failsOnly_evalBool_hasText (hq : q.IsNarrow) : ∀ {e : Expr},
    (∀ r ∈ e.numbers, r.IsNarrow) → FailsOnly EvalError.HasText (e.evalBool q)
  | paren inner, he => failsOnly_evalBool_hasText (e := inner) hq he
  | unary .not arg, he => (failsOnly_evalBool_hasText (e := arg) hq he).bind fun _ _ => trivial
  | binary (.logic connective) left right, he => by
    obtain ⟨hleft, hright⟩ := List.forall_mem_append.mp he
    have hmore := failsOnly_evalBool_hasText hq hright
    refine (failsOnly_evalBool_hasText hq hleft).bind fun b _ => ?_
    cases connective with
    | and => cases b with
      | false => exact trivial
      | true => exact hmore
    | or => cases b with
      | false => exact hmore
      | true => exact trivial
    | xor => exact hmore.bind fun _ _ => trivial
  | binary (.relation comparison) left right, he =>
    have hsides := List.forall_mem_append.mp he
    failsOnly_compareSides_hasText hq comparison hsides.1 hsides.2
  | literal _, _ | operand _, _ | truth _, _ | unary (.sign _) _, _ | binary .modulo _ _, _
  | range _ _, _ | group _, _ | ellipsis, _ => trivial

end Expr

end Evaluation

/-! ### Selectors -/

/-- A predicate has no numbers but those of its condition. -/
theorem Predicate.numbers_ofExpr (e : Expr) : (ofExpr e).numbers ⊆ e.numbers := by
  unfold ofExpr
  cases h : ofEquation? e with
  | none => exact List.Subset.refl _
  | some predicate =>
    rcases ofEquation?_eq_some_iff.mp h with ⟨-, rfl⟩ | ⟨-, rfl⟩ <;> exact List.nil_subset _

/-- A clause has no numbers but those of its rule. -/
theorem Clause.numbers_of_ofRule {rule : Rule} {clause : Clause} (h : ofRule rule = .ok clause) :
    clause.predicate.numbers ⊆ rule.numbers := by
  unfold ofRule at h
  split at h
  · next condition hcondition =>
    cases h
    rw [Rule.numbers, hcondition]
    exact List.subset_append_of_subset_left _ (Predicate.numbers_ofExpr condition)
  · split at h
    · cases h
      exact List.nil_subset _
    · cases h

namespace Selector

variable {rules : List Rule} {selector : Selector} {q : Quantity}

/-- A selector holds no numbers but those of its rules. -/
theorem forall_numbers_of_ofRules {P : Quantity → Prop} (h : ofRules rules = .ok selector)
    (hrules : ∀ rule ∈ rules, ∀ q ∈ rule.numbers, P q) :
    ∀ clause ∈ selector.clauses, ∀ q ∈ clause.predicate.numbers, P q := by
  obtain ⟨clauses, hall, rfl⟩ := ofRules_eq_ok.mp h
  have hclauses : ∀ clause ∈ clauses, ∀ q ∈ clause.predicate.numbers, P q :=
    forall_right hall fun rule hrule clause hclause q hq =>
      hrules rule hrule q (Clause.numbers_of_ofRule hclause hq)
  intro clause hclause
  rw [clauses_ofClauses] at hclause
  rcases List.mem_append.mp hclause with hclause | hclause
  · exact hclauses clause (List.mem_of_mem_filter hclause)
  · exact hclauses clause (List.mem_of_mem_filter hclause)

/-- A selector of rules that can be printed can be printed. -/
theorem text?_of_ofRules (h : ofRules rules = .ok selector)
    (hrules : ∀ rule ∈ rules, rule.HasText) : selector.text? = some selector.toString := by
  apply Quantity.textWith?_eq_some
  intro q hq
  obtain ⟨clause, hclause, hq⟩ := List.mem_flatMap.mp hq
  exact forall_numbers_of_ofRules h hrules clause hclause q hq

end Selector

def SelectError.HasText : SelectError → Prop
  | .eval error => error.HasText
  | _ => True

theorem Predicate.failsOnly_eval_hasText {predicate : Predicate} {q : Quantity} (hq : q.IsNarrow)
    (h : ∀ r ∈ predicate.numbers, r.IsNarrow) :
    FailsOnly EvalError.HasText (predicate.eval q) := by
  cases predicate with
  | condition e => exact e.failsOnly_evalBool_hasText hq h
  | _ => exact trivial

/-- A selector of narrow rules fails only with errors that can be printed. -/
theorem Selector.failsOnly_select_hasText {rules : List Rule} {selector : Selector} {q : Quantity}
    (h : ofRules rules = .ok selector) (hrules : ∀ rule ∈ rules, rule.IsNarrow)
    (hq : q.IsNarrow) : FailsOnly SelectError.HasText (selector.select q) := by
  have hnumbers := forall_numbers_of_ofRules h hrules
  have htakes : ∀ clause ∈ selector.clauses, FailsOnly SelectError.HasText (clause.takes q) :=
    fun clause hclause =>
      FailsOnly.mapError (Predicate.failsOnly_eval_hasText hq (hnumbers clause hclause))
        fun _ h => h
  unfold select choose
  split
  · exact trivial
  · exact (Clause.failsOnly_firstTaking? htakes).map

/-! ### Findings -/

/-- Whether the text of a finding can be printed. It names the sample that it is about. -/
def Finding.HasText : Finding → Prop
  | .mismatch site | .shadowed site _ => site.number.HasText
  | .failed site error => site.number.HasText ∧ error.HasText
  | .noCatchAll .. | .severalCatchAlls .. | .repeatedCase .. => True

namespace Lint

variable {q : Quantity} {rule : Rule} {rules earlier : List Rule} {finding : Finding}

theorem isNarrow_of_mem_numbersOf {sample : Sample} (h : ∀ r ∈ sample.numbers, r.IsNarrow)
    (hq : q ∈ numbersOf sample) : q.IsNarrow := by
  cases sample with
  | single value => exact h q hq
  | ellipsis => cases hq
  | range least greatest =>
    unfold numbersOf at hq
    dsimp only at hq
    split at hq
    · obtain ⟨k, -, rfl⟩ := List.mem_map.mp hq
      exact Quantity.isNarrow_ofInt _
    · exact h q hq

/-- The samples of a narrow rule stand for narrow numbers. -/
theorem isNarrow_of_mem_sampleNumbers (h : rule.IsNarrow) (hq : q ∈ sampleNumbers rule) :
    q.IsNarrow := by
  obtain ⟨list, hlist, hq⟩ := List.mem_flatMap.mp hq
  obtain ⟨sample, hsample, hq⟩ := List.mem_flatMap.mp hq
  refine isNarrow_of_mem_numbersOf (fun r hr => h r (List.mem_append_right _ ?_)) hq
  exact List.mem_flatMap.mpr ⟨list, hlist, List.mem_flatMap.mpr ⟨sample, hsample, hr⟩⟩

theorem failsOnly_applies?_hasText (hrule : rule.IsNarrow) (hq : q.IsNarrow) :
    FailsOnly EvalError.HasText (applies? q rule) := by
  unfold applies?
  split
  · next condition hcondition =>
    refine (Expr.failsOnly_evalBool_hasText hq fun r hr => hrule r ?_).map
    rw [Rule.numbers, hcondition]
    exact List.mem_append_left _ hr
  · exact trivial

theorem failsOnly_firstApplying?_hasText (hq : q.IsNarrow) : ∀ {rules : List Rule},
    (∀ rule ∈ rules, rule.IsNarrow) → FailsOnly EvalError.HasText (firstApplying? q rules)
  | [], _ => trivial
  | rule :: more, h => by
    obtain ⟨hrule, hmore⟩ := List.forall_mem_cons.mp h
    refine (failsOnly_applies?_hasText hrule hq).bind fun applies _ => ?_
    split
    · exact trivial
    · exact failsOnly_firstApplying?_hasText hq hmore

/-- Checking a sample of a narrow rule fails only with errors that can be printed. -/
theorem failsOnly_checkSample_hasText (hearlier : ∀ rule ∈ earlier, rule.IsNarrow)
    (hrule : rule.IsNarrow) (hq : q.IsNarrow) :
    FailsOnly EvalError.HasText (checkSample earlier rule q) := by
  refine (failsOnly_applies?_hasText hrule hq).bind fun applies _ => ?_
  split
  · exact trivial
  · exact trivial
  · exact (failsOnly_firstApplying?_hasText hq hearlier).bind fun _ _ => trivial

/-- The finding about a sample of a narrow rule can be printed. -/
theorem hasText_of_sampleFinding? (hearlier : ∀ rule ∈ earlier, rule.IsNarrow)
    (hrule : rule.IsNarrow) (hq : q.IsNarrow)
    (h : sampleFinding? earlier rule q = some finding) : finding.HasText := by
  have herrors := failsOnly_checkSample_hasText hearlier hrule hq
  unfold sampleFinding? at h
  split at h
  · next hcheck =>
    obtain ⟨applies, -, hcheck⟩ := bind_eq_ok.mp hcheck
    split at hcheck
    · cases hcheck; cases h
    · cases hcheck; cases h
      exact hq.hasText
    · obtain ⟨found, -, hcheck⟩ := bind_eq_ok.mp hcheck
      cases found <;> cases hcheck <;> cases h
      exact hq.hasText
  · next hcheck =>
    rw [hcheck] at herrors
    cases h
    exact ⟨hq.hasText, herrors⟩

/-- All findings about narrow rules can be printed. -/
theorem hasText_of_mem_findings (hrules : ∀ rule ∈ rules, rule.IsNarrow)
    (h : finding ∈ findings rules) : finding.HasText := by
  cases hsite : finding.site? with
  | none => cases finding <;> first | exact trivial | cases hsite
  | some site =>
    obtain ⟨group, hgroup, h⟩ := List.mem_flatMap.mp h
    obtain ⟨front, rule, back, rfl, q, hq, h⟩ :=
      mem_sampleFindings.mp ((mem_groupFindings_of_site hsite).mp h)
    have hgroup : ∀ other ∈ front ++ rule :: back, other.IsNarrow := fun other hother =>
      hrules other (Rule.mem_of_mem_groups hgroup hother)
    obtain ⟨hfront, hback⟩ := List.forall_mem_append.mp hgroup
    have hrule := (List.forall_mem_cons.mp hback).1
    exact hasText_of_sampleFinding? hfront hrule (isNarrow_of_mem_sampleNumbers hrule hq) h

end Lint

/-! ### Sheets -/

/-- What is made from a sheet with short lines can be printed: the rules, the findings about them,
the selectors of any of them, and the errors of selecting by numbers with short texts. -/
theorem Sheet.texts_of_short_lines (text : String)
    (h : ∀ line ∈ Text.lines text.toList, line.length + Quantity.exponentLimit ≤
      Quantity.greatestWidth) :
    (∀ rule ∈ (Sheet.parse text).rules, rule.text? = some rule.toString) ∧
    (∀ finding ∈ Lint.findings (Sheet.parse text).rules, finding.HasText) ∧
    ∀ rules selector, rules ⊆ (Sheet.parse text).rules → Selector.ofRules rules = .ok selector →
      selector.text? = some selector.toString ∧
      ∀ s q, s.length + Quantity.exponentLimit ≤ Quantity.greatestWidth →
        Quantity.ofString s = .ok q → FailsOnly SelectError.HasText (selector.select q) := by
  have hnarrow : ∀ rule ∈ (Sheet.parse text).rules, rule.IsNarrow := by
    intro rule hrule
    obtain ⟨i, line, hline, -, own, hown, rfl⟩ := mem_ungrouped.mp (mem_rules.mp hrule)
    have hnarrow : own.IsNarrow :=
      Rule.isNarrow_of_ofChars hown (h line (List.mem_of_getElem? hline))
    -- the number of the line and the label that it inherits are no numbers of the rule
    exact hnarrow
  refine ⟨fun rule hrule => ?_, fun finding => Lint.hasText_of_mem_findings hnarrow, ?_⟩
  · exact Quantity.textWith?_eq_some (hnarrow rule hrule).hasText _
  · intro rules selector hsub hselector
    have hrules : ∀ rule ∈ rules, rule.IsNarrow := fun rule hrule => hnarrow rule (hsub hrule)
    refine ⟨Selector.text?_of_ofRules hselector fun rule hrule => (hrules rule hrule).hasText, ?_⟩
    exact fun s q hs hq => Selector.failsOnly_select_hasText hselector hrules
      (Quantity.isNarrow_of_ofChars hq hs)

end PluralRules
