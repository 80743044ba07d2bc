import PluralRules.Proofs.Faults
import PluralRules.Proofs.Spacing
import PluralRules.Rule.Key

/-!
# Blanks between words do not count

A text without brackets and a text that differs from it only in what blanks stand between the words
are the same rule, or they fail with faults of the same kind (`Rule.parse_of_respaced`).

The readers of the grammar are steady, layer by layer, so both texts are read as the same tree of
the same words, or as none. What differs is only what follows the words in their lines
(`Phrase.detached`), and of the meaning of a phrase that touches nothing but the places and the
texts of complaints (`outcome`).
-/

namespace PluralRules

open Reader Grammar Text

/-! ### Trees without their places -/

namespace Excerpt

/-- The excerpt without what follows it in the line. -/
def detached (e : Excerpt) : Excerpt := ⟨e.text, []⟩

/-- Excerpts of two lines with the same text. -/
def SameText (e e' : Excerpt) : Prop := e.text = e'.text

/-- Excerpts are equal without what follows them exactly if their texts are. -/
theorem detached_eq_iff {e e' : Excerpt} : e.detached = e'.detached ↔ e.SameText e' := by
  simp [detached, SameText]

end Excerpt

namespace Phrase

mutual

/-- The phrase without what follows its words and marks in the line. -/
def detached : Phrase → Phrase
  | number text => number text.detached
  | word text => word text.detached
  | truth text => truth text.detached
  | prefixed operator operand => prefixed operator.detached (detached operand)
  | joined operator left right => joined operator.detached (detached left) (detached right)
  | span dots least greatest => span dots.detached (detached least) (detached greatest)
  | list first more => list (detached first) (detachedItems more)
  | paren inner => paren (detached inner)

def detachedItems : List Phrase → List Phrase
  | [] => []
  | item :: more => detached item :: detachedItems more

end

theorem detachedItems_eq (items : List Phrase) : detachedItems items = items.map detached := by
  induction items with
  | nil => rfl
  | cons item more ih => rw [detachedItems, ih, List.map_cons]

/-- Phrases of two lines that are the same tree of the same words and marks. -/
def SameTree (p q : Phrase) : Prop := p.detached = q.detached

variable {o o' : Excerpt} {p p' q q' : Phrase}

theorem SameTree.number (h : o.SameText o') : (number o).SameTree (number o') :=
  congrArg Phrase.number (Excerpt.detached_eq_iff.mpr h)

theorem SameTree.word (h : o.SameText o') : (word o).SameTree (word o') :=
  congrArg Phrase.word (Excerpt.detached_eq_iff.mpr h)

theorem SameTree.truth (h : o.SameText o') : (truth o).SameTree (truth o') :=
  congrArg Phrase.truth (Excerpt.detached_eq_iff.mpr h)

theorem SameTree.prefixed (ho : o.SameText o') (hp : p.SameTree p') :
    (prefixed o p).SameTree (prefixed o' p') := by
  rw [SameTree, detached, detached, Excerpt.detached_eq_iff.mpr ho, hp]

theorem SameTree.joined (ho : o.SameText o') (hp : p.SameTree p') (hq : q.SameTree q') :
    (joined o p q).SameTree (joined o' p' q') := by
  rw [SameTree, detached, detached, Excerpt.detached_eq_iff.mpr ho, hp, hq]

theorem SameTree.span (ho : o.SameText o') (hp : p.SameTree p') (hq : q.SameTree q') :
    (span o p q).SameTree (span o' p' q') := by
  rw [SameTree, detached, detached, Excerpt.detached_eq_iff.mpr ho, hp, hq]

/-- Lists whose items are the same trees are the same trees. -/
theorem SameTree.list {more more' : List Phrase} (hp : p.SameTree p')
    (hmore : List.Forall₂ SameTree more more') : (list p more).SameTree (list p' more') := by
  have hitems : detachedItems more = detachedItems more' := by
    rw [detachedItems_eq, detachedItems_eq, ← List.forall₂_eq_eq_eq, List.forall₂_map_left_iff,
      List.forall₂_map_right_iff]
    exact hmore
  rw [SameTree, detached, detached, hp, hitems]

theorem SameTree.paren (hp : p.SameTree p') : (paren p).SameTree (paren p') := by
  rw [SameTree, detached, detached, hp]

/-- Chains of the same operands and operators are the same trees. -/
theorem SameTree.foldl_joined {links links' : List (Excerpt × Phrase)}
    (h : List.Forall₂ (fun x y => x.1.SameText y.1 ∧ x.2.SameTree y.2) links links') :
    ∀ {left left' : Phrase}, left.SameTree left' →
      (links.foldl (fun left x => .joined x.1 left x.2) left).SameTree
        (links'.foldl (fun left x => .joined x.1 left x.2) left') := by
  induction h with
  | nil => exact id
  | cons hx _ ih => exact fun hleft => ih (.joined hx.1 hleft hx.2)

theorem SameTree.foldr_prefixed {marks marks' : List Excerpt}
    (h : List.Forall₂ Excerpt.SameText marks marks')
    (hp : p.SameTree p') : (marks.foldr .prefixed p).SameTree (marks'.foldr .prefixed p') := by
  induction h with
  | nil => exact hp
  | cons hmark _ ih => exact .prefixed hmark ih

end Phrase

open Excerpt Phrase

/-! ### Words and marks -/

namespace Grammar

section Words

variable {n m : Nat} {α : Type} {item : Reader α} {p : Char → Bool}

/-- An excerpt of characters that are read alike has the same text in both lines. -/
theorem steady_excerptOf (h : Verbatim item) :
    Steady n m SameText (excerptOf item) (excerptOf item) := by
  intro s t hw
  refine rel_bind (h hw.respaced) ?_
  rintro ⟨a, r⟩ ⟨_, r'⟩ ⟨rfl, hfront⟩
  refine .some ⟨?_, hfront.within⟩
  obtain ⟨text, -, rfl, rfl, -⟩ := hfront
  show (Excerpt.before (text ++ r) r).text = (Excerpt.before (text ++ r') r').text
  rw [before_append, before_append]

/-- A run without blanks has the same text in both lines. -/
theorem steady_runOf (hp : ∀ c, isBlank c = true → p c = false) :
    Steady n m SameText (runOf p) (runOf p) :=
  steady_excerptOf (verbatim_run hp)

theorem steady_satisfying (hp : ∀ c, isBlank c = true → p c = false) :
    Steady n m SameText (excerptOf (satisfying p)) (excerptOf (satisfying p)) :=
  steady_excerptOf (verbatim_satisfying hp)

/-- No blank is a character of a name. -/
theorem isNameChar_of_isBlank : ∀ c, isBlank c = true → isNameChar c = false :=
  eq_false_of_isBlank isBlank_of_isNameChar

theorem isWordChar_of_isBlank : ∀ c, isBlank c = true → isWordChar c = false :=
  eq_false_of_isBlank fun h => isBlank_of_isNameChar (isNameChar_of_isWordChar h)

theorem isDigit_of_isBlank : ∀ c, isBlank c = true → c.isDigit = false :=
  eq_false_of_isBlank fun h => isBlank_of_isNameChar (isNameChar_of_isDigit h)

theorem isAlpha_of_isBlank : ∀ c, isBlank c = true → c.isAlpha = false :=
  eq_false_of_isBlank fun h => isBlank_of_isNameChar (isNameChar_iff.mpr (Or.inl h))

theorem isCaseChar_of_isBlank (c : Char) (hc : isBlank c = true) : isCaseChar c = false := by
  have hhyphen : (c == '-') = false := by
    rw [beq_eq_false_iff_ne]
    rintro rfl
    cases hc
  rw [isCaseChar, isNameChar_of_isBlank c hc, hhyphen, Bool.or_false]

theorem isSampleChar_of_isBlank (c : Char) (hc : isBlank c = true) : isSampleChar c = false := by
  simp [isSampleChar, hc]

/-- Whether a reserved word goes on as a longer name is the same in both texts. -/
theorem steady_keyword {text : String} (hne : text.toList ≠ []) (htext : IsUnbroken text.toList) :
    Steady n m SameText (keyword text) (keyword text) := by
  intro s t hw
  refine rel_bind (steady_excerptOf (verbatim_literal hne htext) hw) ?_
  rintro ⟨e, r⟩ ⟨e', r'⟩ ⟨htext, hr⟩
  dsimp only
  rw [hr.respaced.head?_any isNameChar_of_isBlank]
  split
  · exact .none
  · exact .some ⟨htext, hr⟩

theorem steady_word : Steady n m SameText word word := by
  intro s t hw
  refine rel_bind (steady_runOf isWordChar_of_isBlank hw) ?_
  rintro ⟨e, r⟩ ⟨e', r'⟩ ⟨htext, hr⟩
  dsimp only at htext ⊢
  rw [htext]
  split
  · exact .none
  · exact .some ⟨htext, hr⟩

theorem steady_number : Steady n m SameText number number := by
  have hdigits : Verbatim Numeral.digits := verbatim_run isDigit_of_isBlank
  have hpoint : Verbatim Numeral.pointAndDigits := by
    intro s t h
    refine rel_bind (verbatim_char (by decide) h) ?_
    rintro ⟨_, r⟩ ⟨_, r'⟩ ⟨-, hfront⟩
    exact rel_mono (hdigits hfront.respaced) fun _ _ ⟨heq, hmore⟩ => ⟨heq, hfront.trans hmore⟩
  exact steady_excerptOf (hdigits.thenOptional hpoint)

theorem steady_comparisonMark : Steady n m SameText comparisonMark comparisonMark := by
  have hmark : Verbatim (satisfying isComparisonChar) :=
    verbatim_satisfying (eq_false_of_isBlank isBlank_of_isComparisonChar)
  exact steady_excerptOf (hmark.thenOptional hmark)

theorem steady_arithmeticMark : Steady n m SameText arithmeticMark arithmeticMark :=
  (steady_keyword (by decide) (by decide)).orElse
    (steady_satisfying (eq_false_of_isBlank isBlank_of_isArithmeticChar))

theorem steady_dots : Steady n m SameText dots dots :=
  steady_excerptOf (verbatim_literal (by decide) (by decide))

end Words

/-! ### Layers -/

section Layers

variable {n m : Nat} {mark operator : Reader Excerpt}
  {inner inner' operand operand' value value' : Reader Phrase}

/-- An operator and its operand are read alike, with any blanks between them. -/
theorem steady_link (ho : Steady n m SameText operator operator)
    (h : Steady n m SameTree operand operand') :
    Steady n m (fun x y => x.1.SameText y.1 ∧ x.2.SameTree y.2) (link operator operand)
      (link operator operand') := (ho.pair h).skipping

theorem steady_chain (ho : Steady n m SameText operator operator)
    (h : Steady n m SameTree operand operand') :
    Steady n m SameTree (chain operator operand) (chain operator operand') := by
  intro s t hw
  refine rel_bind (h hw) ?_
  rintro ⟨p, r⟩ ⟨q, r'⟩ ⟨hpq, hr⟩
  obtain ⟨hlinks, hrest⟩ := (steady_link ho h).many (hr.mono hw.left.le hw.right.le)
  exact .some ⟨.foldl_joined hlinks hpq, hrest.mono hr.left hr.right⟩

theorem steady_marked (hmark : Steady n m SameText mark mark)
    (h : Steady n m SameTree operand operand') :
    Steady n m SameTree (marked mark operand) (marked mark operand') := by
  have hthen : Steady n m SameText (thenBlanks mark) (thenBlanks mark) := by
    intro s t hw
    exact rel_map (hmark hw) fun _ _ ⟨htext, hr⟩ => ⟨htext, hr.skipBlanks⟩
  intro s t hw
  obtain ⟨hmarks, hrest⟩ := hthen.many hw
  refine rel_bind (h (hrest.mono hw.left hw.right)) ?_
  rintro ⟨p, r⟩ ⟨q, r'⟩ ⟨hpq, hr⟩
  refine .some ⟨.foldr_prefixed hmarks hpq, hr.mono ?_ ?_⟩
  · exact Nat.le_of_lt_succ hrest.left
  · exact Nat.le_of_lt_succ hrest.right

/-- Phrases in parentheses are read as the same trees, one level deeper. -/
theorem steady_parenthesized (h : Steady n m SameTree inner inner') :
    Steady (n + 1) (m + 1) SameTree (parenthesized inner) (parenthesized inner') :=
  (h.between (by decide) (by decide)).map fun _ _ => .paren

theorem steady_range (h : Steady n m SameTree inner inner') :
    Steady (n + 1) (m + 1) SameTree (range inner) (range inner') := by
  have hprimary : Steady (n + 1) (m + 1) SameTree (primary inner) (primary inner') :=
    (steady_number.map fun _ _ => .number).orElse
      ((steady_word.map fun _ _ => .word).orElse (steady_parenthesized h))
  have hsign : Steady (n + 1) (m + 1) SameText (excerptOf (satisfying isSignChar))
      (excerptOf (satisfying isSignChar)) :=
        steady_satisfying (eq_false_of_isBlank isBlank_of_isSignChar)
  have harithmetic : Steady (n + 1) (m + 1) SameTree (arithmetic inner) (arithmetic inner') :=
    steady_chain steady_arithmeticMark (steady_marked hsign hprimary)
  intro s t hw
  refine rel_bind (harithmetic hw) ?_
  rintro ⟨p, r⟩ ⟨p', r'⟩ ⟨hp, hr⟩
  have hlink := steady_link steady_dots harithmetic (hr.mono hw.left.le hw.right.le)
  dsimp only
  generalize link dots (arithmetic inner) r = x at hlink ⊢
  generalize link dots (arithmetic inner') r' = y at hlink ⊢
  cases hlink with
  | none => exact .some ⟨hp, hr⟩
  | some h =>
    obtain ⟨⟨hdots, hq⟩, hrest⟩ := h
    exact .some ⟨.span hdots hp hq, hrest.mono hr.left.le hr.right.le⟩

theorem steady_list (h : Steady n m SameTree inner inner') :
    Steady (n + 1) (m + 1) SameTree (Grammar.list inner) (Grammar.list inner') := by
  intro s t hw
  refine rel_bind ((steady_range h).commaSeparated hw) ?_
  rintro ⟨⟨p, more⟩, r⟩ ⟨⟨p', more'⟩, r'⟩ ⟨⟨hp, hmore⟩, hr⟩
  cases hmore with
  | nil => exact .some ⟨hp, hr⟩
  | cons hitem hmore => exact .some ⟨.list hp (.cons hitem hmore), hr⟩

/-- A value is read as far as its depth allows, which is far enough for texts that are not
longer. -/
theorem steady_value :
    ∀ depth depth' : Nat, Steady depth depth' SameTree (Grammar.value depth) (Grammar.value depth')
  | 0, _ => fun _ _ hw => absurd hw.left (Nat.not_lt_zero _)
  | _, 0 => fun _ _ hw => absurd hw.right (Nat.not_lt_zero _)
  | depth + 1, depth' + 1 => steady_list (steady_value depth depth')

/-- Comparisons are read as the same trees. -/
theorem steady_comparison (h : Steady n m SameTree value value') :
    Steady n m SameTree (comparison value) (comparison value') := by
  intro s t hw
  refine rel_bind (h hw) ?_
  rintro ⟨p, r⟩ ⟨p', r'⟩ ⟨hp, hr⟩
  refine rel_bind (steady_link steady_comparisonMark h (hr.mono hw.left.le hw.right.le)) ?_
  rintro ⟨⟨o, q⟩, u⟩ ⟨⟨o', q'⟩, u'⟩ ⟨⟨ho, hq⟩, hu⟩
  exact .some ⟨.joined ho hp hq, hu.mono hr.left.le hr.right.le⟩

theorem steady_disjunction (hvalue : Steady (n + 1) (m + 1) SameTree value value')
    (h : Steady n m SameTree inner inner') :
    Steady (n + 1) (m + 1) SameTree (disjunction value inner) (disjunction value' inner') := by
  have htruth : Steady (n + 1) (m + 1) SameText (Reader.orElse (keyword "true") (keyword "false"))
      (Reader.orElse (keyword "true") (keyword "false")) :=
    (steady_keyword (by decide) (by decide)).orElse (steady_keyword (by decide) (by decide))
  have hsimple :
      Steady (n + 1) (m + 1) SameTree (simpleCondition value inner)
        (simpleCondition value' inner') :=
    (htruth.map fun _ _ => .truth).orElse
      ((steady_comparison hvalue).orElse (steady_parenthesized h))
  have hmark : Steady (n + 1) (m + 1) SameText (Reader.orElse (keyword "or") (keyword "xor"))
      (Reader.orElse (keyword "or") (keyword "xor")) :=
    (steady_keyword (by decide) (by decide)).orElse (steady_keyword (by decide) (by decide))
  exact steady_chain hmark (steady_chain (steady_keyword (by decide) (by decide))
    (steady_marked (steady_keyword (by decide) (by decide)) hsimple))

/-- Conditions are read as the same trees, whatever depth the readers allow. -/
theorem steady_condition : ∀ depth depth' : Nat,
    Steady depth depth' SameTree (condition depth) (condition depth')
  | 0, _ => fun _ _ hw => absurd hw.left (Nat.not_lt_zero _)
  | _, 0 => fun _ _ hw => absurd hw.right (Nat.not_lt_zero _)
  | depth + 1, depth' + 1 =>
    steady_disjunction (steady_value (depth + 1) (depth' + 1)) (steady_condition depth depth')

theorem steady_conditionReader : Steady n m SameTree conditionReader conditionReader :=
  fun s t hw => steady_condition (s.length + 1) (t.length + 1)
    ⟨hw.respaced, Nat.lt_succ_self _, Nat.lt_succ_self _⟩

end Layers

/-! ### Parts of lines -/

section Parts

variable {n m : Nat}

/-- Conditions of two lines that are the same tree. Their texts may be spaced differently. -/
def SameCondition (c c' : WrittenCondition) : Prop := c.phrase.SameTree c'.phrase

/-- Cases of two lines with the same name and the same conditions. -/
structure SameCase (g g' : CaseSegment) : Prop where
  name : g.name.SameText g'.name
  conditions : List.Forall₂ SameCondition g.conditions g'.conditions

structure SameSamples (g g' : SampleSegment) : Prop where
  name : g.name.SameText g'.name
  values : List.Forall₂ SameText g.values g'.values

/-- Cases are read with the same name and the same conditions. -/
theorem steady_caseSegment : Steady n m SameCase caseSegment caseSegment := by
  have hname : Steady n m SameText caseName caseName := by
    apply steady_excerptOf
    intro s t h
    refine rel_bind (verbatim_satisfying isAlpha_of_isBlank h) ?_
    rintro ⟨c, r⟩ ⟨_, r'⟩ ⟨rfl, hfront⟩
    exact .some ⟨rfl, hfront.dropWhile isCaseChar_of_isBlank⟩
  have hwritten : Steady n m SameCondition writtenCondition writtenCondition := by
    intro s t hw
    refine rel_bind (steady_conditionReader hw) ?_
    rintro ⟨p, r⟩ ⟨q, r'⟩ ⟨hpq, hr⟩
    exact .some ⟨hpq, hr⟩
  intro s t hw
  refine rel_bind (hname hw) ?_
  rintro ⟨e, r⟩ ⟨e', r'⟩ ⟨he, hr⟩
  have hcolon : Steady n m Eq (skipping (char ':')) (skipping (char ':')) :=
    (verbatim_char (by decide)).steady.skipping
  obtain ⟨-, hbehind⟩ := hcolon.optional (hr.mono hw.left.le hw.right.le)
  have hwithin := (hbehind.mono hr.left hr.right).mono hw.left.le hw.right.le
  obtain ⟨hconditions, hrest⟩ := hwritten.skipping.many hwithin
  refine .some ⟨⟨he, hconditions⟩, (hrest.mono hbehind.left hbehind.right).mono hr.left hr.right⟩

theorem steady_sampleSegment : Steady n m SameSamples sampleSegment sampleSegment := by
  have hvalues : Steady n m (List.Forall₂ SameText) sampleValues sampleValues :=
    (steady_runOf isSampleChar_of_isBlank).commaSeparated.map
      fun _ _ h => .cons h.1 h.2
  intro s t hw
  refine rel_bind ((verbatim_char (by decide)).steady hw) ?_
  rintro ⟨_, r⟩ ⟨_, r'⟩ ⟨-, hr⟩
  refine rel_bind (steady_runOf isNameChar_of_isBlank (hr.mono hw.left.le hw.right.le)) ?_
  rintro ⟨e, u⟩ ⟨e', u'⟩ ⟨he, hu⟩
  have hmore :=
    hvalues.skipping.optional ((hu.mono hr.left.le hr.right.le).mono hw.left.le hw.right.le)
  dsimp only
  generalize Reader.optional (skipping sampleValues) u = x at hmore ⊢
  generalize Reader.optional (skipping sampleValues) u' = y at hmore ⊢
  obtain ⟨values, v⟩ := x
  obtain ⟨values', v'⟩ := y
  obtain ⟨hvalues, hv⟩ := hmore
  refine .some ⟨⟨he, ?_⟩, (hv.mono hu.left hu.right).mono hr.left.le hr.right.le⟩
  cases hvalues with
  | none => exact .nil
  | some h => exact h

/-- Brackets are read in both texts or in neither. What stands in them is another matter: the blanks
within a value belong to it. -/
theorem steady_brackets : Steady (n + 1) (m + 1) (fun _ _ => True) brackets brackets := by
  have hentry : Steady n m (fun _ _ => True) entry entry := by
    intro s t hw
    refine rel_bind
      (((steady_runOf isNameChar_of_isBlank).pair (verbatim_char (by decide)).steady) hw) ?_
    rintro ⟨⟨key, _⟩, r⟩ ⟨⟨key', _⟩, r'⟩ ⟨-, hr⟩
    -- a value goes on over its blanks, up to the same mark in both texts
    have hvalue : ∀ c, isBlank c = true → (c != ',' && c != ']') = true := by
      intro c hc
      have hcomma : c ≠ ',' := by rintro rfl; cases hc
      have hbracket : c ≠ ']' := by rintro rfl; cases hc
      simp [hcomma, hbracket]
    have hrest := (hr.skipBlanks.dropWhile hvalue)
    rw [← entryValue_rest, ← entryValue_rest] at hrest
    exact .some ⟨trivial, hrest⟩
  exact (hentry.commaSeparated.between (by decide) (by decide)).map fun _ _ _ => trivial

end Parts

end Grammar

namespace Line

/-- Lines without brackets that have the same words, between which blanks may be different. -/
structure SameWords (line line' : Line) : Prop where
  info : line.info = none
  info' : line'.info = none
  case : Option.Rel SameCase line.case line'.case
  samples : List.Forall₂ SameSamples line.samples line'.samples

/-- Two texts that are spaced differently are read as the same words, as far as either of them is
read. -/
theorem parts_of_respaced {s t : List Char} (h : Respaced s t) (hinfo : (parts s).1.info = none) :
    (parts s).1.SameWords (parts t).1 ∧ Respaced (parts s).2 (parts t).2 := by
  have hw : Within (s.length + 1) (t.length + 1) s t := ⟨h, Nat.lt_succ_self _, Nat.lt_succ_self _⟩
  obtain ⟨hbrackets, hrest⟩ := steady_brackets.optional hw.skipBlanks
  have hw₁ := (hrest.mono hw.skipBlanks.left hw.skipBlanks.right).skipBlanks
  obtain ⟨hcase, hrest⟩ := steady_caseSegment.optional hw₁
  have hw₂ := hrest.mono hw₁.left hw₁.right
  obtain ⟨hsamples, hrest⟩ := steady_sampleSegment.skipping.many hw₂
  refine ⟨⟨hinfo, ?_, hcase, hsamples⟩, hrest.skipBlanks.respaced⟩
  change (Reader.optional brackets (skipBlanks s)).1 = none at hinfo
  show (Reader.optional brackets (skipBlanks t)).1 = none
  rw [hinfo] at hbrackets
  generalize (Reader.optional brackets (skipBlanks t)).1 = x at hbrackets
  cases hbrackets
  rfl

/-- Whether the parts of a line belong together does not depend on its blanks. -/
theorem SameWords.isComplete_eq {line line' : Line} (h : line.SameWords line') :
    line.isComplete = line'.isComplete := by
  simp [isComplete, h.info, h.info', isSome_eq_of_rel h.case]

/-- Either text can be read if the other one can. -/
theorem read_of_respaced {s t : List Char} (h : Respaced s t) (hinfo : (parts s).1.info = none) :
    Matches (fun _ _ => True) SameWords (read s) (read t) := by
  obtain ⟨hwords, hrest⟩ := parts_of_respaced h hinfo
  have hempty : (parts s).2.isEmpty = (parts t).2.isEmpty := by
    rw [Bool.eq_iff_iff, List.isEmpty_iff, List.isEmpty_iff]
    exact hrest.eq_nil_iff
  simp only [read, hwords.isComplete_eq, hempty]
  split
  · exact hwords
  · exact trivial

end Line

/-! ### What lines mean -/

/-- A result without the text and the place of its complaint. -/
def outcome {α : Type} (x : Except Complaint α) : Except FaultKind α :=
  x.mapError fun c => c.fault.kind

section Outcomes

variable {α β ι κ : Type}

theorem outcome_bind (x : Except Complaint α) (f : α → Except Complaint β) :
    outcome (x >>= f) = outcome x >>= fun a => outcome (f a) := by
  cases x <;> rfl

/-- Results that agree but for their places go on to agree. -/
theorem outcome_bind_congr {x y : Except Complaint α} {f g : α → Except Complaint β}
    (h : outcome x = outcome y) (hfg : ∀ a, outcome (f a) = outcome (g a)) :
    outcome (x >>= f) = outcome (y >>= g) := by
  rw [outcome_bind, outcome_bind, h]
  exact bind_congr hfg

/-- Lists of results that agree but for their places agree as a whole. -/
theorem outcome_mapM_congr {f : ι → Except Complaint α} {g : κ → Except Complaint α} {xs : List ι}
    {ys : List κ} (h : List.Forall₂ (fun x y => outcome (f x) = outcome (g y)) xs ys) :
    outcome (xs.mapM f) = outcome (ys.mapM g) := by
  induction h with
  | nil => rfl
  | cons hxy _ ih =>
    rw [List.mapM_cons, List.mapM_cons]
    exact outcome_bind_congr hxy fun _ => outcome_bind_congr ih fun _ => rfl

end Outcomes

namespace Phrase

/-- What an excerpt spells does not depend on what follows it. -/
theorem outcome_quantity (e : Excerpt) : outcome e.detached.quantity = outcome e.quantity := by
  rw [Excerpt.quantity, Excerpt.quantity, Excerpt.detached]
  cases Quantity.ofChars e.text <;> rfl

theorem outcome_unaryOp (operator : Excerpt) :
    outcome (unaryOp operator.detached) = outcome (unaryOp operator) := by
  rw [unaryOp, unaryOp, Excerpt.detached, Excerpt.toString, Excerpt.toString]
  cases UnaryOp.ofSymbol? (String.ofList operator.text) <;> rfl

theorem outcome_binaryOp (operator : Excerpt) :
    outcome (binaryOp operator.detached) = outcome (binaryOp operator) := by
  rw [binaryOp, binaryOp, Excerpt.detached, Excerpt.toString, Excerpt.toString]
  cases BinaryOp.ofSymbol? (String.ofList operator.text) <;> rfl

theorem outcome_bound (p : Phrase) : outcome p.detached.bound = outcome p.bound := by
  cases p with
  | number e => exact outcome_quantity e
  | _ => rfl

theorem outcome_rangeOf (least greatest : Phrase) :
    outcome (rangeOf least.detached greatest.detached) = outcome (rangeOf least greatest) :=
  outcome_bind_congr (outcome_bound least) fun _ => outcome_bind_congr (outcome_bound greatest)
    fun _ => rfl

theorem outcome_element (p : Phrase) : outcome p.detached.element = outcome p.element := by
  cases p with
  | number e => exact outcome_bind_congr (outcome_quantity e) fun _ => rfl
  | span _ least greatest => exact outcome_rangeOf least greatest
  | _ => rfl

/-- What a phrase means does not depend on what follows its words in the line. -/
theorem outcome_meaning :
    ∀ (p : Phrase) (b : Bool), outcome (p.detached.meaning b) = outcome (p.meaning b)
  | number e, _ => outcome_bind_congr (outcome_quantity e) fun _ => rfl
  | word _, _ => rfl
  | truth _, _ => rfl
  | prefixed operator operand, _ =>
    outcome_bind_congr (outcome_unaryOp operator) fun _ =>
      outcome_bind_congr (outcome_meaning operand false) fun _ => rfl
  | joined operator left right, _ => by
    refine outcome_bind_congr (outcome_binaryOp operator) fun op => ?_
    refine outcome_bind_congr (outcome_meaning left _) fun _ => ?_
    refine outcome_bind_congr (outcome_meaning right _) fun r => ?_
    cases op == .modulo && !canDivide r <;> rfl
  | span _ least greatest, b => by
    rw [detached, meaning, meaning]
    cases b with
    | false => rfl
    | true => exact outcome_rangeOf least greatest
  | list first more, b => by
    rw [detached, meaning, meaning]
    cases b with
    | false => rfl
    | true =>
      refine outcome_bind_congr (outcome_mapM_congr ?_) fun _ => rfl
      rw [detachedItems_eq, ← List.map_cons, List.forall₂_map_left_iff, List.forall₂_same]
      exact fun item _ => outcome_element item
  | paren inner, b => outcome_bind_congr (outcome_meaning inner b) fun _ => rfl

/-- Phrases that are the same tree mean the same, or are complained about alike. -/
theorem SameTree.outcome_meaning {p q : Phrase} (h : p.SameTree q) (b : Bool) :
    outcome (p.meaning b) = outcome (q.meaning b) := by
  rw [← Phrase.outcome_meaning p, ← Phrase.outcome_meaning q, h]

end Phrase

theorem Excerpt.SameText.toString_eq {e e' : Excerpt} (h : e.SameText e') :
    e.toString = e'.toString :=
  congrArg String.ofList h

/-- Excerpts with the same text are the same sample, or are complained about alike. -/
theorem Excerpt.SameText.outcome_ofExcerpt {e e' : Excerpt} (h : e.SameText e') :
    outcome (Sample.ofExcerpt e) = outcome (Sample.ofExcerpt e') := by
  rw [Sample.ofExcerpt, Sample.ofExcerpt, h]
  cases Sample.ofChars? e'.text <;> rfl

namespace Grammar

theorem SameSamples.outcome_ofSegment {g g' : SampleSegment} (h : SameSamples g g') :
    outcome (Samples.ofSegment g) = outcome (Samples.ofSegment g') := by
  have hvalues := outcome_mapM_congr (h.values.imp fun _ _ he => he.outcome_ofExcerpt)
  refine outcome_bind_congr hvalues fun _ => ?_
  rw [h.name.toString_eq]

/-- The same conditions mean the same, or are complained about alike. -/
theorem SameCase.outcome_conditionOf {g g' : CaseSegment} (h : SameCase g g') :
    outcome (Rule.conditionOf g) = outcome (Rule.conditionOf g') := by
  have hconditions := h.conditions
  unfold Rule.conditionOf
  generalize g.conditions = cs at hconditions
  generalize g'.conditions = cs' at hconditions
  cases hconditions with
  | nil => rfl
  | cons hfirst hmore =>
    cases hmore with
    | nil => exact outcome_bind_congr (hfirst.outcome_meaning false) fun _ => rfl
    | cons => rfl

end Grammar

/-- Lines with the same words give the same rule, or they fail with faults of the same kind. -/
theorem Line.SameWords.outcome_ofLine {line line' : Line} (h : line.SameWords line') (n : Nat) :
    outcome (Rule.ofLine n line) = outcome (Rule.ofLine n line') := by
  have hsamples := outcome_mapM_congr (h.samples.imp fun _ _ hg => hg.outcome_ofSegment)
  have hcase := h.case
  unfold Rule.ofLine
  rw [h.info, h.info']
  refine outcome_bind_congr rfl fun label => ?_
  generalize line.case = x at hcase ⊢
  generalize line'.case = y at hcase ⊢
  cases hcase with
  | none => exact outcome_bind_congr rfl fun _ => outcome_bind_congr hsamples fun _ => rfl
  | some hsegment =>
    refine outcome_bind_congr hsegment.outcome_conditionOf fun _ =>
      outcome_bind_congr hsamples fun _ => ?_
    dsimp only
    rw [hsegment.name.toString_eq]

namespace Rule

variable {text text' : String}

/-- Parsing a rule is reading its line and then the parts of the line, as far as places do not
count. -/
theorem mapError_parse (text : String) :
    (parse text).mapError (·.fault.kind) = outcome (readLine text.toList >>= ofLine 1) := by
  show (Except.mapError _ (readLine text.toList >>= ofLine 1)).mapError _ = _
  cases readLine text.toList >>= ofLine 1 <;> rfl

/-- Respacing a text without brackets changes neither its rule nor the kind of its fault. -/
theorem mapError_parse_eq (h : Respaced text.toList text'.toList)
    (hinfo : (Line.parts text.toList).1.info = none) :
    (parse text).mapError (·.fault.kind) = (parse text').mapError (·.fault.kind) := by
  have hread := Line.read_of_respaced h hinfo
  rw [mapError_parse, mapError_parse]
  unfold readLine
  generalize Line.read text.toList = x at hread ⊢
  generalize Line.read text'.toList = y at hread ⊢
  match x, y, hread with
  | .ok line, .ok line', hwords => exact hwords.outcome_ofLine 1
  | .error rest, .error rest', _ => rfl

/-- A text without brackets is the same rule, with the same fingerprint, however the blanks between
its words are chosen, as long as there are blanks where there have been some before. And if it is no
rule, then it has a fault of the same kind. -/
theorem parse_of_respaced (h : Respaced text.toList text'.toList)
    (hinfo : (Line.parts text.toList).1.info = none) :
    (∀ rule, parse text = .ok rule ↔ parse text' = .ok rule) ∧
    (∀ rule rule', parse text = .ok rule → parse text' = .ok rule' →
      rule.fingerprint = rule'.fingerprint) ∧
    ∀ e, parse text = .error e → ∃ e', parse text' = .error e' ∧ e'.fault.kind = e.fault.kind := by
  have hsame := mapError_parse_eq h hinfo
  have hrule : ∀ rule, parse text = .ok rule ↔ parse text' = .ok rule := by
    intro rule
    rw [← mapError_eq_ok (x := parse text), hsame, mapError_eq_ok]
  refine ⟨hrule, fun rule rule' hok hok' => ?_, fun e he => ?_⟩
  · cases ((hrule rule).mp hok).symm.trans hok'
    rfl
  · rw [he] at hsame
    cases he' : parse text' with
    | ok rule => rw [he'] at hsame; cases hsame
    | error e' => rw [he'] at hsame; exact ⟨e', rfl, (Except.error.inj hsame).symm⟩

/-- Blanks of all kinds between the words of a rule, newlines among them, and a line with a second
condition. -/
theorem parse_of_respaced_of_newlines :
    (∃ rule, parse "few: n=2..4\t@x 1,…" = .ok rule ∧
      parse "few:\n\nn=2..4 @x\u30001,…" = .ok rule) ∧
    ∃ e e', parse "few: n=1 v=0" = .error e ∧ parse "few:\u0085n=1\t\nv=0" = .error e' ∧
      e'.fault.kind = e.fault.kind := by
  constructor
  · have h : Respaced "few: n=2..4\t@x 1,…".toList "few:\n\nn=2..4 @x\u30001,…".toList := by
      show Respaced
          ("few:".toList ++ (" ".toList ++ ("n=2..4".toList ++ ("\t".toList ++ ("@x".toList ++
          (" ".toList ++ ("1,…".toList ++ [])))))))
        ("few:".toList ++ ("\n\n".toList ++ ("n=2..4".toList ++ (" ".toList ++ ("@x".toList ++
          ("\u3000".toList ++ ("1,…".toList ++ [])))))))
      exact .append (by decide) (.gap (by decide) (by decide) (by decide) (by decide) (by decide)
        (.append (by decide) (.gap (by decide) (by decide) (by decide) (by decide) (by decide)
          (.append (by decide) (.gap (by decide) (by decide) (by decide) (by decide) (by decide)
            (.append (by decide) .nil))))))
    have hinfo : (Line.parts "few: n=2..4\t@x 1,…".toList).1.info = none :=
      Option.isNone_iff_eq_none.mp (by decide +kernel)
    have hok : (parse "few: n=2..4\t@x 1,…").toOption.isSome = true := by decide +kernel
    cases hrule : parse "few: n=2..4\t@x 1,…" with
    | error e => rw [hrule] at hok; cases hok
    | ok rule => exact ⟨rule, rfl, ((parse_of_respaced h hinfo).1 rule).mp hrule⟩
  · have h : Respaced "few: n=1 v=0".toList "few:\u0085n=1\t\nv=0".toList := by
      show Respaced
          ("few:".toList ++ (" ".toList ++ ("n=1".toList ++ (" ".toList ++ ("v=0".toList ++ [])))))
        ("few:".toList ++
          ("\u0085".toList ++ ("n=1".toList ++ ("\t\n".toList ++ ("v=0".toList ++ [])))))
      exact .append (by decide) (.gap (by decide) (by decide) (by decide) (by decide) (by decide)
        (.append (by decide) (.gap (by decide) (by decide) (by decide) (by decide) (by decide)
          (.append (by decide) .nil))))
    have hinfo : (Line.parts "few: n=1 v=0".toList).1.info = none :=
      Option.isNone_iff_eq_none.mp (by decide +kernel)
    have herror : parse "few: n=1 v=0" = .error ⟨⟨1, 10⟩, .repeatedCondition "few" "v=0"⟩ := by
      decide +kernel
    obtain ⟨e', he', hkind⟩ := (parse_of_respaced h hinfo).2.2 _ herror
    exact ⟨_, e', herror, he', hkind⟩

end Rule

end PluralRules
