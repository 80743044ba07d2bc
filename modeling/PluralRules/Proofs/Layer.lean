import PluralRules.Proofs.Numeral
import PluralRules.Proofs.Result
import PluralRules.Proofs.Shape

/-!
# The layers of the grammar

What the readers of the grammar return, layer by layer. A layer has the number that the printer
gives to the strength of its operators (`Expr.strength`): lists 5, ranges 6, arithmetic 7, signs 8,
and 9 for what holds together by itself; above the values, disjunctions 1, conjunctions 2, negations
3 and comparisons 4. A phrase of one layer belongs to all looser ones.

The readers are gone through once, for every relation between texts and phrases that the rules of
the grammar keep (`Grammar.Closed`). That phrases are of their layers is one such relation
(`Grammar.closed_layers`).
-/

namespace PluralRules

open Reader

namespace Grammar

/-! ### Words and marks -/

/-- The text of a number: digits, and then if present a point with digits. -/
def IsNumberText (s : List Char) : Prop :=
  ∃ whole fraction, s = whole ++ Numeral.pointChars fraction ∧ Numeral.IsDigits whole ∧
    ∀ c ∈ fraction, c.isDigit = true

def IsArithmeticText (s : List Char) : Prop :=
  s = "mod".toList ∨ ∃ c, s = [c] ∧ isArithmeticChar c = true

def IsComparisonText (s : List Char) : Prop := s ≠ [] ∧ ∀ c ∈ s, isComparisonChar c = true

/-- The excerpt is the text that was read, and the text has a property. -/
def Excerpts (Q : List Char → Prop) (text : List Char) (e : Excerpt) : Prop :=
  e.text = text ∧ Q text

theorem Excerpts.mono {Q Q' : List Char → Prop} {text : List Char} {e : Excerpt}
    (h : Excerpts Q text e) (himp : Q text → Q' text) : Excerpts Q' text e :=
  ⟨h.1, himp h.2⟩

/-- What stands before a rest is the text that the rest was cut off from. -/
theorem before_append (text rest : List Char) :
    Excerpt.before (text ++ rest) rest = ⟨text, rest⟩ := by
  simp [Excerpt.before]

/-- The excerpt of an item is the text that the item was read from. -/
theorem takes_excerptOf {α : Type} {item : Reader α} {Q : List Char → α → Prop} (h : Takes item Q) :
    Takes (excerptOf item) fun text e => e.text = text ∧ ∃ a, Q text a := by
  intro s e rest hs
  obtain ⟨⟨a, r⟩, ha, heq⟩ := Option.bind_eq_some_iff.mp hs
  obtain ⟨text, rfl, hq⟩ := h ha
  dsimp only at heq
  rw [before_append] at heq
  cases heq
  exact ⟨text, rfl, rfl, a, hq⟩

/-- A run holds only characters with the property, and at least one. -/
theorem takes_runOf (p : Char → Bool) :
    Takes (runOf p) fun _ e => e.text ≠ [] ∧ ∀ c ∈ e.text, p c = true := by
  apply (takes_excerptOf (takes_run p)).mono
  rintro text e ⟨rfl, _, -, hne, hall⟩
  exact ⟨hne, hall⟩

/-- The excerpt of a keyword is the keyword. -/
theorem takes_keyword (text : String) : Takes (keyword text) (Excerpts (· = text.toList)) := by
  intro s e rest hs
  obtain ⟨⟨e', r⟩, he, hend⟩ := Option.bind_eq_some_iff.mp hs
  dsimp only at hend
  split at hend
  · cases hend
  · cases hend
    obtain ⟨t, rfl, ht, -, hq⟩ := takes_excerptOf (takes_literal text.toList) he
    exact ⟨t, rfl, ht, hq⟩

theorem takes_word : Takes word (Excerpts IsWord) := by
  intro s e rest hs
  obtain ⟨⟨e', r⟩, he, hend⟩ := Option.bind_eq_some_iff.mp hs
  dsimp only at hend
  split at hend
  · cases hend
  · next hreserved =>
    cases hend
    obtain ⟨text, rfl, rfl, _, -, hne, hall⟩ := takes_excerptOf (takes_run isWordChar) he
    exact ⟨_, rfl, rfl, hne, hall, by simpa using hreserved⟩

/-- A number is digits with or without a fraction. -/
theorem takes_number : Takes number (Excerpts IsNumberText) := by
  have hitem := Numeral.takes_digits.thenOptional Numeral.takes_pointAndDigits
  apply (takes_excerptOf hitem).mono
  rintro _ e ⟨rfl, _, whole, point, htext, ⟨_, -, hwhole⟩, hpoint⟩
  refine ⟨rfl, ?_⟩
  rw [htext]
  rcases hpoint with rfl | ⟨fraction, rfl, hfraction⟩
  · exact ⟨whole, [], rfl, hwhole, nofun⟩
  · exact ⟨whole, fraction, by rw [Numeral.pointChars_eq hfraction.1], hwhole, hfraction.2⟩

/-! ### Phrases by layers -/

inductive IsValue : Nat → Phrase → Prop
  | number {text : Excerpt} : IsNumberText text.text → IsValue 9 (.number text)
  | word {text : Excerpt} : IsWord text.text → IsValue 9 (.word text)
  | paren {inner : Phrase} : IsValue 5 inner → IsValue 9 (.paren inner)
  | signed {operator : Excerpt} {operand : Phrase} :
      (∃ c, operator.text = [c] ∧ isSignChar c = true) → IsValue 8 operand →
      IsValue 8 (.prefixed operator operand)
  | arithmetic {operator : Excerpt} {left right : Phrase} : IsArithmeticText operator.text →
      IsValue 7 left → IsValue 8 right → IsValue 7 (.joined operator left right)
  | span {dots : Excerpt} {least greatest : Phrase} : IsValue 7 least → IsValue 7 greatest →
      IsValue 6 (.span dots least greatest)
  | list {first : Phrase} {more : List Phrase} : more ≠ [] →
      (∀ item ∈ first :: more, IsValue 6 item) → IsValue 5 (.list first more)
  | looser {k : Nat} {phrase : Phrase} : IsValue (k + 1) phrase → IsValue k phrase

inductive IsCondition : Nat → Phrase → Prop
  | truth {text : Excerpt} : text.text = "true".toList ∨ text.text = "false".toList →
      IsCondition 4 (.truth text)
  | comparison {operator : Excerpt} {left right : Phrase} : IsComparisonText operator.text →
      IsValue 5 left → IsValue 5 right → IsCondition 4 (.joined operator left right)
  | paren {inner : Phrase} : IsCondition 1 inner → IsCondition 4 (.paren inner)
  | negation {operator : Excerpt} {operand : Phrase} : operator.text = "not".toList →
      IsCondition 3 operand → IsCondition 3 (.prefixed operator operand)
  | conjunction {operator : Excerpt} {left right : Phrase} : operator.text = "and".toList →
      IsCondition 2 left → IsCondition 3 right → IsCondition 2 (.joined operator left right)
  | disjunction {operator : Excerpt} {left right : Phrase} :
      operator.text = "or".toList ∨ operator.text = "xor".toList →
      IsCondition 1 left → IsCondition 2 right → IsCondition 1 (.joined operator left right)
  | looser {k : Nat} {phrase : Phrase} : IsCondition (k + 1) phrase → IsCondition k phrase

/-! ### Relations that the rules of the grammar keep -/

/-- The text is three texts in a row, with blanks between them or not. -/
def Spaced (left middle right text : List Char) : Prop :=
  ∃ gap gap', IsGap gap ∧ IsGap gap' ∧ text = left ++ (gap ++ (middle ++ (gap' ++ right)))

/-- The text of an item behind the first one of a list. -/
def FollowsComma (Q : List Char → Phrase → Prop) (text : List Char) (item : Phrase) : Prop :=
  ∃ t, Q t item ∧ Spaced [] [','] t text

/-- Relations between texts and phrases, one for every layer of values and of conditions, that hold
of all that the rules of the grammar make, if they hold of what it is made of. They hold then of all
that is read. -/
structure Closed (V C : Nat → List Char → Phrase → Prop) : Prop where
  number {e : Excerpt} : IsNumberText e.text → V 9 e.text (.number e)
  word {e : Excerpt} : IsWord e.text → V 9 e.text (.word e)
  paren {t text : List Char} {inner : Phrase} : V 5 t inner → Spaced ['('] t [')'] text →
    V 9 text (.paren inner)
  signed {operator : Excerpt} {t text : List Char} {operand : Phrase} :
    (∃ c, operator.text = [c] ∧ isSignChar c = true) → V 8 t operand →
    Spaced [] operator.text t text →
    V 8 text (.prefixed operator operand)
  arithmetic {operator : Excerpt} {t u text : List Char} {left right : Phrase} :
    IsArithmeticText operator.text → V 7 t left → V 8 u right → Spaced t operator.text u text →
    V 7 text (.joined operator left right)
  span {dots : Excerpt} {t u text : List Char} {least greatest : Phrase} : dots.text = ['.', '.'] →
    V 7 t least → V 7 u greatest → Spaced t dots.text u text → V 6 text (.span dots least greatest)
  list {t : List Char} {texts : List (List Char)} {first : Phrase} {more : List Phrase} :
    more ≠ [] →
    V 6 t first → List.Forall₂ (FollowsComma (V 6)) texts more →
    V 5 (t ++ texts.flatten) (.list first more)
  looserValue {k : Nat} {text : List Char} {phrase : Phrase} : V (k + 1) text phrase →
    V k text phrase
  truth {e : Excerpt} : e.text = "true".toList ∨ e.text = "false".toList → C 4 e.text (.truth e)
  comparison {operator : Excerpt} {t u text : List Char} {left right : Phrase} :
    IsComparisonText operator.text → V 5 t left → V 5 u right → Spaced t operator.text u text →
    C 4 text (.joined operator left right)
  parenCondition {t text : List Char} {inner : Phrase} : C 1 t inner → Spaced ['('] t [')'] text →
    C 4 text (.paren inner)
  negation {operator : Excerpt} {t text : List Char} {operand : Phrase} :
    operator.text = "not".toList →
    C 3 t operand → Spaced [] operator.text t text → C 3 text (.prefixed operator operand)
  conjunction {operator : Excerpt} {t u text : List Char} {left right : Phrase} :
    operator.text = "and".toList → C 2 t left → C 3 u right → Spaced t operator.text u text →
    C 2 text (.joined operator left right)
  disjunction {operator : Excerpt} {t u text : List Char} {left right : Phrase} :
    operator.text = "or".toList ∨ operator.text = "xor".toList → C 1 t left → C 2 u right →
    Spaced t operator.text u text → C 1 text (.joined operator left right)
  looserCondition {k : Nat} {text : List Char} {phrase : Phrase} : C (k + 1) text phrase →
    C k text phrase

/-- The layers of values and of conditions are closed under all forms that a phrase can take. -/
theorem closed_layers : Closed (fun k _ p => IsValue k p) (fun k _ p => IsCondition k p) where
  number := .number
  word := .word
  paren h _ := .paren h
  signed ho h _ := .signed ho h
  arithmetic ho hl hr _ := .arithmetic ho hl hr
  span _ hl hg _ := .span hl hg
  list hmore hfirst hall := .list hmore <| List.forall_mem_cons.mpr
    ⟨hfirst, forall_right hall fun _ _ _ ⟨_, hitem, _⟩ => hitem⟩
  looserValue := .looser
  truth := .truth
  comparison ho hl hr _ := .comparison ho hl hr
  parenCondition h _ := .paren h
  negation ho h _ := .negation ho h
  conjunction ho hl hr _ := .conjunction ho hl hr
  disjunction ho hl hr _ := .disjunction ho hl hr
  looserCondition := .looser

/-! ### What the shapes return that several layers share -/

section Shared

variable {operator : Reader Excerpt} {operand : Reader Phrase} {O : List Char → Prop}
  {P R : List Char → Phrase → Prop}

/-- The items of a row all have the property that the reader of one item ensures. -/
theorem forall_many {α : Type} {item : Reader α} {R : α → Prop} (h : Takes item fun _ a => R a)
    (s : List Char) : (∃ text, s = text ++ (many item s).2) ∧ ∀ a ∈ (many item s).1, R a := by
  obtain ⟨texts, hs, hall⟩ := h.many s
  exact ⟨⟨texts.flatten, hs⟩, forall_right hall fun _ _ _ hR => hR⟩

/-- An operator and the operand behind it, as the text behind an operand on the left. -/
def Links (O : List Char → Prop) (P : List Char → Phrase → Prop) (text : List Char)
    (x : Excerpt × Phrase) : Prop :=
  ∃ t, O x.1.text ∧ P t x.2 ∧ Spaced [] x.1.text t text

/-- Text in front of the first part belongs to that part. -/
theorem Spaced.append {middle right text : List Char} (h : Spaced [] middle right text)
    (left : List Char) : Spaced left middle right (left ++ text) := by
  obtain ⟨gap, gap', hgap, hgap', rfl⟩ := h
  exact ⟨gap, gap', hgap, hgap', rfl⟩

/-- A link is an operator, blanks and an operand. -/
theorem takes_link (hoperator : Takes operator (Excerpts O)) (hoperand : Takes operand P) :
    Takes (link operator operand) (Links O P) := by
  apply (hoperator.pair hoperand).skipping.mono
  rintro _ ⟨e, p⟩ ⟨gap, _, hgap, rfl, t, gap', u, hgap', rfl, ⟨rfl, ho⟩, hp⟩
  exact ⟨u, ho, hp, gap, gap', hgap, hgap', by simp⟩

/-- A chain has what its first operand has and what joining keeps. -/
theorem takes_chain (hoperator : Takes operator (Excerpts O)) (hoperand : Takes operand P)
    (hfirst : ∀ {text p}, P text p → R text p)
    (hjoin : ∀ {e t u text left right}, O e.text → R t left → P u right → Spaced t e.text u text →
      R text (.joined e left right)) : Takes (chain operator operand) R := by
  intro s p rest hs
  obtain ⟨⟨first, s₁⟩, hread, hend⟩ := Option.bind_eq_some_iff.mp hs
  obtain ⟨text, rfl, hp⟩ := hoperand hread
  obtain ⟨texts, hs₁, hall⟩ := (takes_link hoperator hoperand).many s₁
  cases hend
  refine ⟨text ++ texts.flatten, by rw [List.append_assoc, ← hs₁], ?_⟩
  -- The chain groups to the left: what has been joined so far is always the left operand.
  have hfold : ∀ {links texts}, List.Forall₂ (Links O P) texts links → ∀ {text left}, R text left →
      R (text ++ texts.flatten) (links.foldl (fun left x => .joined x.1 left x.2) left) := by
    intro links texts hall
    induction hall with
    | nil => intro text left hleft; simpa using hleft
    | cons hx _ ih =>
      intro text left hleft
      obtain ⟨u, ho, hp, hspaced⟩ := hx
      rw [List.flatten_cons, ← List.append_assoc]
      exact ih (hjoin ho hleft hp (hspaced.append text))
  exact hfold hall (hfirst hp)

/-- A marked operand has what the operand has and what a mark keeps. -/
theorem takes_marked {mark : Reader Excerpt} (hmark : Takes mark (Excerpts O))
    (hoperand : Takes operand P) (hlast : ∀ {text p}, P text p → R text p)
    (hmarked : ∀ {e t text p}, O e.text → R t p → Spaced [] e.text t text →
      R text (.prefixed e p)) :
    Takes (marked mark operand) R := by
  have hthen : Takes (thenBlanks mark) fun text e => ∃ gap, O e.text ∧ IsGap gap ∧
      text = e.text ++ gap := by
    intro s e rest hs
    obtain ⟨⟨e', r⟩, he, heq⟩ := Option.map_eq_some_iff.mp hs
    cases heq
    obtain ⟨_, rfl, rfl, ho⟩ := hmark he
    obtain ⟨gap, hgap, heq⟩ := gap_skipBlanks r
    exact ⟨e.text ++ gap, by rw [List.append_assoc, ← heq], gap, ho, hgap, rfl⟩
  intro s p rest hs
  obtain ⟨texts, htexts, hall⟩ := hthen.many s
  obtain ⟨⟨last, s₁⟩, hread, hend⟩ := Option.bind_eq_some_iff.mp hs
  obtain ⟨text, hs₁, hp⟩ := hoperand hread
  cases hend
  refine ⟨texts.flatten ++ text, by rw [List.append_assoc, ← hs₁]; exact htexts, ?_⟩
  -- the mark nearest to the operand is put in front of it first
  clear htexts
  generalize (many (thenBlanks mark) s).1 = marks at hall
  induction hall with
  | nil => exact hlast hp
  | cons hx _ ih =>
    obtain ⟨gap, ho, hgap, rfl⟩ := hx
    exact hmarked ho ih ⟨[], gap, nofun, hgap, by simp⟩

/-- A phrase in parentheses may have blanks inside them. -/
theorem takes_parenthesized (hoperand : Takes operand P)
    (hparen : ∀ {t text p}, P t p → Spaced ['('] t [')'] text → R text (.paren p)) :
    Takes (parenthesized operand) R := by
  apply (hoperand.between).map
  rintro _ p ⟨gap, t, gap', hgap, hgap', rfl, hp⟩
  exact hparen hp ⟨gap, gap', hgap, hgap', by simp⟩

end Shared

/-! ### What each layer returns -/

theorem takes_arithmeticMark : Takes arithmeticMark (Excerpts IsArithmeticText) := by
  refine ((takes_keyword "mod").mono fun _ _ h => h.mono Or.inl).orElse ?_
  apply (takes_excerptOf (takes_satisfying isArithmeticChar)).mono
  rintro text e ⟨he, c, hc⟩
  exact ⟨he, Or.inr ⟨c, hc⟩⟩

theorem takes_comparisonMark : Takes comparisonMark (Excerpts IsComparisonText) := by
  have hchar := takes_satisfying isComparisonChar
  apply (takes_excerptOf (hchar.thenOptional hchar)).mono
  rintro _ e ⟨rfl, _, t, u, htext, ⟨c, rfl, hc⟩, hmore⟩
  refine ⟨rfl, ?_⟩
  rw [htext]
  rcases hmore with rfl | ⟨d, rfl, hd⟩
  · exact ⟨List.cons_ne_nil c [], List.forall_mem_singleton.mpr hc⟩
  · exact ⟨List.cons_ne_nil c [d], List.forall_mem_cons.mpr ⟨hc, List.forall_mem_singleton.mpr hd⟩⟩

section Layers

variable {V C : Nat → List Char → Phrase → Prop} {inner valueReader : Reader Phrase}
  (h : Closed V C)
include h

/-- A number, a word and a value in parentheses hold together most strongly. -/
theorem takes_primary (hinner : Takes inner (V 5)) : Takes (primary inner) (V 9) := by
  refine Takes.orElse (takes_number.map ?_) (Takes.orElse (takes_word.map ?_)
    (takes_parenthesized hinner h.paren))
  · rintro _ e ⟨rfl, hnumber⟩
    exact h.number hnumber
  · rintro _ e ⟨rfl, hword⟩
    exact h.word hword

/-- Signs bind the value behind them. -/
theorem takes_signed (hinner : Takes inner (V 5)) : Takes (signed inner) (V 8) := by
  have hsign : Takes (excerptOf (satisfying isSignChar))
      (Excerpts fun text => ∃ c, text = [c] ∧ isSignChar c = true) :=
    takes_excerptOf (takes_satisfying isSignChar)
  exact takes_marked hsign (takes_primary h hinner) h.looserValue h.signed

/-- Arithmetic groups to the left. -/
theorem takes_arithmetic (hinner : Takes inner (V 5)) : Takes (arithmetic inner) (V 7) :=
  takes_chain takes_arithmeticMark (takes_signed h hinner) h.looserValue h.arithmetic

/-- The ends of a range are values tighter than ranges. -/
theorem takes_range (hinner : Takes inner (V 5)) : Takes (range inner) (V 6) := by
  intro s p rest hs
  obtain ⟨⟨least, s₁⟩, hleast, hend⟩ := Option.bind_eq_some_iff.mp hs
  obtain ⟨text, rfl, hl⟩ := takes_arithmetic h hinner hleast
  have hdots : Takes dots (Excerpts (· = ['.', '.'])) :=
    (takes_excerptOf (takes_literal ['.', '.'])).mono fun _ _ ⟨he, _, ht⟩ => ⟨he, ht⟩
  dsimp only at hend
  split at hend
  · next e greatest s₂ hspan =>
    cases hend
    obtain ⟨text', rfl, u, he, hg, hspaced⟩ := takes_link hdots (takes_arithmetic h hinner) hspan
    exact ⟨text ++ text', (List.append_assoc ..).symm, h.span he hl hg (hspaced.append text)⟩
  · cases hend
    exact ⟨text, rfl, h.looserValue hl⟩

/-- The items of a list are values tighter than lists. -/
theorem takes_list (hinner : Takes inner (V 5)) : Takes (list inner) (V 5) := by
  intro s p rest hs
  obtain ⟨⟨⟨first, more⟩, s₁⟩, hread, hend⟩ := Option.bind_eq_some_iff.mp hs
  obtain ⟨_, rfl, text, texts, rfl, hfirst, hall⟩ := (takes_range h hinner).commaSeparated hread
  cases more with
  | nil =>
    cases hend
    cases hall
    exact ⟨text ++ [], rfl, by simpa using h.looserValue hfirst⟩
  | cons second more =>
    cases hend
    refine ⟨_, rfl, h.list (List.cons_ne_nil second more) hfirst (hall.imp ?_)⟩
    rintro _ item ⟨gap, gap', t, hgap, hgap', rfl, hitem⟩
    exact ⟨t, hitem, gap, gap', hgap, hgap', by simp⟩

theorem takes_value : ∀ depth : Nat, Takes (value depth) (V 5)
  | 0 => fun _ _ _ h => by cases h
  | depth + 1 => takes_list h (takes_value depth)

/-- A comparison stands between two values. -/
theorem takes_comparison (hvalue : Takes valueReader (V 5)) :
    Takes (comparison valueReader) (C 4) := by
  intro s p rest hs
  obtain ⟨⟨left, s₁⟩, hleft, hrest⟩ := Option.bind_eq_some_iff.mp hs
  obtain ⟨⟨⟨operator, right⟩, s₂⟩, hlink, hend⟩ := Option.bind_eq_some_iff.mp hrest
  obtain ⟨text, rfl, hl⟩ := hvalue hleft
  obtain ⟨text', rfl, u, ho, hr, hspaced⟩ := takes_link takes_comparisonMark hvalue hlink
  cases hend
  exact ⟨text ++ text', (List.append_assoc ..).symm, h.comparison ho hl hr (hspaced.append text)⟩

/-- Comparisons, truth values and conditions in parentheses hold together most strongly among
conditions. -/
theorem takes_simpleCondition (hvalue : Takes valueReader (V 5)) (hinner : Takes inner (C 1)) :
    Takes (simpleCondition valueReader inner) (C 4) := by
  have htruth : Takes (orElse (keyword "true") (keyword "false"))
      (Excerpts fun text => text = "true".toList ∨ text = "false".toList) :=
    ((takes_keyword "true").mono fun _ _ h => h.mono Or.inl).orElse
      ((takes_keyword "false").mono fun _ _ h => h.mono Or.inr)
  refine Takes.orElse (htruth.map ?_)
    ((takes_comparison h hvalue).orElse (takes_parenthesized hinner h.parenCondition))
  rintro _ e ⟨rfl, htext⟩
  exact h.truth htext

/-- Chains of `or` and `xor` hold together least. -/
theorem takes_disjunction (hvalue : Takes valueReader (V 5)) (hinner : Takes inner (C 1)) :
    Takes (disjunction valueReader inner) (C 1) := by
  have hnegation : Takes (negation valueReader inner) (C 3) :=
    takes_marked (takes_keyword "not") (takes_simpleCondition h hvalue hinner)
      h.looserCondition h.negation
  have hconjunction : Takes (conjunction valueReader inner) (C 2) :=
    takes_chain (takes_keyword "and") hnegation h.looserCondition h.conjunction
  have hmark : Takes (orElse (keyword "or") (keyword "xor"))
      (Excerpts fun text => text = "or".toList ∨ text = "xor".toList) :=
    ((takes_keyword "or").mono fun _ _ h => h.mono Or.inl).orElse
      ((takes_keyword "xor").mono fun _ _ h => h.mono Or.inr)
  exact takes_chain hmark hconjunction h.looserCondition h.disjunction

/-- The reader for conditions takes conditions, at every depth. -/
theorem takes_condition : ∀ depth : Nat, Takes (condition depth) (C 1)
  | 0 => fun _ _ _ h => by cases h
  | depth + 1 => takes_disjunction h (takes_value h (depth + 1)) (takes_condition depth)

/-- What is read as a condition stands in the relation of the loosest layer to its text. -/
theorem takes_conditionReader : Takes conditionReader (C 1) :=
  fun s _ _ hs => takes_condition h (s.length + 1) hs

end Layers

end Grammar

end PluralRules
