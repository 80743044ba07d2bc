import PluralRules.Proofs.Rules

/-!
# Phrases spell their text

What is read as a condition is all of the text that it was read from, and nothing else: the words
and the marks of the phrase, in the order in which they stand in the tree, are the text without its
blanks (`Phrase.spelled`). So no attempt at reading that was given up has left anything behind, and
nothing was read twice.

And the tree is the one that the layers of the grammar stand for (`Phrase.Binds`). Apart from
parentheses, no operand holds together more weakly than its operator, and chains of operators group
to the left.

Both are relations that the rules of the grammar keep (`Grammar.Closed`), so they hold of all that
is read (`Line.spelled_of_read`).
-/

namespace PluralRules

open Reader Grammar

/-! ### Texts without blanks -/

namespace Text

def withoutBlanks (s : List Char) : List Char := s.filter (!isBlank ·)

theorem withoutBlanks_append (s t : List Char) :
    withoutBlanks (s ++ t) = withoutBlanks s ++ withoutBlanks t := List.filter_append ..

theorem withoutBlanks_of_isGap {s : List Char} (h : IsGap s) : withoutBlanks s = [] :=
  List.filter_eq_nil_iff.mpr fun c hc => by simp [h c hc]

theorem withoutBlanks_eq_self {s : List Char} (h : ∀ c ∈ s, isBlank c = false) :
    withoutBlanks s = s :=
  List.filter_eq_self.mpr fun c hc => by simp [h c hc]

/-- Blanks between three texts do not count. -/
theorem withoutBlanks_of_spaced {left middle right text : List Char}
    (h : Spaced left middle right text) :
    withoutBlanks text = withoutBlanks left ++ (withoutBlanks middle ++ withoutBlanks right) := by
  obtain ⟨gap, gap', hgap, hgap', rfl⟩ := h
  simp [withoutBlanks_append, withoutBlanks_of_isGap hgap, withoutBlanks_of_isGap hgap']

end Text

open Text

/-! ### Words and marks -/

namespace Grammar

variable {s : List Char} {c : Char}

theorem isBlank_of_isSignChar (h : isSignChar c = true) : isBlank c = false := by
  simp only [isSignChar, Bool.or_eq_true, beq_iff_eq] at h
  rcases h with (rfl | rfl) | rfl <;> decide

theorem isBlank_of_isArithmeticChar (h : isArithmeticChar c = true) : isBlank c = false := by
  simp only [isArithmeticChar, Bool.or_eq_true, beq_iff_eq] at h
  rcases h with (((rfl | rfl) | rfl) | rfl) | rfl <;> decide

theorem isBlank_of_isComparisonChar (h : isComparisonChar c = true) : isBlank c = false := by
  simp only [isComparisonChar, Bool.or_eq_true, beq_iff_eq] at h
  rcases h with ((rfl | rfl) | rfl) | rfl <;> decide

theorem IsNumberText.withoutBlanks_eq (h : IsNumberText s) : withoutBlanks s = s := by
  obtain ⟨whole, fraction, rfl, hwhole, hfraction⟩ := h
  have hdigit : ∀ c, c.isDigit = true → isBlank c = false :=
    fun c hc => isBlank_of_isNameChar (isNameChar_of_isDigit hc)
  refine withoutBlanks_eq_self
    (List.forall_mem_append.mpr ⟨fun c hc => hdigit c (hwhole.2 c hc), ?_⟩)
  cases fraction with
  | nil => exact nofun
  | cons d fraction =>
    rw [Numeral.pointChars_eq (List.cons_ne_nil d fraction)]
    exact List.forall_mem_cons.mpr ⟨by decide, fun c hc => hdigit c (hfraction c hc)⟩

theorem IsWord.withoutBlanks_eq (h : IsWord s) : withoutBlanks s = s :=
  withoutBlanks_eq_self fun c hc => isBlank_of_isNameChar (isNameChar_of_isWordChar (h.2.1 c hc))

theorem IsArithmeticText.withoutBlanks_eq (h : IsArithmeticText s) : withoutBlanks s = s := by
  rcases h with rfl | ⟨c, rfl, hc⟩
  · decide
  · exact withoutBlanks_eq_self (List.forall_mem_singleton.mpr (isBlank_of_isArithmeticChar hc))

theorem IsComparisonText.withoutBlanks_eq (h : IsComparisonText s) : withoutBlanks s = s :=
  withoutBlanks_eq_self fun c hc => isBlank_of_isComparisonChar (h.2 c hc)

end Grammar

/-! ### Trees -/

namespace Phrase

mutual

/-- The words and the marks of a phrase, in the order in which they stand in the tree. -/
def spelled : Phrase → List Char
  | number text | word text | truth text => text.text
  | prefixed operator operand => operator.text ++ spelled operand
  | joined operator left right => spelled left ++ (operator.text ++ spelled right)
  | span dots least greatest => spelled least ++ (dots.text ++ spelled greatest)
  | list first more => spelled first ++ spelledBehind more
  | paren inner => '(' :: (spelled inner ++ [')'])

def spelledBehind : List Phrase → List Char
  | [] => []
  | item :: more => ',' :: (spelled item ++ spelledBehind more)

end

mutual

/-- The phrases within a phrase, and the phrase itself. -/
def nodes : Phrase → List Phrase
  | prefixed operator operand => prefixed operator operand :: nodes operand
  | joined operator left right => joined operator left right :: (nodes left ++ nodes right)
  | span dots least greatest => span dots least greatest :: (nodes least ++ nodes greatest)
  | list first more => list first more :: (nodes first ++ itemNodes more)
  | paren inner => paren inner :: nodes inner
  | p => [p]

def itemNodes : List Phrase → List Phrase
  | [] => []
  | item :: more => nodes item ++ itemNodes more

end

theorem mem_itemNodes {node : Phrase} : ∀ {items : List Phrase},
    node ∈ itemNodes items ↔ ∃ item ∈ items, node ∈ nodes item
  | [] => by simp [itemNodes]
  | item :: more => by simp [itemNodes, mem_itemNodes]

/-- The layer of an operator between two operands. -/
def joinedLayer (operator : List Char) : Nat :=
  if operator = "or".toList ∨ operator = "xor".toList then 1
  else if operator = "and".toList then 2
  else if operator.all isComparisonChar then 4
  else 7

/-- The layer of a phrase, by the operator that holds it together: `or` and `xor` 1, `and` 2, `not`
3, comparisons 4 like the truth values, lists 5, ranges 6, arithmetic 7, signs 8, and 9 for numbers,
words and parentheses. -/
def layer : Phrase → Nat
  | number _ | word _ | paren _ => 9
  | truth _ => 4
  | prefixed operator _ => if operator.text = "not".toList then 3 else 8
  | joined operator _ _ => joinedLayer operator.text
  | span .. => 6
  | list .. => 5

/-- The operands of the outermost operator are of layers that may stand there. An operand on the
right is of a tighter layer than its operator, so chains group to the left. Comparisons, ranges and
lists are no chains. -/
def Binds : Phrase → Prop
  | prefixed operator operand => (prefixed operator operand).layer ≤ operand.layer
  | joined operator left right =>
    joinedLayer operator.text ≤ left.layer ∧ joinedLayer operator.text < right.layer ∧
      (joinedLayer operator.text = 4 → 4 < left.layer)
  | span _ least greatest => 6 < least.layer ∧ 6 < greatest.layer
  | list first more => ∀ item ∈ first :: more, 5 < item.layer
  | _ => True

end Phrase

namespace Grammar

variable {k : Nat} {p : Phrase}

/-- Arithmetic is of layer 7. -/
theorem joinedLayer_of_isArithmeticText {s : List Char} (h : IsArithmeticText s) :
    Phrase.joinedLayer s = 7 := by
  rcases h with rfl | ⟨c, rfl, hc⟩
  · decide
  · simp only [isArithmeticChar, Bool.or_eq_true, beq_iff_eq] at hc
    rcases hc with (((rfl | rfl) | rfl) | rfl) | rfl <;> decide

theorem joinedLayer_of_isComparisonText {s : List Char} (h : IsComparisonText s) :
    Phrase.joinedLayer s = 4 := by
  obtain ⟨hne, hall⟩ := h
  have hor : ¬ (s = "or".toList ∨ s = "xor".toList) := by
    rintro (rfl | rfl)
    · exact absurd (hall 'o' (by decide)) (by decide)
    · exact absurd (hall 'x' (by decide)) (by decide)
  have hand : s ≠ "and".toList := by
    rintro rfl
    exact absurd (hall 'a' (by decide)) (by decide)
  rw [Phrase.joinedLayer, if_neg hor, if_neg hand, if_pos (List.all_eq_true.mpr hall)]

theorem joinedLayer_of_and {s : List Char} (h : s = "and".toList) : Phrase.joinedLayer s = 2 := by
  rw [h]
  decide

theorem joinedLayer_of_or {s : List Char} (h : s = "or".toList ∨ s = "xor".toList) :
    Phrase.joinedLayer s = 1 := if_pos h

theorem layer_of_sign {operator : Excerpt} {operand : Phrase}
    (h : ∃ c, operator.text = [c] ∧ isSignChar c = true) :
    (Phrase.prefixed operator operand).layer = 8 := by
  obtain ⟨c, hc, -⟩ := h
  have hnot : operator.text ≠ "not".toList := by
    rw [hc]
    nofun
  rw [Phrase.layer, if_neg hnot]

/-- A value is of the layer where it was read, or of a tighter one. -/
theorem IsValue.le_layer (h : IsValue k p) : k ≤ p.layer := by
  induction h with
  | number | word | paren => exact Nat.le_refl 9
  | signed hsign => exact (layer_of_sign hsign).ge
  | arithmetic ho => exact (joinedLayer_of_isArithmeticText ho).ge
  | span => exact Nat.le_refl 6
  | list => exact Nat.le_refl 5
  | looser _ ih => omega

theorem IsCondition.le_layer (h : IsCondition k p) : k ≤ p.layer := by
  induction h with
  | truth => exact Nat.le_refl 4
  | comparison ho => exact (joinedLayer_of_isComparisonText ho).ge
  | paren => show 4 ≤ 9; decide
  | negation ho => simp [Phrase.layer, ho]
  | conjunction ho => exact (joinedLayer_of_and ho).ge
  | disjunction ho => exact (joinedLayer_of_or ho).ge
  | looser _ ih => omega

/-- Where a value stands, only values stand within it. -/
theorem IsValue.of_mem_nodes (h : IsValue k p) : ∀ node ∈ p.nodes, ∃ j, IsValue j node := by
  induction h with
  | number htext => exact List.forall_mem_singleton.mpr ⟨9, .number htext⟩
  | word htext => exact List.forall_mem_singleton.mpr ⟨9, .word htext⟩
  | paren hinner ih => exact List.forall_mem_cons.mpr ⟨⟨9, .paren hinner⟩, ih⟩
  | signed hsign hoperand ih => exact List.forall_mem_cons.mpr ⟨⟨8, .signed hsign hoperand⟩, ih⟩
  | arithmetic ho hl hr ihl ihr =>
    exact List.forall_mem_cons.mpr
      ⟨⟨7, .arithmetic ho hl hr⟩, List.forall_mem_append.mpr ⟨ihl, ihr⟩⟩
  | span hl hg ihl ihg =>
    exact List.forall_mem_cons.mpr ⟨⟨6, .span hl hg⟩, List.forall_mem_append.mpr ⟨ihl, ihg⟩⟩
  | list hmore hitems ih =>
    refine List.forall_mem_cons.mpr ⟨⟨5, .list hmore hitems⟩, ?_⟩
    obtain ⟨hfirst, hmore⟩ := List.forall_mem_cons.mp ih
    refine List.forall_mem_append.mpr ⟨hfirst, fun node hnode => ?_⟩
    obtain ⟨item, hitem, hnode⟩ := Phrase.mem_itemNodes.mp hnode
    exact hmore item hitem node hnode
  | looser _ ih => exact ih

/-- Where a condition stands, only conditions and values stand within it. -/
theorem IsCondition.of_mem_nodes (h : IsCondition k p) :
    ∀ node ∈ p.nodes, (∃ j, IsValue j node) ∨ ∃ j, IsCondition j node := by
  induction h with
  | truth htext => exact List.forall_mem_singleton.mpr (Or.inr ⟨4, .truth htext⟩)
  | comparison ho hl hr =>
    refine List.forall_mem_cons.mpr ⟨Or.inr ⟨4, .comparison ho hl hr⟩, ?_⟩
    exact List.forall_mem_append.mpr ⟨fun node hnode => Or.inl (hl.of_mem_nodes node hnode),
      fun node hnode => Or.inl (hr.of_mem_nodes node hnode)⟩
  | paren hinner ih => exact List.forall_mem_cons.mpr ⟨Or.inr ⟨4, .paren hinner⟩, ih⟩
  | negation ho hoperand ih =>
    exact List.forall_mem_cons.mpr ⟨Or.inr ⟨3, .negation ho hoperand⟩, ih⟩
  | conjunction ho hl hr ihl ihr =>
    exact List.forall_mem_cons.mpr
      ⟨Or.inr ⟨2, .conjunction ho hl hr⟩, List.forall_mem_append.mpr ⟨ihl, ihr⟩⟩
  | disjunction ho hl hr ihl ihr =>
    exact List.forall_mem_cons.mpr
      ⟨Or.inr ⟨1, .disjunction ho hl hr⟩, List.forall_mem_append.mpr ⟨ihl, ihr⟩⟩
  | looser _ ih => exact ih

section Joined

variable {operator : Excerpt} {left right : Phrase}

/-- An operator binds a left operand of its own layer and a right one of a tighter layer. -/
theorem binds_joined (hlayer : Phrase.joinedLayer operator.text = k) (hl : k ≤ left.layer)
    (hr : k < right.layer) (hchain : k = 4 → 4 < left.layer) :
    (Phrase.joined operator left right).Binds := by
  subst hlayer
  exact ⟨hl, hr, hchain⟩

end Joined

theorem IsValue.binds (h : IsValue k p) : p.Binds := by
  induction h with
  | number | word | paren => exact trivial
  | signed hsign hoperand => exact (layer_of_sign hsign).le.trans hoperand.le_layer
  | arithmetic ho hl hr =>
    exact binds_joined (joinedLayer_of_isArithmeticText ho) hl.le_layer hr.le_layer nofun
  | span hl hg => exact ⟨hl.le_layer, hg.le_layer⟩
  | list _ hitems => exact fun item hitem => (hitems item hitem).le_layer
  | looser _ ih => exact ih

/-- In a condition that has been read, the outermost operator binds its operands. -/
theorem IsCondition.binds (h : IsCondition k p) : p.Binds := by
  induction h with
  | truth | paren => exact trivial
  | comparison ho hl hr =>
    exact binds_joined (joinedLayer_of_isComparisonText ho)
      (Nat.le_of_succ_le hl.le_layer) hr.le_layer
      fun _ => hl.le_layer
  | negation ho hoperand =>
    have hlayer := hoperand.le_layer
    simpa [Phrase.Binds, Phrase.layer, ho] using hlayer
  | conjunction ho hl hr => exact binds_joined (joinedLayer_of_and ho) hl.le_layer hr.le_layer nofun
  | disjunction ho hl hr => exact binds_joined (joinedLayer_of_or ho) hl.le_layer hr.le_layer nofun
  | looser _ ih => exact ih

/-- Every operator of a condition binds as its layer says. -/
theorem IsCondition.binds_nodes (h : IsCondition k p) (node : Phrase) (hnode : node ∈ p.nodes) :
    node.Binds := by
  rcases h.of_mem_nodes node hnode with ⟨_, hvalue⟩ | ⟨_, hcondition⟩
  · exact hvalue.binds
  · exact hcondition.binds

/-! ### What a phrase spells -/

section Spelled

variable {operator : Excerpt} {operand left right : Phrase} {t u text : List Char}

theorem withoutBlanks_prefixed (hoperator : withoutBlanks operator.text = operator.text)
    (h : withoutBlanks t = operand.spelled) (hspaced : Spaced [] operator.text t text) :
    withoutBlanks text = (Phrase.prefixed operator operand).spelled := by
  rw [withoutBlanks_of_spaced hspaced, hoperator, h]
  rfl

/-- An operator is spelled between its operands. -/
theorem withoutBlanks_joined (hoperator : withoutBlanks operator.text = operator.text)
    (hl : withoutBlanks t = left.spelled) (hr : withoutBlanks u = right.spelled)
    (hspaced : Spaced t operator.text u text) :
    withoutBlanks text = (Phrase.joined operator left right).spelled := by
  rw [withoutBlanks_of_spaced hspaced, hoperator, hl, hr]
  rfl

theorem withoutBlanks_paren (h : withoutBlanks t = operand.spelled)
    (hspaced : Spaced ['('] t [')'] text) :
    withoutBlanks text = (Phrase.paren operand).spelled := by
  rw [withoutBlanks_of_spaced hspaced, h]
  rfl

/-- The items of a list are spelled with commas between them. -/
theorem withoutBlanks_behind {texts : List (List Char)} {items : List Phrase}
    (h : List.Forall₂ (FollowsComma fun text p => withoutBlanks text = p.spelled) texts items) :
    withoutBlanks texts.flatten = Phrase.spelledBehind items := by
  induction h with
  | nil => rfl
  | cons hitem _ ih =>
    obtain ⟨t, ht, hspaced⟩ := hitem
    rw [List.flatten_cons, withoutBlanks_append, withoutBlanks_of_spaced hspaced, ht, ih]
    rfl

end Spelled

/-- The rules of the grammar keep what phrases spell. -/
theorem closed_spelled : Closed (fun _ text p => withoutBlanks text = p.spelled)
    (fun _ text p => withoutBlanks text = p.spelled) where
  number h := h.withoutBlanks_eq
  word h := h.withoutBlanks_eq
  paren := withoutBlanks_paren
  signed ho := withoutBlanks_prefixed <| by
    obtain ⟨c, hc, hsign⟩ := ho
    rw [hc, withoutBlanks_eq_self (List.forall_mem_singleton.mpr (isBlank_of_isSignChar hsign))]
  arithmetic ho := withoutBlanks_joined ho.withoutBlanks_eq
  span hdots hl hg hspaced := by
    rw [withoutBlanks_of_spaced hspaced, hl, hg, hdots, Phrase.spelled, hdots]
    rfl
  list _ hfirst hall := by
    rw [withoutBlanks_append, hfirst, withoutBlanks_behind hall]
    rfl
  -- a layer more does not change the text
  looserValue h := h
  truth h := by rcases h with h | h <;> rw [Phrase.spelled, h] <;> decide
  comparison ho := withoutBlanks_joined ho.withoutBlanks_eq
  parenCondition := withoutBlanks_paren
  negation ho := withoutBlanks_prefixed (by rw [ho]; decide)
  conjunction ho := withoutBlanks_joined (by rw [ho]; decide)
  disjunction ho := withoutBlanks_joined (by rcases ho with ho | ho <;> rw [ho] <;> decide)
  looserCondition h := h

end Grammar

/-! ### Lines -/

/-- The conditions of a line, word for word and layer for layer. The text of every condition is what
the words and the marks of its tree spell in their order, with blanks between them. And in the tree
no operand is of a layer that may not stand there without parentheses. -/
theorem Line.spelled_of_read {s : List Char} {line : Line} {segment : CaseSegment}
    {c : WrittenCondition}
    (h : read s = .ok line) (hsegment : line.case = some segment) (hc : c ∈ segment.conditions) :
    withoutBlanks c.text.text = c.phrase.spelled ∧ ∀ node ∈ c.phrase.nodes, node.Binds := by
  obtain ⟨-, hspelled⟩ := caseSegment_of_read h hsegment (takes_conditionReader closed_spelled)
  obtain ⟨-, hlayers⟩ := caseSegment_of_read h hsegment (takes_conditionReader closed_layers)
  exact ⟨hspelled c hc, (hlayers c hc).binds_nodes⟩

/-- Blanks of all kinds between words and marks, a condition and a value in parentheses, and a
second condition behind the first. -/
theorem Line.spelled_of_read_of_loose_spelling :
    ∃ line segment first second,
      read "[Culture=en] few  not ( (n)mod 10=2 , 3\t..4 ) and - v!=1 or true xor i  = 0 n=5 @integer 2".toList =
        .ok line ∧ line.case = some segment ∧ segment.conditions = [first, second] ∧
      first.phrase.spelled = "not((n)mod10=2,3..4)and-v!=1ortruexori=0".toList ∧
      withoutBlanks first.text.text = first.phrase.spelled ∧
      (∀ node ∈ first.phrase.nodes, node.Binds) ∧
      withoutBlanks second.text.text = second.phrase.spelled ∧
      ∀ node ∈ second.phrase.nodes, node.Binds := by
  let text :=
    "[Culture=en] few  not ( (n)mod 10=2 , 3\t..4 ) and - v!=1 or true xor i  = 0 n=5 @integer 2"
  let spelled := ["not((n)mod10=2,3..4)and-v!=1ortruexori=0".toList, "n=5".toList]
  have hread : (read text.toList).toOption.any (fun line => line.case.any fun segment =>
      segment.conditions.map (fun c => c.phrase.spelled) == spelled) = true := by decide +kernel
  cases hline : read text.toList with
  | error rest => rw [hline] at hread; cases hread
  | ok line =>
    rw [hline] at hread
    change line.case.any _ = true at hread
    obtain ⟨segment, hsegment, hspelled⟩ := (Option.any_eq_true _ _).mp hread
    obtain ⟨first, more, hconditions, hfirst, hmore⟩ :=
      List.map_eq_cons_iff.mp (beq_iff_eq.mp hspelled)
    obtain ⟨second, more, rfl, -, hmore⟩ := List.map_eq_cons_iff.mp hmore
    obtain rfl := List.map_eq_nil_iff.mp hmore
    have hall : ∀ c ∈ [first, second], withoutBlanks c.text.text = c.phrase.spelled ∧
        ∀ node ∈ c.phrase.nodes, node.Binds :=
      fun c hc => spelled_of_read hline hsegment (hconditions ▸ hc)
    simp only [List.forall_mem_cons] at hall
    obtain ⟨⟨htext, hbinds⟩, ⟨htext', hbinds'⟩, -⟩ := hall
    exact ⟨line, segment, first, second, rfl, hsegment, hconditions, hfirst, htext, hbinds,
      htext', hbinds'⟩

end PluralRules
