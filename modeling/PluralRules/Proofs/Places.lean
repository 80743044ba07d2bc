import PluralRules.Proofs.Contributions
import PluralRules.Proofs.Faults
import PluralRules.Proofs.Sheets

/-!
# Where errors are placed

The position of an error is the place in the text at which the text begins that the error quotes
(`Sheet.shows_of_error`), for a text by itself as for a line of a sheet.

A complaint holds the rest of the line from its excerpt on, so what has to be shown is that all
excerpts of a line are stretches of it. They stand in the line in the order in which they stand in
its parts (`Excerpt.InOrder`), and therefore the stretch from the first to the last excerpt of a
phrase begins where the first one does. The readers are gone through once for that: `Reader.Ordered`
says of a reader that it returns excerpts in order.
-/

namespace PluralRules

open Reader Grammar

/-! ### Excerpts in order -/

namespace Excerpt

variable {s s' m rest rest' : List Char} {e : Excerpt} {es es' : List Excerpt}

theorem after_suffix_tail (e : Excerpt) : e.after <:+ e.tail := List.suffix_append e.text e.after

/-- Excerpts that stand in a text one behind the other, all of them before the rest of the text. -/
def InOrder : List Char → List Excerpt → List Char → Prop
  | s, [], rest => rest <:+ s
  | s, e :: es, rest => e.tail <:+ s ∧ InOrder e.after es rest

/-- What remains behind excerpts in order is the end of the text. -/
theorem InOrder.suffix : ∀ {es : List Excerpt} {s : List Char}, InOrder s es rest → rest <:+ s
  | [], _, h => h
  | e :: _, _, ⟨he, h⟩ => h.suffix.trans (e.after_suffix_tail.trans he)

/-- Excerpts that stand in order in the end of a text do so in the text. -/
theorem InOrder.mono_left (h : InOrder s es rest) (hs : s <:+ s') : InOrder s' es rest := by
  cases es with
  | nil => exact List.IsSuffix.trans h hs
  | cons e es => exact ⟨h.1.trans hs, h.2⟩

/-- Excerpts in order in the front of a text and others in the rest are in order together. -/
theorem InOrder.append : ∀ {es : List Excerpt} {s : List Char}, InOrder s es m →
    InOrder m es' rest → InOrder s (es ++ es') rest
  | [], _, h, h' => h'.mono_left h
  | _ :: _, _, ⟨he, h⟩, h' => ⟨he, h.append h'⟩

/-- Excerpts may end earlier than the rest begins. -/
theorem InOrder.mono_right (h : InOrder s es rest) (hrest : rest' <:+ rest) :
    InOrder s es rest' := by
  have hnone : InOrder rest [] rest' := hrest
  rw [← List.append_nil es]
  exact h.append hnone

/-- Excerpts that are left out leave the others in order. -/
theorem InOrder.sublist (h : InOrder s es rest) (hsub : es'.Sublist es) : InOrder s es' rest := by
  induction hsub generalizing s with
  | slnil => exact h
  | cons e _ ih => exact (ih h.2).mono_left (e.after_suffix_tail.trans h.1)
  | cons_cons e _ ih => exact ⟨h.1, ih h.2⟩

/-- The line from one of the excerpts on is the end of the text. -/
theorem InOrder.tail_suffix (h : InOrder s es rest) (he : e ∈ es) : e.tail <:+ s :=
  (h.sublist (List.singleton_sublist.mpr he)).1

theorem tail_before (h : rest <:+ s) : (before s rest).tail = s := by
  obtain ⟨text, rfl⟩ := h
  rw [before_append]
  rfl

/-- The stretch from the first to the last of some excerpts begins where the first one does. -/
theorem InOrder.tail_through {first last : Excerpt} (h : InOrder s es rest)
    (hfirst : es.head? = some first)
    (hlast : es.getLast? = some last) : (first.through last).tail = first.tail := by
  obtain ⟨more, rfl⟩ := List.head?_eq_some_iff.mp hfirst
  apply tail_before
  rcases List.mem_cons.mp (List.mem_of_getLast? hlast) with rfl | hmem
  · exact last.after_suffix_tail
  · exact (last.after_suffix_tail.trans (h.2.tail_suffix hmem)).trans first.after_suffix_tail

end Excerpt

open Excerpt

/-! ### Readers that return excerpts in order -/

namespace Reader

section Ordered

variable {α β : Type} {item : Reader α} {second : Reader β} {f : α → List Excerpt}
  {g : β → List Excerpt} {Q : List Char → α → Prop}

/-- The excerpts in whatever a reader returns stand in order in the text that it was read from. -/
def Ordered (item : Reader α) (f : α → List Excerpt) : Prop :=
  ∀ ⦃s a rest⦄, item s = some (a, rest) → InOrder s (f a) rest

theorem skipBlanks_suffix (s : List Char) : Text.skipBlanks s <:+ s := List.dropWhile_suffix _

/-- A reader without excerpts of interest keeps the order. -/
theorem Takes.ordered (h : Takes item Q) : Ordered item fun _ => [] := by
  intro s a rest hs
  obtain ⟨text, rfl, -⟩ := h hs
  exact List.suffix_append text rest

/-- Passing an item through a function keeps the order of its excerpts. -/
theorem Ordered.map {γ : Type} {f' : γ → List Excerpt} {t : α → γ} (h : Ordered item f)
    (ht : ∀ a, f' (t a) = f a) : Ordered (Reader.map t item) f' := by
  intro s b rest hs
  obtain ⟨⟨a, r⟩, ha, heq⟩ := Option.map_eq_some_iff.mp hs
  cases heq
  rw [ht]
  exact h ha

theorem Ordered.orElse {other : Reader α} (h : Ordered item f) (h' : Ordered other f) :
    Ordered (Reader.orElse item other) f := by
  intro s a rest hs
  cases hfirst : item s with
  | some found => rw [orElse_of_some hfirst] at hs; exact h (hfirst.trans hs)
  | none => rw [orElse_of_none hfirst] at hs; exact h' hs

/-- The excerpts of repeated items stand in order. -/
theorem Ordered.many (h : Ordered item f) (s : List Char) :
    InOrder s ((many item s).1.flatMap f) (many item s).2 := by
  fun_induction Reader.many item s with
  | case1 s hnone => exact List.suffix_refl s
  | case2 s a rest hs hlt more tail hmore ih =>
    rw [hmore] at ih
    exact (h hs).append ih
  | case3 s a rest hs hlt => exact List.suffix_refl s

theorem Ordered.optional (h : Ordered item f) (s : List Char) :
    InOrder s ((Reader.optional item s).1.elim [] f) (Reader.optional item s).2 := by
  cases hs : item s with
  | none => rw [optional_of_none hs]; exact List.suffix_refl s
  | some x => rw [optional_of_some hs]; exact h hs

theorem Ordered.skipping (h : Ordered item f) : Ordered (skipping item) f :=
  fun s _ _ hs => (h hs).mono_left (skipBlanks_suffix s)

/-- The excerpts of two items stand in order, those of the first item before those of the second. -/
theorem Ordered.pair (h : Ordered item f) (h' : Ordered second g) :
    Ordered (pair item second) fun x => f x.1 ++ g x.2 := by
  intro s x rest hs
  obtain ⟨⟨a, s₁⟩, ha, hs⟩ := Option.bind_eq_some_iff.mp hs
  obtain ⟨⟨b, s₂⟩, hb, hs⟩ := Option.bind_eq_some_iff.mp hs
  cases hs
  exact (h ha).append (h'.skipping hb)

theorem ordered_char (c : Char) : Ordered (char c) fun _ => [] := (takes_char c).ordered

theorem Ordered.between {opening closing : Char} (h : Ordered item f) :
    Ordered (between opening closing item) f := by
  intro s a rest hs
  obtain ⟨⟨_, s₁⟩, ho, hs⟩ := Option.bind_eq_some_iff.mp hs
  obtain ⟨⟨a, s₂⟩, ha, hs⟩ := Option.bind_eq_some_iff.mp hs
  obtain ⟨⟨_, s₃⟩, hc, hs⟩ := Option.bind_eq_some_iff.mp hs
  cases hs
  have hinside := (ordered_char opening ho).append (h.skipping ha)
  exact hinside.mono_right ((ordered_char closing).skipping hc)

theorem Ordered.introduced {mark : Char} (h : Ordered item f) : Ordered (introduced mark item) f :=
  ((ordered_char mark).pair h).skipping.map fun _ => rfl

/-- The excerpts of items with commas between them stand in order. -/
theorem Ordered.commaSeparated (h : Ordered item f) :
    Ordered (commaSeparated item) fun x => f x.1 ++ x.2.flatMap f := by
  intro s x rest hs
  obtain ⟨⟨a, s₁⟩, ha, hs⟩ := Option.bind_eq_some_iff.mp hs
  have hmore := (h.introduced : Ordered (Reader.introduced ',' item) f).many s₁
  cases hs
  exact (h ha).append hmore

end Ordered

end Reader

/-! ### Words and marks -/

namespace Grammar

/-- An excerpt is in order with itself. -/
theorem ordered_excerptOf {α : Type} {item : Reader α} {Q : List Char → Excerpt → Prop}
    (h : Takes (excerptOf item) Q) : Ordered (excerptOf item) fun e => [e] := by
  intro s e rest hs
  have hsuffix : rest <:+ s := h.ordered hs
  obtain ⟨⟨a, r⟩, -, heq⟩ := Option.bind_eq_some_iff.mp hs
  cases heq
  exact ⟨(tail_before hsuffix).symm ▸ List.suffix_refl s, List.suffix_refl rest⟩

theorem ordered_runOf (p : Char → Bool) : Ordered (runOf p) fun e => [e] :=
  ordered_excerptOf (takes_runOf p)

theorem ordered_keyword (text : String) : Ordered (keyword text) fun e => [e] := by
  intro s e rest hs
  obtain ⟨⟨e', r⟩, he, hend⟩ := Option.bind_eq_some_iff.mp hs
  dsimp only at hend
  split at hend
  · cases hend
  · cases hend
    exact ordered_excerptOf (takes_excerptOf (takes_literal text.toList)) he

theorem ordered_word : Ordered word fun e => [e] := by
  intro s e rest hs
  obtain ⟨⟨e', r⟩, he, hend⟩ := Option.bind_eq_some_iff.mp hs
  dsimp only at hend
  split at hend
  · cases hend
  · cases hend
    exact ordered_runOf isWordChar he

theorem ordered_number : Ordered number fun e => [e] := ordered_excerptOf takes_number

theorem ordered_comparisonMark : Ordered comparisonMark fun e => [e] :=
  ordered_excerptOf takes_comparisonMark

theorem ordered_satisfying (p : Char → Bool) : Ordered (excerptOf (satisfying p)) fun e => [e] :=
  ordered_excerptOf (takes_excerptOf (takes_satisfying p))

theorem ordered_arithmeticMark : Ordered arithmeticMark fun e => [e] :=
  (ordered_keyword "mod").orElse (ordered_satisfying isArithmeticChar)

theorem ordered_dots : Ordered dots fun e => [e] :=
  ordered_excerptOf (takes_excerptOf (takes_literal ['.', '.']))

end Grammar

/-! ### Phrases -/

namespace Phrase

mutual

/-- The words, numbers and operators of a phrase, in the order in which they are written. -/
def excerpts : Phrase → List Excerpt
  | number text | word text | truth text => [text]
  | prefixed operator operand => operator :: excerpts operand
  | joined operator left right => excerpts left ++ operator :: excerpts right
  | span dots least greatest => excerpts least ++ dots :: excerpts greatest
  | list first more => excerpts first ++ itemExcerpts more
  | paren inner => excerpts inner

def itemExcerpts : List Phrase → List Excerpt
  | [] => []
  | item :: more => excerpts item ++ itemExcerpts more

end

theorem itemExcerpts_eq (items : List Phrase) : itemExcerpts items = items.flatMap excerpts := by
  induction items with
  | nil => rfl
  | cons item more ih => rw [itemExcerpts, ih, List.flatMap_cons]

/-- The excerpts of a list are those of its items. -/
theorem excerpts_list (first : Phrase) (more : List Phrase) :
    (list first more).excerpts = (first :: more).flatMap excerpts := by
  rw [excerpts, itemExcerpts_eq, List.flatMap_cons]

/-- The leftmost excerpt is the first one in order. -/
theorem head?_excerpts : ∀ p : Phrase, p.excerpts.head? = some p.first
  | number _ | word _ | truth _ => rfl
  | prefixed _ _ => rfl
  | joined operator left right => by
    rw [excerpts, first, List.head?_append, head?_excerpts left, Option.some_or]
  | span dots least greatest => by
    rw [excerpts, first, List.head?_append, head?_excerpts least, Option.some_or]
  | list item more => by
    rw [excerpts, first, List.head?_append, head?_excerpts item, Option.some_or]
  | paren inner => head?_excerpts inner

mutual

/-- The rightmost excerpt is the last one in order. -/
theorem getLast?_excerpts : ∀ p : Phrase, p.excerpts.getLast? = some p.last
  | number _ | word _ | truth _ => rfl
  | prefixed operator operand => by
    rw [excerpts, last, List.getLast?_cons, getLast?_excerpts operand, Option.getD_some]
  | joined operator left right => by
    rw [excerpts, last, List.getLast?_append, List.getLast?_cons, getLast?_excerpts right,
      Option.some_or, Option.getD_some]
  | span dots least greatest => by
    rw [excerpts, last, List.getLast?_append, List.getLast?_cons, getLast?_excerpts greatest,
      Option.some_or, Option.getD_some]
  | list item more => by
    rw [excerpts, last, List.getLast?_append, getLast?_itemExcerpts more, getLast?_excerpts item]
    cases lastOf? more <;> rfl
  | paren inner => getLast?_excerpts inner

theorem getLast?_itemExcerpts : ∀ items : List Phrase, (itemExcerpts items).getLast? = lastOf? items
  | [] => rfl
  | item :: more => by
    rw [itemExcerpts, lastOf?, List.getLast?_append, getLast?_itemExcerpts more,
      getLast?_excerpts item]
    cases lastOf? more <;> rfl

end

mutual

/-- A phrase within a phrase is written within it. -/
theorem excerpts_sublist {node : Phrase} :
    ∀ {p : Phrase}, node ∈ p.nodes → node.excerpts.Sublist p.excerpts
  | number _, h | word _, h | truth _, h => by
    rw [List.mem_singleton.mp h]
  | prefixed operator operand, h => by
    rcases List.mem_cons.mp h with rfl | h
    · exact List.Sublist.refl _
    · exact (excerpts_sublist h).cons operator
  | joined operator left right, h => by
    rcases List.mem_cons.mp h with rfl | h
    · exact List.Sublist.refl _
    · rcases List.mem_append.mp h with h | h
      · exact (excerpts_sublist h).trans (List.sublist_append_left _ _)
      · exact ((excerpts_sublist h).cons operator).trans (List.sublist_append_right _ _)
  | span dots least greatest, h => by
    rcases List.mem_cons.mp h with rfl | h
    · exact List.Sublist.refl _
    · rcases List.mem_append.mp h with h | h
      · exact (excerpts_sublist h).trans (List.sublist_append_left _ _)
      · exact ((excerpts_sublist h).cons dots).trans (List.sublist_append_right _ _)
  | list first more, h => by
    rcases List.mem_cons.mp h with rfl | h
    · exact List.Sublist.refl _
    · rcases List.mem_append.mp h with h | h
      · exact (excerpts_sublist h).trans (List.sublist_append_left _ _)
      · exact (excerpts_sublist_items h).trans (List.sublist_append_right _ _)
  | paren inner, h => by
    rcases List.mem_cons.mp h with rfl | h
    · exact List.Sublist.refl _
    · exact (excerpts_sublist h : node.excerpts.Sublist inner.excerpts)

/-- The excerpts of a part of an item are among those of the items, in the same order. -/
theorem excerpts_sublist_items {node : Phrase} : ∀ {items : List Phrase}, node ∈ itemNodes items →
    node.excerpts.Sublist (itemExcerpts items)
  | item :: more, h => by
    rcases List.mem_append.mp h with h | h
    · exact (excerpts_sublist h).trans (List.sublist_append_left _ _)
    · exact (excerpts_sublist_items h).trans (List.sublist_append_right _ _)

end

/-- A phrase in order begins where its leftmost excerpt does. -/
theorem tail_excerpt {p : Phrase} {s rest : List Char} (h : InOrder s p.excerpts rest) :
    p.excerpt.tail <:+ s := by
  have hfirst : p.first ∈ p.excerpts := List.mem_of_mem_head? (head?_excerpts p)
  rw [excerpt, h.tail_through (head?_excerpts p) (getLast?_excerpts p)]
  exact h.tail_suffix hfirst

def linkExcerpts (x : Excerpt × Phrase) : List Excerpt := x.1 :: x.2.excerpts

/-- The excerpts of a chain stand in the order of its operands. -/
theorem excerpts_foldl_joined (links : List (Excerpt × Phrase)) : ∀ left : Phrase,
    (links.foldl (fun left x => .joined x.1 left x.2) left).excerpts =
      left.excerpts ++ links.flatMap linkExcerpts := by
  induction links with
  | nil => intro left; simp
  | cons x links ih =>
    intro left
    rw [List.foldl_cons, ih, excerpts, List.flatMap_cons, List.append_assoc]
    rfl

/-- The excerpts of a phrase with marks are the marks and those of the phrase. -/
theorem excerpts_foldr_prefixed (marks : List Excerpt) (operand : Phrase) :
    (marks.foldr .prefixed operand).excerpts = marks ++ operand.excerpts := by
  induction marks with
  | nil => rfl
  | cons mark marks ih => rw [List.foldr_cons, excerpts, ih]; rfl

end Phrase

open Phrase

namespace Grammar

section Layers

variable {mark operator : Reader Excerpt} {inner operand valueReader : Reader Phrase}

/-- An operator stands before its right operand. -/
theorem ordered_link (hoperator : Ordered operator fun e => [e])
    (hoperand : Ordered operand excerpts) :
    Ordered (link operator operand) linkExcerpts := (hoperator.pair hoperand).skipping

theorem ordered_chain (hoperator : Ordered operator fun e => [e])
    (hoperand : Ordered operand excerpts) : Ordered (chain operator operand) excerpts := by
  intro s p rest hs
  obtain ⟨⟨first, s₁⟩, hfirst, hend⟩ := Option.bind_eq_some_iff.mp hs
  have hlinks := (ordered_link hoperator hoperand).many s₁
  cases hend
  rw [excerpts_foldl_joined]
  exact (hoperand hfirst).append hlinks

/-- Marks stand in order before their operand. -/
theorem ordered_marked (hmark : Ordered mark fun e => [e]) (hoperand : Ordered operand excerpts) :
    Ordered (marked mark operand) excerpts := by
  have hthen : Ordered (thenBlanks mark) fun e => [e] := by
    intro s e rest hs
    obtain ⟨⟨e', r⟩, he, heq⟩ := Option.map_eq_some_iff.mp hs
    cases heq
    exact (hmark he).mono_right (skipBlanks_suffix r)
  intro s p rest hs
  have hmarks := hthen.many s
  obtain ⟨⟨last, s₁⟩, hlast, hend⟩ := Option.bind_eq_some_iff.mp hs
  cases hend
  rw [excerpts_foldr_prefixed]
  rw [List.flatMap_singleton'] at hmarks
  exact hmarks.append (hoperand hlast)

theorem ordered_parenthesized (hinner : Ordered inner excerpts) :
    Ordered (parenthesized inner) excerpts :=
  hinner.between.map fun _ => rfl

theorem ordered_arithmetic (hinner : Ordered inner excerpts) :
    Ordered (arithmetic inner) excerpts := by
  have hprimary : Ordered (primary inner) excerpts :=
    (ordered_number.map fun _ => rfl).orElse
      ((ordered_word.map fun _ => rfl).orElse (ordered_parenthesized hinner))
  exact ordered_chain ordered_arithmeticMark
    (ordered_marked (ordered_satisfying isSignChar) hprimary)

theorem ordered_range (hinner : Ordered inner excerpts) : Ordered (range inner) excerpts := by
  have harithmetic := ordered_arithmetic hinner
  intro s p rest hs
  obtain ⟨⟨least, s₁⟩, hleast, hend⟩ := Option.bind_eq_some_iff.mp hs
  dsimp only at hend
  split at hend
  · next e greatest s₂ hspan =>
    cases hend
    exact (harithmetic hleast).append (ordered_link ordered_dots harithmetic hspan)
  · cases hend
    exact harithmetic hleast

theorem ordered_value : ∀ depth : Nat, Ordered (value depth) excerpts
  | 0 => fun _ _ _ h => by cases h
  | depth + 1 => by
    intro s p rest hs
    obtain ⟨⟨⟨first, more⟩, s₁⟩, hread, hend⟩ := Option.bind_eq_some_iff.mp hs
    have hitems := (ordered_range (ordered_value depth)).commaSeparated hread
    cases more with
    | nil =>
      cases hend
      simpa using hitems
    | cons second more =>
      cases hend
      rwa [excerpts_list, List.flatMap_cons]

theorem ordered_comparison (hvalue : Ordered valueReader excerpts) :
    Ordered (comparison valueReader) excerpts := by
  intro s p rest hs
  obtain ⟨⟨left, s₁⟩, hleft, hrest⟩ := Option.bind_eq_some_iff.mp hs
  obtain ⟨⟨⟨operator, right⟩, s₂⟩, hlink, hend⟩ := Option.bind_eq_some_iff.mp hrest
  cases hend
  exact (hvalue hleft).append (ordered_link ordered_comparisonMark hvalue hlink)

/-- The excerpts of a condition stand in order, at every depth. -/
theorem ordered_condition : ∀ depth : Nat, Ordered (condition depth) excerpts
  | 0 => fun _ _ _ h => by cases h
  | depth + 1 => by
    have hsimple : Ordered (simpleCondition (value (depth + 1)) (condition depth)) excerpts :=
      (((ordered_keyword "true").orElse (ordered_keyword "false")).map fun _ => rfl).orElse
        ((ordered_comparison (ordered_value (depth + 1))).orElse
          (ordered_parenthesized (ordered_condition depth)))
    exact ordered_chain ((ordered_keyword "or").orElse (ordered_keyword "xor"))
      (ordered_chain (ordered_keyword "and") (ordered_marked (ordered_keyword "not") hsimple))

theorem ordered_conditionReader : Ordered conditionReader excerpts :=
  fun s _ _ hs => ordered_condition (s.length + 1) hs

end Layers

end Grammar

/-! ### Parts of lines -/

def Entry.excerpts (entry : Entry) : List Excerpt := [entry.key, entry.value]

def SampleSegment.excerpts (segment : SampleSegment) : List Excerpt :=
  segment.name :: segment.values

def CaseSegment.excerpts (f : WrittenCondition → List Excerpt) (segment : CaseSegment) :
    List Excerpt :=
  segment.name :: segment.conditions.flatMap f

/-- The excerpts in the parts of a line. Of a condition there are two kinds, its text as a whole and
the words and marks in it, which overlap. -/
def Line.excerpts (f : WrittenCondition → List Excerpt) (line : Line) : List Excerpt :=
  line.info.elim [] (·.flatMap Entry.excerpts) ++
    (line.case.elim [] (·.excerpts f) ++ line.samples.flatMap SampleSegment.excerpts)

namespace Grammar

theorem inOrder_entryValue (s : List Char) : InOrder s [(entryValue s).1] (entryValue s).2 := by
  have htext := Text.trimEnd_prefix (s.takeWhile fun c => c != ',' && c != ']')
  have hrun := List.takeWhile_prefix (l := s) fun c => c != ',' && c != ']'
  have htail : (entryValue s).1.tail = s := List.prefix_iff_eq_append.mp (htext.trans hrun)
  exact ⟨htail.symm ▸ List.suffix_refl s, List.drop_suffix_drop_left s htext.length_le⟩

/-- The key of an entry stands before its value. -/
theorem ordered_entry : Ordered entry Entry.excerpts := by
  intro s e rest hs
  obtain ⟨⟨⟨key, _⟩, s₁⟩, hkey, hend⟩ := Option.bind_eq_some_iff.mp hs
  have hpair := ((ordered_runOf isNameChar).pair (ordered_char '=')) hkey
  cases hend
  refine ⟨hpair.1, ?_⟩
  exact (inOrder_entryValue _).mono_left ((skipBlanks_suffix s₁).trans hpair.2.suffix)

theorem ordered_brackets : Ordered brackets (·.flatMap Entry.excerpts) :=
  ordered_entry.commaSeparated.between.map fun _ => List.flatMap_cons

theorem ordered_caseName : Ordered caseName fun e => [e] := ordered_excerptOf takes_caseName

/-- The text of a condition as a whole is one excerpt. -/
theorem ordered_writtenCondition_text : Ordered writtenCondition fun c => [c.text] := by
  intro s c rest hs
  obtain ⟨⟨p, s₁⟩, hread, heq⟩ := Option.bind_eq_some_iff.mp hs
  have hsuffix := (ordered_conditionReader hread).suffix
  cases heq
  exact ⟨(tail_before hsuffix).symm ▸ List.suffix_refl s, List.suffix_refl _⟩

/-- The words and marks within a condition stand in order. -/
theorem ordered_writtenCondition_phrase : Ordered writtenCondition fun c => c.phrase.excerpts := by
  intro s c rest hs
  obtain ⟨⟨p, s₁⟩, hread, heq⟩ := Option.bind_eq_some_iff.mp hs
  cases heq
  exact ordered_conditionReader hread

theorem ordered_caseSegment {f : WrittenCondition → List Excerpt} (h : Ordered writtenCondition f) :
    Ordered caseSegment (CaseSegment.excerpts f) := by
  intro s segment rest hs
  obtain ⟨⟨name, s₁⟩, hname, hend⟩ := Option.bind_eq_some_iff.mp hs
  have hcolon : (optional (skipping (char ':')) s₁).2 <:+ s₁ := by
    simpa using ((ordered_char ':').skipping.optional s₁).suffix
  have hconditions := h.skipping.many (optional (skipping (char ':')) s₁).2
  cases hend
  exact (ordered_caseName hname).append (hconditions.mono_left hcolon)

theorem ordered_sampleSegment : Ordered sampleSegment SampleSegment.excerpts := by
  have hvalues : Ordered sampleValues fun values => values :=
    (ordered_runOf isSampleChar).commaSeparated.map fun x => by simp
  intro s segment rest hs
  obtain ⟨⟨_, s₁⟩, hat, hs⟩ := Option.bind_eq_some_iff.mp hs
  obtain ⟨⟨name, s₂⟩, hname, hend⟩ := Option.bind_eq_some_iff.mp hs
  have hmore := hvalues.skipping.optional s₂
  have hsegment := ((ordered_runOf isNameChar hname).append hmore).mono_left (ordered_char '@' hat)
  dsimp only at hend
  generalize optional (skipping sampleValues) s₂ = found at hsegment hend
  obtain ⟨values, s₃⟩ := found
  cases hend
  cases values <;> exact hsegment

end Grammar

namespace Line

/-- The excerpts of a line stand in the text in order, and what could not be read stands behind
them. -/
theorem inOrder_parts {f : WrittenCondition → List Excerpt} (h : Ordered writtenCondition f)
    (s : List Char) : InOrder s ((parts s).1.excerpts f) (parts s).2 := by
  have hinfo := ordered_brackets.optional (Text.skipBlanks s)
  have hcase := (ordered_caseSegment h).optional
    (Text.skipBlanks (Reader.optional brackets (Text.skipBlanks s)).2)
  have hsamples := ordered_sampleSegment.skipping.many
    (Reader.optional caseSegment
      (Text.skipBlanks (Reader.optional brackets (Text.skipBlanks s)).2)).2
  have hbehind := (hcase.append hsamples).mono_left (skipBlanks_suffix _)
  exact ((hinfo.mono_left (skipBlanks_suffix s)).append hbehind).mono_right (skipBlanks_suffix _)

variable {s rest : List Char} {line : Line} {complaint : Complaint}

/-- What could not be read is the end of the text. -/
theorem suffix_of_read (h : read s = .error rest) : rest <:+ s := by
  unfold read at h
  dsimp only at h
  split at h
  · cases h
  · cases h
    exact (inOrder_parts ordered_writtenCondition_text s).suffix

/-- The excerpts of a line stand in order in its text. -/
theorem inOrder_of_read {f : WrittenCondition → List Excerpt} (h : read s = .ok line)
    (hf : Ordered writtenCondition f) : InOrder s (line.excerpts f) [] := by
  rw [← parts_of_read h]
  exact (inOrder_parts hf s).mono_right (List.nil_suffix)

theorem inOrder_phrase {segment : CaseSegment} {only : WrittenCondition} (h : read s = .ok line)
    (hcase : line.case = some segment) (honly : segment.conditions = [only]) :
    InOrder s only.phrase.excerpts [] := by
  refine (inOrder_of_read h ordered_writtenCondition_phrase).sublist ?_
  simp only [Line.excerpts, hcase, CaseSegment.excerpts, honly, Option.elim_some,
    List.flatMap_singleton]
  exact ((List.sublist_append_left _ _).trans ((List.sublist_cons_self _ _).append_right _)).trans
    (List.sublist_append_right _ _)

theorem tail_suffix_of_sample {segment : SampleSegment} {value : Excerpt} (h : read s = .ok line)
    (hsegment : segment ∈ line.samples) (hvalue : value ∈ segment.values) : value.tail <:+ s := by
  refine (inOrder_of_read h ordered_writtenCondition_text).tail_suffix ?_
  refine List.mem_append_right _ (List.mem_append_right _ ?_)
  exact List.mem_flatMap.mpr ⟨segment, hsegment, List.mem_cons_of_mem _ hvalue⟩

end Line

/-! ### What complaints quote -/

/-- A text begins with what a fault quotes. -/
def ParseFault.Quotes : ParseFault → List Char → Prop
  | .unexpected found, s => s.head? = found
  | .badNumeral _, _ => False
  | .repeatedCondition _ quoted, s | .unknownOperator quoted, s | .invalidSample quoted, s
  | .divisorOutOfRange quoted, s | .misplacedSet quoted, s | .unknownKey quoted _, s
  | .invalidValue _ quoted, s => quoted.toList <+: s

/-- A complaint points at a place in a text, and what it quotes stands there. -/
def Complaint.StandsIn (complaint : Complaint) (s : List Char) : Prop :=
  complaint.tail <:+ s ∧ complaint.fault.Quotes complaint.tail

section Complaints

variable {s : List Char} {complaint : Complaint}

theorem Excerpt.toString_prefix (e : Excerpt) : e.toString.toList <+: e.tail := by
  rw [Excerpt.toString, String.toList_ofList]
  exact List.prefix_append e.text e.after

/-- What a complaint about a phrase quotes stands in the text where the phrase does. -/
theorem Phrase.Complains.standsIn {p : Phrase} {rest : List Char} (h : p.Complains complaint)
    (hp : InOrder s p.excerpts rest) : complaint.StandsIn s := by
  cases h with
  | sign => exact ⟨hp.tail_suffix List.mem_cons_self, Excerpt.toString_prefix _⟩
  | operator =>
    exact ⟨hp.tail_suffix (List.mem_append_right _ List.mem_cons_self), Excerpt.toString_prefix _⟩
  | @divisor _ _ right =>
    have hright : InOrder s right.excerpts rest :=
      hp.sublist (excerpts_sublist (nodes_right right (mem_nodes_self right)))
    exact ⟨tail_excerpt hright, Excerpt.toString_prefix _⟩
  | misplaced => exact ⟨tail_excerpt hp, Excerpt.toString_prefix _⟩

/-- What a complaint about a line quotes stands in the line. -/
theorem Line.Complains.standsIn {line : Line} (hread : Line.read s = .ok line)
    (h : line.Complains complaint) : complaint.StandsIn s := by
  have htexts := inOrder_of_read hread ordered_writtenCondition_text
  cases h with
  | @entry entries entry _ hinfo hentry hcomplains =>
    have htail : ∀ e ∈ entry.excerpts, e.tail <:+ s := by
      intro e he
      refine htexts.tail_suffix (List.mem_append_left _ ?_)
      rw [hinfo]
      exact List.mem_flatMap.mpr ⟨entry, hentry, he⟩
    cases hcomplains with
    | key => exact ⟨htail _ List.mem_cons_self, Excerpt.toString_prefix _⟩
    | value =>
      exact ⟨htail _ (List.mem_cons_of_mem _ List.mem_cons_self), Excerpt.toString_prefix _⟩
  | @condition segment first second more hcase hconditions =>
    refine ⟨htexts.tail_suffix ?_, Excerpt.toString_prefix _⟩
    simp [Line.excerpts, hcase, CaseSegment.excerpts, hconditions]
  -- the words within a condition stand in order by themselves, apart from its text as a whole
  | @phrase segment only _ hcase honly hfaulty =>
    obtain ⟨node, hnode, hcomplains⟩ := hfaulty
    have hphrase := Line.inOrder_phrase hread hcase honly
    exact hcomplains.standsIn (hphrase.sublist (excerpts_sublist hnode))
  | @sample segment value hsegment hvalue =>
    exact ⟨Line.tail_suffix_of_sample hread hsegment hvalue, Excerpt.toString_prefix _⟩

end Complaints

/-! ### Positions -/

/-- The place where the rest of a text begins, if the first line of the text has a given number. All
lines above it end in newlines, and what stands left of it in its own line holds none. -/
def Position.Marks (p : Position) (number : Nat) (s rest : List Char) : Prop :=
  ∃ above left, s = above ++ (left ++ rest) ∧ (above = [] ∨ above.getLast? = some '\n') ∧
    '\n' ∉ left ∧
    p = ⟨number + above.count '\n', left.length + 1⟩

/-- The position of a tail marks the place where the tail begins. -/
theorem Position.marks_ofTail {s rest : List Char} (h : rest <:+ s) (number : Nat) :
    (ofTail number s rest).Marks number s rest := by
  obtain ⟨consumed, rfl⟩ := h
  have hconsumed :
      (consumed ++ rest).take ((consumed ++ rest).length - rest.length) = consumed := by simp
  simp only [ofTail, hconsumed]
  -- read backwards, the line ends at the first newline
  have hsplit : consumed.reverse.takeWhile (· != '\n') ++ consumed.reverse.dropWhile (· != '\n') =
      consumed.reverse := List.takeWhile_append_dropWhile
  have hleft : '\n' ∉ consumed.reverse.takeWhile (· != '\n') := fun hmem => by
    simpa using List.mem_takeWhile_imp hmem
  have habove := head?_dropWhile_any (· != '\n') consumed.reverse
  generalize consumed.reverse.takeWhile (· != '\n') = left at hsplit hleft ⊢
  generalize consumed.reverse.dropWhile (· != '\n') = above at hsplit habove
  obtain rfl : consumed = above.reverse ++ left.reverse := by
    rw [← List.reverse_append, hsplit, List.reverse_reverse]
  refine ⟨above.reverse, left.reverse, List.append_assoc .., ?_, by simpa using hleft, ?_⟩
  · rw [List.getLast?_reverse]
    cases above with
    | nil => exact Or.inl rfl
    | cons c above => right; simpa using habove
  · simp [List.count_eq_zero.mpr hleft]

/-! ### Errors -/

/-- An error shows what remains of a text from some place on. That place is the position of the
error, and there begins the text that the error quotes. Either the text is no line and cannot be
read on at that place, or it is a line and one of its parts that stands there is complained
about. -/
structure ParseError.Shows (e : ParseError) (number : Nat) (s rest : List Char) : Prop where
  marks : e.position.Marks number s rest
  quotes : e.fault.Quotes rest
  reason : (Line.read s = .error rest ∧ e.fault = .unexpected rest.head?) ∨
    ∃ line, Line.read s = .ok line ∧ line.Complains ⟨rest, e.fault⟩

/-- The line of a sheet is its own text, so only the number of the line is not the same there. -/
theorem ParseError.Shows.atLine {e : ParseError} {s rest : List Char} (h : e.Shows 1 s rest)
    (hs : '\n' ∉ s) (n : Nat) : (e.atLine n).Shows n s rest := by
  refine ⟨?_, h.quotes, h.reason⟩
  obtain ⟨above, left, rfl, habove, hleft, hp⟩ := h.marks
  have hcount : above.count '\n' = 0 :=
    List.count_eq_zero.mpr fun hmem => hs (List.mem_append_left _ hmem)
  refine ⟨above, left, rfl, habove, hleft, ?_⟩
  simp [ParseError.atLine, hp, hcount]

/-- An error about a rule shows a place in its text. -/
theorem Rule.exists_shows_of_ofChars {n : Nat} {s : List Char} {e : ParseError}
    (h : ofChars n s = .error e) : ∃ rest, e.Shows n s rest := by
  obtain ⟨complaint, rfl, ⟨rest, hrest, rfl⟩ | ⟨line, hline, hcomplains⟩⟩ :=
    exists_complaint_of_ofChars h
  · exact ⟨rest, Position.marks_ofTail (Line.suffix_of_read hrest) n, rfl, Or.inl ⟨hrest, rfl⟩⟩
  · obtain ⟨htail, hquotes⟩ := hcomplains.standsIn hline
    exact ⟨complaint.tail, Position.marks_ofTail htail n, hquotes, Or.inr ⟨line, hline, hcomplains⟩⟩

/-- Every error points at what it quotes: the error of a text that is no rule, in the text, and the
errors of a sheet, each in its line and with the number that the line has in the sheet. -/
theorem Sheet.shows_of_error :
    (∀ text e, Rule.parse text = .error e → ∃ rest, e.Shows 1 text.toList rest) ∧
    ∀ text, ∀ e ∈ (Sheet.parse text).errors, ∃ i line rest,
      (Text.lines text.toList)[i]? = some line ∧
      e.position.line = i + 1 ∧ e.Shows (i + 1) line rest := by
  refine ⟨fun text e h => Rule.exists_shows_of_ofChars h, fun text e he => ?_⟩
  obtain ⟨i, line, hline, -, own, hown, rfl⟩ := mem_errors.mp he
  obtain ⟨rest, hshows⟩ := Rule.exists_shows_of_ofChars hown
  have hnewline : '\n' ∉ line := Text.not_mem_of_mem_lines (List.mem_of_getElem? hline)
  exact ⟨i, line, rest, hline, rfl, hshows.atLine hnewline (i + 1)⟩

/-- Behind letters of more than one byte, a value of an entry in the third line of a text, and an
operator in the second line of a sheet whose lines end in carriage returns. -/
theorem Sheet.shows_of_error_of_letters :
    let text := "[RuleSet=żółć,\n\n Category=główny] one: n = 1"
    let sheet := "other\r\n[RuleSet=żółć] few: n = (2 .. 4) and v == 0\r\n"
    (∃ e rest, Rule.parse text = .error e ∧ e.position = ⟨3, 11⟩ ∧ e.Shows 1 text.toList rest) ∧
    ∃ e ∈ (Sheet.parse sheet).errors, e.position = ⟨2, 40⟩ ∧ e.fault = .unknownOperator "==" ∧
      ∃ i line rest, (Text.lines sheet.toList)[i]? = some line ∧ e.position.line = i + 1 ∧
        e.Shows (i + 1) line rest := by
  intro text sheet
  constructor
  · have hparse : Rule.parse text = .error ⟨⟨3, 11⟩, .invalidValue "Category" "główny"⟩ := by
      decide +kernel
    obtain ⟨rest, hshows⟩ := shows_of_error.1 text _ hparse
    exact ⟨_, rest, hparse, rfl, hshows⟩
  · have herrors : (Sheet.parse sheet).errors = [⟨⟨2, 40⟩, .unknownOperator "=="⟩] := by
      decide +kernel
    have hmem : ⟨⟨2, 40⟩, .unknownOperator "=="⟩ ∈ (Sheet.parse sheet).errors :=
      herrors ▸ List.mem_cons_self
    exact ⟨_, hmem, rfl, rfl, shows_of_error.2 sheet _ hmem⟩

end PluralRules
