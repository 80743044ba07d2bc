import Mathlib.Data.List.Forall2
import PluralRules.Proofs.Scan

/-!
# Rules for readers

`Takes item Q` says of all that a reader ever returns that it was read off the front of the text and
has the property `Q` together with the stretch it was read from. There is one rule for each way of
making a reader from others, so that what a grammar returns is proved in the shape in which the
grammar is built.

The equations in the second half go the other way: they say what a reader returns on a text that
begins as it should.
-/

namespace PluralRules

namespace Reader

variable {α β : Type} {item : Reader α} {Q : List Char → α → Prop}

/-! ### What a reader returns -/

/-- Whatever a reader returns stood at the front of the text and has a property. -/
def Takes (item : Reader α) (Q : List Char → α → Prop) : Prop :=
  ∀ ⦃s a rest⦄, item s = some (a, rest) → ∃ text, s = text ++ rest ∧ Q text a

/-- A run of blanks, which may be empty. -/
def IsGap (s : List Char) : Prop := ∀ c ∈ s, Text.isBlank c = true

/-- What is skipped is a gap. -/
theorem gap_skipBlanks (s : List Char) : ∃ gap, IsGap gap ∧ s = gap ++ Text.skipBlanks s :=
  ⟨s.takeWhile Text.isBlank, fun _ => List.mem_takeWhile_imp, List.takeWhile_append_dropWhile.symm⟩

theorem Takes.mono {Q' : List Char → α → Prop} (h : Takes item Q)
    (himp : ∀ text a, Q text a → Q' text a) : Takes item Q' := by
  intro s a rest hs
  obtain ⟨text, hs, hq⟩ := h hs
  exact ⟨text, hs, himp text a hq⟩

theorem takes_char (c : Char) : Takes (char c) fun text _ => text = [c] := by
  intro s a rest h
  cases s with
  | nil => cases h
  | cons d s =>
    rw [char] at h
    split at h
    · next hd => cases h; exact ⟨[d], rfl, by rw [hd]⟩
    · cases h

theorem takes_satisfying (p : Char → Bool) :
    Takes (satisfying p) fun text c => text = [c] ∧ p c = true := by
  intro s a rest h
  cases s with
  | nil => cases h
  | cons d s =>
    rw [satisfying] at h
    split at h
    · next hd => cases h; exact ⟨[a], rfl, rfl, hd⟩
    · cases h

theorem takes_literal (text : List Char) : Takes (literal text) fun t _ => t = text := by
  intro s a rest h
  rw [literal] at h
  split at h
  · next hpre =>
    obtain ⟨t, rfl⟩ := List.isPrefixOf_iff_prefix.mp hpre
    rw [List.drop_left] at h
    cases h
    exact ⟨text, rfl, rfl⟩
  · cases h

/-- A run is not empty, and all its characters have the property. -/
theorem takes_run (p : Char → Bool) :
    Takes (run p) fun text a => a = text ∧ text ≠ [] ∧ ∀ c ∈ text, p c = true := by
  intro s a rest h
  rw [run] at h
  split at h
  · cases h
  · next text hne =>
    cases h
    exact ⟨_, List.takeWhile_append_dropWhile.symm, rfl, hne, fun _ => List.mem_takeWhile_imp⟩

/-- Passing an item through a function leaves the text that is taken. -/
theorem Takes.map {f : α → β} {Q' : List Char → β → Prop} (h : Takes item Q)
    (hf : ∀ text a, Q text a → Q' text (f a)) : Takes (Reader.map f item) Q' := by
  intro s b rest hs
  obtain ⟨⟨a, r⟩, ha, heq⟩ := Option.map_eq_some_iff.mp hs
  cases heq
  obtain ⟨text, hs, hq⟩ := h ha
  exact ⟨text, hs, hf text a hq⟩

/-- A choice takes what either of its readers takes. -/
theorem Takes.orElse {second : Reader α} (h : Takes item Q) (h' : Takes second Q) :
    Takes (Reader.orElse item second) Q := by
  intro s a rest hs
  rw [Reader.orElse] at hs
  cases hfirst : item s with
  | some found => rw [hfirst] at hs; exact h (hfirst.trans hs)
  | none => rw [hfirst] at hs; exact h' hs

/-- The items of a row are read one after the other. -/
theorem Takes.many (h : Takes item Q) (s : List Char) :
    ∃ texts, s = texts.flatten ++ (many item s).2 ∧ List.Forall₂ Q texts (many item s).1 := by
  -- The row ends where no item is read, or where one is read that takes nothing.
  fun_induction Reader.many item s with
  | case1 s hnone => exact ⟨[], rfl, .nil⟩
  | case2 s a rest hs hlt more tail hmore ih =>
    obtain ⟨text, hs, hq⟩ := h hs
    obtain ⟨texts, hrest, hall⟩ := ih
    rw [hmore] at hrest hall
    refine ⟨text :: texts, ?_, .cons hq hall⟩
    rw [hs, hrest]
    simp
  | case3 s a rest hs hlt => exact ⟨[], rfl, .nil⟩

/-- The blanks that are skipped belong to the text that is taken. -/
theorem Takes.skipping (h : Takes item Q) :
    Takes (skipping item) fun text a => ∃ gap t, IsGap gap ∧ text = gap ++ t ∧ Q t a := by
  intro s a rest hs
  obtain ⟨gap, hgap, hskip⟩ := gap_skipBlanks s
  obtain ⟨t, ht, hq⟩ := h hs
  refine ⟨gap ++ t, ?_, gap, t, hgap, rfl, hq⟩
  rw [hskip, ht, List.append_assoc]

/-- An item that may be missing leaves the text as it was, or is read off the front of it. -/
theorem Takes.optional {R : List Char → Option α → Prop} (h : Takes item Q) (hnone : R [] none)
    (hsome : ∀ text a, Q text a → R text (some a)) (s : List Char) :
    ∃ text, s = text ++ (Reader.optional item s).2 ∧ R text (Reader.optional item s).1 := by
  unfold Reader.optional
  cases hs : item s with
  | none => exact ⟨[], rfl, hnone⟩
  | some x =>
    obtain ⟨text, htext, hq⟩ := h hs
    exact ⟨text, htext, hsome text x.1 hq⟩

/-- One item, and another one behind it that may be missing. -/
theorem Takes.thenOptional {second : Reader β} {R : List Char → β → Prop} (h : Takes item Q)
    (h' : Takes second R) :
    Takes (fun s => do
      let (_, s) ← item s
      some ((), (Reader.optional second s).2)) fun text _ =>
        ∃ t u, text = t ++ u ∧ (∃ a, Q t a) ∧ (u = [] ∨ ∃ b, R u b) := by
  intro s a rest hs
  obtain ⟨⟨a, s₁⟩, ha, hend⟩ := Option.bind_eq_some_iff.mp hs
  obtain ⟨t, rfl, hq⟩ := h ha
  obtain ⟨u, hu, hr⟩ := h'.optional (R := fun u _ => u = [] ∨ ∃ b, R u b) (Or.inl rfl)
    (fun _ b hb => Or.inr ⟨b, hb⟩) s₁
  cases hend
  exact ⟨t ++ u, by rw [List.append_assoc, ← hu], t, u, rfl, ⟨a, hq⟩, hr⟩

/-- Two items are taken with the gap between them. -/
theorem Takes.pair {second : Reader β} {R : List Char → β → Prop} (h : Takes item Q)
    (h' : Takes second R) :
    Takes (pair item second) fun text x =>
      ∃ t gap u, IsGap gap ∧ text = t ++ gap ++ u ∧ Q t x.1 ∧ R u x.2 := by
  intro s x rest hs
  obtain ⟨⟨a, s₁⟩, ha, hs⟩ := Option.bind_eq_some_iff.mp hs
  obtain ⟨⟨b, s₂⟩, hb, hs⟩ := Option.bind_eq_some_iff.mp hs
  cases hs
  obtain ⟨t, rfl, hq⟩ := h ha
  obtain ⟨_, rfl, gap, u, hgap, rfl, hr⟩ := h'.skipping hb
  exact ⟨t ++ gap ++ u, by simp, t, gap, u, hgap, rfl, hq, hr⟩

/-- An item is taken with the characters around it and the gaps inside them. -/
theorem Takes.between {opening closing : Char} (h : Takes item Q) :
    Takes (between opening closing item) fun text a =>
      ∃ gap t gap', IsGap gap ∧ IsGap gap' ∧ text = opening :: gap ++ t ++ gap' ++ [closing] ∧
        Q t a := by
  intro s x rest hs
  obtain ⟨⟨u, s₁⟩, ho, hs⟩ := Option.bind_eq_some_iff.mp hs
  obtain ⟨⟨a, s₂⟩, ha, hs⟩ := Option.bind_eq_some_iff.mp hs
  obtain ⟨⟨v, s₃⟩, hc, hs⟩ := Option.bind_eq_some_iff.mp hs
  cases hs
  obtain ⟨_, rfl, rfl⟩ := takes_char opening ho
  obtain ⟨_, rfl, gap, t, hgap, rfl, hq⟩ := h.skipping ha
  obtain ⟨_, rfl, gap', _, hgap', rfl, rfl⟩ := (takes_char closing).skipping hc
  exact ⟨_, by simp, gap, t, gap', hgap, hgap', rfl, hq⟩

/-- An item is taken with its mark and the gaps around the mark. -/
theorem Takes.introduced {mark : Char} (h : Takes item Q) :
    Takes (introduced mark item) fun text a =>
      ∃ gap gap' t, IsGap gap ∧ IsGap gap' ∧ text = gap ++ mark :: gap' ++ t ∧ Q t a := by
  apply ((takes_char mark).pair h).skipping.map
  rintro text ⟨⟨⟩, a⟩ ⟨gap, _, hgap, rfl, t, gap', u, hgap', rfl, rfl, hq⟩
  exact ⟨gap, gap', u, hgap, hgap', by simp, hq⟩

/-- The first item, and the later ones with their commas and blanks. -/
theorem Takes.commaSeparated (h : Takes item Q) :
    Takes (commaSeparated item) fun text x =>
      ∃ t texts, text = t ++ texts.flatten ∧ Q t x.1 ∧
        List.Forall₂ (fun u a => ∃ gap gap' v, IsGap gap ∧ IsGap gap' ∧
          u = gap ++ ',' :: gap' ++ v ∧ Q v a) texts x.2 := by
  intro s x rest hs
  obtain ⟨⟨a, s₁⟩, ha, hs⟩ := Option.bind_eq_some_iff.mp hs
  obtain ⟨texts, hmany, hall⟩ := h.introduced.many s₁
  cases hs
  obtain ⟨t, rfl, hq⟩ := h ha
  refine ⟨t ++ texts.flatten, ?_, t, texts, rfl, hq, hall⟩
  rw [List.append_assoc, ← hmany]

/-! ### What a reader does with a given text -/

section Equations

variable {first second : Reader α} {p : Char → Bool} {a : α} {b : β} {c : Char}
  {s s' text rest : List Char}

theorem char_eq_none (h : s.head? ≠ some c) : char c s = none := by
  cases s with
  | nil => rfl
  | cons d s => rw [char, if_neg (by simpa using h)]

theorem char_cons : char c (c :: s) = some ((), s) := if_pos rfl

theorem satisfying_cons (h : p c = true) : satisfying p (c :: s) = some (c, s) := if_pos h

theorem satisfying_eq_none (h : s.head?.any p = false) : satisfying p s = none := by
  cases s with
  | nil => rfl
  | cons d s => rw [satisfying, if_neg (by simpa using h)]

theorem literal_append : literal text (text ++ rest) = some ((), rest) := by
  rw [literal, if_pos (List.isPrefixOf_iff_prefix.mpr (List.prefix_append text rest)),
    List.drop_left]

/-- A run is read to its end. -/
theorem run_append (hne : text ≠ []) (htext : ∀ c ∈ text, p c = true)
    (hrest : rest.head?.any p = false) : run p (text ++ rest) = some (text, rest) := by
  rw [run, takeWhile_run htext hrest, dropWhile_run htext hrest]
  cases text with
  | nil => exact absurd rfl hne
  | cons c t => rfl

theorem run_eq_none (h : s.head?.any p = false) : run p s = none := by
  rw [run, takeWhile_eq_nil h]

theorem map_eq_none {f : α → β} (h : item s = none) : map f item s = none := by rw [map, h]; rfl

theorem map_eq_some {f : α → β} (h : item s = some (a, rest)) :
    map f item s = some (f a, rest) := by
  rw [map, h]; rfl

theorem orElse_of_none (h : first s = none) : orElse first second s = second s := by
  rw [orElse, h]; rfl

theorem orElse_of_some {x : α × List Char} (h : first s = some x) :
    orElse first second s = some x := by
  rw [orElse, h]; rfl

theorem optional_of_none (h : item s = none) : optional item s = (none, s) := by rw [optional, h]

theorem optional_of_some (h : item s = some (a, rest)) : optional item s = (some a, rest) := by
  rw [optional, h]

/-- A repetition ends where no item follows. -/
theorem many_of_none (h : item s = none) : many item s = ([], s) := by rw [many, h]

/-- A repetition goes on behind each item that is not empty. -/
theorem many_of_some (h : item s = some (a, rest)) (hlt : rest.length < s.length) :
    many item s = (a :: (many item rest).1, (many item rest).2) := by
  rw [many, h]
  exact if_pos hlt

/-- Two items in a row are read with blanks between them. -/
theorem pair_eq_some {second : Reader β} (h : item s = some (a, s'))
    (h' : skipping second s' = some (b, rest)) : pair item second s = some ((a, b), rest) := by
  simp [pair, h, h']

theorem pair_eq_none {second : Reader β} (h : item s = none) : pair item second s = none := by
  rw [pair, h]; rfl

/-- An item between two characters is read with blanks inside them. -/
theorem between_eq_some {opening closing : Char} (h : skipping item s = some (a, closing :: rest))
    (hclosing : Text.isBlank closing = false) :
    between opening closing item (opening :: s) = some (a, rest) := by
  have hclose : skipping (char closing) (closing :: rest) = some ((), rest) := by
    rw [skipping, Text.skipBlanks_eq_self (by simpa using hclosing), char_cons]
  simp [between, char_cons, h, hclose]

/-- What is between two characters is not read if the second of them does not follow the item. -/
theorem between_eq_none {opening closing : Char}
    (h : ∀ a s', skipping item s = some (a, s') → skipping (char closing) s' = none) :
    between opening closing item (opening :: s) = none := by
  cases hs : skipping item s with
  | none => simp [between, char_cons, hs]
  | some x => simp [between, char_cons, hs, h x.1 x.2 hs]

theorem introduced_eq_none {mark : Char} (h : skipping (char mark) s = none) :
    introduced mark item s = none :=
  map_eq_none (pair_eq_none h)

theorem introduced_eq_some {mark : Char} (h : skipping item s = some (a, rest))
    (hmark : Text.isBlank mark = false) : introduced mark item (mark :: s) = some (a, rest) := by
  have hskip : Text.skipBlanks (mark :: s) = mark :: s :=
    Text.skipBlanks_eq_self (by simpa using hmark)
  apply map_eq_some (a := ((), a))
  rw [skipping, hskip]
  exact pair_eq_some char_cons h

end Equations

/-! ### Texts that a reader reads -/

/-- A reader takes a text off the front, whatever allowed text comes after it, and returns something
with a property. -/
def Reads (item : Reader α) (allowed : List Char → Prop) (text : List Char) (R : α → Prop) : Prop :=
  ∀ rest, allowed rest → ∃ a, item (text ++ rest) = some (a, rest) ∧ R a

theorem intercalate_cons (sep first : List Char) (more : List (List Char)) :
    sep.intercalate (first :: more) = first ++ more.flatMap (sep ++ ·) := by
  induction more generalizing first with
  | nil => simp
  | cons second more ih => rw [List.intercalate_cons_cons, ih second]; simp

section Rows

variable {ι : Type} {text : ι → List Char} {allowed : List Char → Prop} {R : ι → α → Prop}
  {gap : List Char} {xs : List ι}

/-- A list of texts may follow if each of them may, whatever comes after it. -/
theorem allowed_flatMap (hnext : ∀ x ∈ xs, ∀ s, allowed (text x ++ s)) {rest : List Char}
    (hrest : allowed rest) : allowed (xs.flatMap text ++ rest) := by
  cases xs with
  | nil => exact hrest
  | cons x xs =>
    rw [List.flatMap_cons, List.append_assoc]
    exact hnext x List.mem_cons_self _

/-- Items in a row are read as they are written. -/
theorem many_flatMap (hnext : ∀ x ∈ xs, ∀ s, allowed (text x ++ s)) {rest : List Char}
    (hrest : allowed rest) (hend : item rest = none)
    (hread : ∀ x ∈ xs, text x ≠ [] ∧ Reads item allowed (text x) (R x)) :
    ∃ as, many item (xs.flatMap text ++ rest) = (as, rest) ∧ List.Forall₂ R xs as := by
  induction xs with
  | nil => exact ⟨[], many_of_none hend, .nil⟩
  | cons x xs ih =>
    have hnext' : ∀ y ∈ xs, ∀ s, allowed (text y ++ s) :=
      fun y hy => hnext y (List.mem_cons_of_mem x hy)
    obtain ⟨as, hmany, hall⟩ := ih hnext' fun y hy => hread y (List.mem_cons_of_mem x hy)
    obtain ⟨hne, hx⟩ := hread x List.mem_cons_self
    obtain ⟨a, ha, hR⟩ := hx _ (allowed_flatMap hnext' hrest)
    have hpos := List.length_pos_iff.mpr hne
    refine ⟨a :: as, ?_, .cons hR hall⟩
    rw [List.flatMap_cons, List.append_assoc,
      many_of_some ha (by simp only [List.length_append]; omega),
      hmany]

/-- Items in a row, each introduced by a comma and blanks, are read as they are written. -/
theorem many_introduced (hgap : IsGap gap) (hcomma : ∀ s, allowed (',' :: s)) {rest : List Char}
    (hrest : allowed rest) (hend : skipping (char ',') rest = none)
    (hread : ∀ x ∈ xs, Text.IsSolid (text x) ∧ Reads item allowed (text x) (R x)) :
    ∃ as, many (introduced ',' item) (xs.flatMap (fun x => ',' :: gap ++ text x) ++ rest) =
      (as, rest) ∧ List.Forall₂ R xs as := by
  refine many_flatMap (fun x _ s => hcomma _) hrest (introduced_eq_none hend) fun x hx => ?_
  refine ⟨by simp, fun rest' hrest' => ?_⟩
  obtain ⟨hsolid, hitem⟩ := hread x hx
  obtain ⟨a, ha, hR⟩ := hitem rest' hrest'
  refine ⟨a, ?_, hR⟩
  rw [List.cons_append, List.cons_append, List.append_assoc]
  refine introduced_eq_some ?_ (by decide)
  rw [skipping, Text.skipBlanks_append hgap (hsolid.append _), ha]

/-- Items with commas and blanks between them are read as they are written. -/
theorem reads_commaSeparated (gap : List Char) (hgap : IsGap gap)
    (hcomma : ∀ s, allowed (',' :: s)) {first : ι}
    (hfirst : Reads item allowed (text first) (R first))
    (hread : ∀ x ∈ xs, Text.IsSolid (text x) ∧ Reads item allowed (text x) (R x)) :
    Reads (commaSeparated item) (fun rest => allowed rest ∧ skipping (char ',') rest = none)
      ((',' :: gap).intercalate ((first :: xs).map text))
      fun y => R first y.1 ∧ List.Forall₂ R xs y.2 := by
  rintro rest ⟨hrest, hend⟩
  obtain ⟨as, hmany, hall⟩ := many_introduced hgap hcomma hrest hend hread
  -- behind the first item stands a comma, or else whatever follows the row
  have hmore : allowed (xs.flatMap (fun x => ',' :: gap ++ text x) ++ rest) :=
    allowed_flatMap (fun x _ s => hcomma _) hrest
  obtain ⟨a, ha, hR⟩ := hfirst _ hmore
  refine ⟨(a, as), ?_, hR, hall⟩
  rw [List.map_cons, intercalate_cons, List.flatMap_map, List.append_assoc, commaSeparated]
  simp only [List.cons_append] at ha hmany ⊢
  rw [ha]
  simp only [Option.bind_eq_bind, Option.bind_some, hmany]

end Rows

end Reader

end PluralRules
