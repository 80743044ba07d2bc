import PluralRules.Proofs.Layer

/-!
# Texts that are spaced differently

Two texts that differ only in what blanks stand between their words (`Text.Respaced`) are read
alike: a reader fails on both of them, or it returns from both what corresponds, and what remains of
the one is again what remains of the other with different blanks. That is said by `Reader.Steady`,
with one rule for each way of making a reader from others.

How deeply a text is read depends on its length, so the two texts may be read by readers of
different depths. Each run has a bound for the length of its text, therefore, and a reader is steady
up to these bounds (`Text.Within`). It is steady if it takes at least one character off both texts.
-/

namespace PluralRules

open Reader

/-! ### Different blanks -/

namespace Text

/-- A text without blanks. -/
def IsUnbroken (s : List Char) : Prop := ∀ c ∈ s, isBlank c = false

instance : DecidablePred IsGap := fun s => decidable_of_iff (s.all isBlank = true) List.all_eq_true

instance : DecidablePred IsUnbroken := fun s => decidable_of_iff (s.all (!isBlank ·) = true) (by
  simp [IsUnbroken])

/-- The second text is the first one with some blanks in the place of every run of blanks. Runs are
replaced as a whole, so the first text does not go on with a blank behind a gap. -/
inductive Respaced : List Char → List Char → Prop
  | nil : Respaced [] []
  | solid {c : Char} {s t : List Char} : isBlank c = false → Respaced s t →
      Respaced (c :: s) (c :: t)
  | gap {gap gap' s t : List Char} : gap ≠ [] → gap' ≠ [] → IsGap gap → IsGap gap' →
      s.head?.any isBlank = false → Respaced s t → Respaced (gap ++ s) (gap' ++ t)

variable {p : Char → Bool} {b : Bool} {c : Char} {s t text rest gap : List Char}

/-- A class of characters that are not blank holds no blank. -/
theorem eq_false_of_isBlank (h : ∀ {c}, p c = true → isBlank c = false) (c : Char)
    (hc : isBlank c = true) : p c = false := by
  cases hpc : p c with
  | false => rfl
  | true => rw [h hpc] at hc; cases hc

/-- A gap begins with a blank, which has the properties of all blanks. -/
theorem head?_any_gap (hne : gap ≠ []) (hgap : IsGap gap) (hp : ∀ c, isBlank c = true → p c = b) :
    (gap ++ s).head?.any p = b := by
  cases gap with
  | nil => exact absurd rfl hne
  | cons d gap => exact hp d (hgap d List.mem_cons_self)

/-- Where all blanks belong to a class of characters, or none does, both texts begin in the class or
neither does. -/
theorem Respaced.head?_any (h : Respaced s t) (hp : ∀ c, isBlank c = true → p c = b) :
    s.head?.any p = t.head?.any p := by
  cases h with
  | nil => rfl
  | solid => rfl
  | gap hne hne' hgap hgap' => rw [head?_any_gap hne hgap hp, head?_any_gap hne' hgap' hp]

theorem Respaced.symm (h : Respaced s t) : Respaced t s := by
  induction h with
  | nil => exact .nil
  | solid hc _ ih => exact .solid hc ih
  | gap hne hne' hgap hgap' hend h ih =>
    exact .gap hne' hne hgap' hgap (h.head?_any (p := isBlank) (fun _ => id) ▸ hend) ih

/-- A respaced text is empty exactly if the text is. -/
theorem Respaced.eq_nil_iff (h : Respaced s t) : s = [] ↔ t = [] := by
  cases h with
  | nil => rfl
  | solid => simp
  | gap hne hne' => simp [hne, hne']

/-- Both texts begin with the same characters that are not blank. -/
theorem Respaced.of_cons (h : Respaced (c :: s) t) (hc : isBlank c = false) :
    ∃ t', t = c :: t' ∧ Respaced s t' := by
  generalize hs : c :: s = s' at h
  cases h with
  | nil => cases hs
  | solid _ h => cases hs; exact ⟨_, rfl, h⟩
  | @gap gap _ _ _ hne _ hgap =>
    cases gap with
    | nil => exact absurd rfl hne
    | cons d gap =>
      cases hs
      rw [hgap c List.mem_cons_self] at hc
      cases hc

/-- Respacing the rest of a text respaces the text. -/
theorem Respaced.append (htext : IsUnbroken text) (h : Respaced s t) :
    Respaced (text ++ s) (text ++ t) := by
  induction text with
  | nil => exact h
  | cons c text ih =>
    obtain ⟨hc, htext⟩ := List.forall_mem_cons.mp htext
    exact .solid hc (ih htext)

/-- What has no blanks stands unchanged at the front of a respaced text. -/
theorem Respaced.of_append (htext : IsUnbroken text) (h : Respaced (text ++ rest) t) :
    ∃ rest', t = text ++ rest' ∧ Respaced rest rest' := by
  induction text generalizing t with
  | nil => exact ⟨t, rfl, h⟩
  | cons c text ih =>
    obtain ⟨hc, htext⟩ := List.forall_mem_cons.mp htext
    obtain ⟨t', rfl, htail⟩ := h.of_cons hc
    obtain ⟨rest', rfl, hrest⟩ := ih htext htail
    exact ⟨rest', rfl, hrest⟩

/-- What remains of both texts when the longest runs of a class are dropped, which holds all blanks
or none. -/
theorem Respaced.dropWhile (h : Respaced s t) (hp : ∀ c, isBlank c = true → p c = b) :
    Respaced (s.dropWhile p) (t.dropWhile p) := by
  induction h with
  | nil => exact .nil
  | @solid c _ _ hc h ih =>
    rw [List.dropWhile_cons, List.dropWhile_cons]
    split
    · exact ih
    · exact .solid hc h
  | gap hne hne' hgap hgap' hend h ih =>
    cases b with
    | true =>
      rw [List.dropWhile_append_of_pos fun c hc => hp c (hgap c hc),
        List.dropWhile_append_of_pos fun c hc => hp c (hgap' c hc)]
      exact ih
    | false =>
      rw [dropWhile_eq_self (head?_any_gap hne hgap hp),
        dropWhile_eq_self (head?_any_gap hne' hgap' hp)]
      exact .gap hne hne' hgap hgap' hend h

/-- The longest runs of a class that holds no blanks are the same in both texts. -/
theorem Respaced.takeWhile_eq (h : Respaced s t) (hp : ∀ c, isBlank c = true → p c = false) :
    s.takeWhile p = t.takeWhile p := by
  induction h with
  | nil => rfl
  | solid _ _ ih => rw [List.takeWhile_cons, List.takeWhile_cons, ih]
  | gap hne hne' hgap hgap' =>
    rw [takeWhile_eq_nil (head?_any_gap hne hgap hp),
      takeWhile_eq_nil (head?_any_gap hne' hgap' hp)]

/-- A text and one that is spaced differently, each of them shorter than a bound. -/
structure Within (n m : Nat) (s t : List Char) : Prop where
  respaced : Respaced s t
  left : s.length < n
  right : t.length < m

theorem Within.mono {n m n' m' : Nat} (h : Within n m s t) (hn : n ≤ n') (hm : m ≤ m') :
    Within n' m' s t :=
  ⟨h.respaced, h.left.trans_le hn, h.right.trans_le hm⟩

/-- Dropping a run leaves texts that differ in spacing only, if blanks all belong to such runs or
none does. -/
theorem Within.dropWhile {n m : Nat} (h : Within n m s t) (hp : ∀ c, isBlank c = true → p c = b) :
    Within n m (s.dropWhile p) (t.dropWhile p) :=
  ⟨h.respaced.dropWhile hp, (List.dropWhile_sublist _).length_le.trans_lt h.left,
    (List.dropWhile_sublist _).length_le.trans_lt h.right⟩

/-- Skipping blanks leaves texts that differ in spacing only. -/
theorem Within.skipBlanks {n m : Nat} (h : Within n m s t) :
    Within n m (skipBlanks s) (skipBlanks t) :=
  h.dropWhile fun _ => id

/-- The same characters, and at least one, have been taken off both texts. -/
def SameFront (s t rest rest' : List Char) : Prop :=
  ∃ text, text ≠ [] ∧ s = text ++ rest ∧ t = text ++ rest' ∧ Respaced rest rest'

/-- Behind the same front, the rests still differ in spacing only. -/
theorem SameFront.respaced {rest' : List Char} (h : SameFront s t rest rest') :
    Respaced rest rest' := by
  obtain ⟨_, _, _, _, hrest⟩ := h
  exact hrest

theorem SameFront.within {rest' : List Char} (h : SameFront s t rest rest') :
    Within s.length t.length rest rest' := by
  obtain ⟨text, hne, rfl, rfl, hrest⟩ := h
  have hpos := List.length_pos_iff.mpr hne
  exact ⟨hrest, by rw [List.length_append]; omega, by rw [List.length_append]; omega⟩

/-- What is taken off in two steps is taken off as a whole. -/
theorem SameFront.trans {s₁ t₁ s₂ t₂ : List Char} (h : SameFront s t s₁ t₁)
    (h' : SameFront s₁ t₁ s₂ t₂) : SameFront s t s₂ t₂ := by
  obtain ⟨text, hne, rfl, rfl, -⟩ := h
  obtain ⟨text', -, rfl, rfl, hrest⟩ := h'
  exact ⟨text ++ text', by simp [hne], (List.append_assoc ..).symm,
    (List.append_assoc ..).symm, hrest⟩

/-- A run that goes on behind the same characters ends in the same place. -/
theorem SameFront.dropWhile {rest' : List Char} (h : SameFront s t rest rest')
    (hp : ∀ c, isBlank c = true → p c = false) :
    SameFront s t (rest.dropWhile p) (rest'.dropWhile p) := by
  obtain ⟨text, hne, rfl, rfl, hrest⟩ := h
  have heq := hrest.takeWhile_eq hp
  refine ⟨text ++ rest.takeWhile p, by simp [hne], ?_, ?_, hrest.dropWhile hp⟩
  · rw [List.append_assoc, List.takeWhile_append_dropWhile]
  · rw [heq, List.append_assoc, List.takeWhile_append_dropWhile]

end Text

open Text

/-! ### Results that may be missing -/

section Missing

variable {α β γ δ : Type} {R : α → β → Prop} {S : γ → δ → Prop} {x : Option α} {y : Option β}

/-- Readings that correspond go on to correspond. -/
theorem rel_bind {f : α → Option γ} {g : β → Option δ} (h : Option.Rel R x y)
    (hfg : ∀ a b, R a b → Option.Rel S (f a) (g b)) : Option.Rel S (x >>= f) (y >>= g) := by
  cases h with
  | none => exact .none
  | some h => exact hfg _ _ h

theorem rel_map {f : α → γ} {g : β → δ} (h : Option.Rel R x y)
    (hfg : ∀ a b, R a b → S (f a) (g b)) : Option.Rel S (x.map f) (y.map g) := by
  cases h with
  | none => exact .none
  | some h => exact .some (hfg _ _ h)

theorem rel_mono {R' : α → β → Prop} (h : Option.Rel R x y) (himp : ∀ a b, R a b → R' a b) :
    Option.Rel R' x y := by
  cases h with
  | none => exact .none
  | some h => exact .some (himp _ _ h)

/-- Choices between readings that correspond have results that correspond. -/
theorem rel_orElse {x' : Option α} {y' : Option β} (h : Option.Rel R x y)
    (h' : Option.Rel R x' y') : Option.Rel R (x <|> x') (y <|> y') := by
  cases h with
  | none => exact h'
  | some h => exact .some h

theorem isSome_eq_of_rel (h : Option.Rel R x y) : x.isSome = y.isSome := by
  cases h <;> rfl

end Missing

namespace Reader

/-! ### Readers of words and marks -/

section Verbatim

variable {α β : Type} {item : Reader α} {p : Char → Bool} {s t : List Char}

/-- The reader takes the same characters off two differently spaced texts and makes the same of
them. -/
def Verbatim (item : Reader α) : Prop :=
  ∀ ⦃s t⦄, Respaced s t → Option.Rel (fun x y => x.1 = y.1 ∧ SameFront s t x.2 y.2)
    (item s) (item t)

theorem verbatim_satisfying (hp : ∀ c, isBlank c = true → p c = false) :
    Verbatim (satisfying p) := by
  intro s t h
  cases h with
  | nil => exact .none
  | @solid c s t hc h =>
    cases hpc : p c with
    | true =>
      rw [satisfying_cons hpc, satisfying_cons hpc]
      exact .some ⟨rfl, [c], List.cons_ne_nil c [], rfl, rfl, h⟩
    | false =>
      rw [satisfying_eq_none (by simpa using hpc), satisfying_eq_none (by simpa using hpc)]
      exact .none
  | gap hne hne' hgap hgap' =>
    rw [satisfying_eq_none (head?_any_gap hne hgap hp),
      satisfying_eq_none (head?_any_gap hne' hgap' hp)]
    exact .none

theorem literal_eq_none {text : List Char} (h : ¬ text <+: s) : literal text s = none :=
  if_neg fun hpre => h (List.isPrefixOf_iff_prefix.mp hpre)

/-- A given text without blanks is read alike. -/
theorem verbatim_literal {text : List Char} (hne : text ≠ []) (htext : IsUnbroken text) :
    Verbatim (literal text) := by
  intro s t h
  by_cases hs : text <+: s
  · obtain ⟨rest, rfl⟩ := hs
    obtain ⟨rest', rfl, hrest⟩ := h.of_append htext
    rw [literal_append, literal_append]
    exact .some ⟨rfl, text, hne, rfl, rfl, hrest⟩
  · -- if the one text does not begin with it, the other one does not either
    have ht : ¬ text <+: t := by
      rintro ⟨rest, rfl⟩
      obtain ⟨rest', rfl, -⟩ := h.symm.of_append htext
      exact hs (List.prefix_append text rest')
    rw [literal_eq_none hs, literal_eq_none ht]
    exact .none

theorem char_eq_literal (c : Char) : char c = literal [c] := by
  funext s
  by_cases h : s.head? = some c
  · obtain ⟨rest, rfl⟩ := List.head?_eq_some_iff.mp h
    rw [char_cons]
    exact (literal_append : literal [c] ([c] ++ rest) = some ((), rest)).symm
  · have hs : ¬ [c] <+: s := by
      rintro ⟨rest, rfl⟩
      exact h rfl
    rw [char_eq_none h, literal_eq_none hs]

theorem verbatim_char {c : Char} (hc : isBlank c = false) : Verbatim (char c) := by
  rw [char_eq_literal]
  exact verbatim_literal (List.cons_ne_nil c []) (List.forall_mem_singleton.mpr hc)

theorem verbatim_run (hp : ∀ c, isBlank c = true → p c = false) : Verbatim (run p) := by
  intro s t h
  have htext := h.takeWhile_eq hp
  unfold run
  rw [htext]
  cases hrun : t.takeWhile p with
  | nil => exact .none
  | cons c text =>
    have hs : s = (c :: text) ++ s.dropWhile p := by
      rw [← hrun, ← htext, List.takeWhile_append_dropWhile]
    have ht : t = (c :: text) ++ t.dropWhile p := by rw [← hrun, List.takeWhile_append_dropWhile]
    exact .some ⟨rfl, c :: text, List.cons_ne_nil c text, hs, ht, h.dropWhile hp⟩

/-- One item, and another one behind it that may be missing. -/
theorem Verbatim.thenOptional {second : Reader β} (h : Verbatim item) (h' : Verbatim second) :
    Verbatim (fun s => do
      let (_, s) ← item s
      some ((), (optional second s).2)) := by
  intro s t hst
  refine rel_bind (h hst) ?_
  rintro ⟨a, r⟩ ⟨_, r'⟩ ⟨rfl, hfront⟩
  have hsecond := h' hfront.respaced
  refine .some ⟨rfl, ?_⟩
  unfold optional
  generalize second r = x at hsecond ⊢
  generalize second r' = y at hsecond ⊢
  cases hsecond with
  | none => exact hfront
  | some hmore => exact hfront.trans hmore.2

end Verbatim

/-! ### Steady readers -/

section Steady

variable {n m : Nat} {α β : Type} {A : α → α → Prop} {B : β → β → Prop} {item item' : Reader α}
  {second second' : Reader β} {s t : List Char}

/-- Two readers that take something off two texts, or fail on both of them. The texts are spaced
differently and not too long. What is returned corresponds, and what remains are again texts that
are spaced differently. -/
def Steady (n m : Nat) (A : α → α → Prop) (item item' : Reader α) : Prop :=
  ∀ ⦃s t⦄, Within n m s t →
    Option.Rel (fun x y => A x.1 y.1 ∧ Within s.length t.length x.2 y.2) (item s) (item' t)

/-- What is read alike is steady. -/
theorem Verbatim.steady (h : Verbatim item) : Steady n m Eq item item :=
  fun _ _ hw => rel_mono (h hw.respaced) fun _ _ ⟨heq, hfront⟩ => ⟨heq, hfront.within⟩

theorem Steady.map {f : α → β} (h : Steady n m A item item') (hf : ∀ a b, A a b → B (f a) (f b)) :
    Steady n m B (Reader.map f item) (Reader.map f item') :=
  fun _ _ hw => rel_map (h hw) fun _ _ ⟨ha, hrest⟩ => ⟨hf _ _ ha, hrest⟩

/-- A choice between steady readers is steady: where one text fails, so does the other. -/
theorem Steady.orElse {other other' : Reader α} (h : Steady n m A item item')
    (h' : Steady n m A other other') :
    Steady n m A (Reader.orElse item other) (Reader.orElse item' other') :=
  fun _ _ hw => rel_orElse (h hw) (h' hw)

/-- Skipping blanks makes up for the different spacing. -/
theorem Steady.skipping (h : Steady n m A item item') :
    Steady n m A (skipping item) (skipping item') :=
  fun _ _ hw => rel_mono (h hw.skipBlanks) fun _ _ ⟨ha, hrest⟩ =>
    ⟨ha, hrest.mono (List.dropWhile_sublist _).length_le (List.dropWhile_sublist _).length_le⟩

/-- Two steady readers in a row are steady, with any blanks between them. -/
theorem Steady.pair (h : Steady n m A item item') (h' : Steady n m B second second') :
    Steady n m (fun x y => A x.1 y.1 ∧ B x.2 y.2) (pair item second) (pair item' second') := by
  intro s t hw
  refine rel_bind (h hw) ?_
  rintro ⟨a, r⟩ ⟨a', r'⟩ ⟨ha, hr⟩
  refine rel_bind (h'.skipping (hr.mono hw.left.le hw.right.le)) ?_
  rintro ⟨b, u⟩ ⟨b', u'⟩ ⟨hb, hu⟩
  exact .some ⟨⟨ha, hb⟩, hu.mono hr.left.le hr.right.le⟩

/-- What stands between two characters is shorter than what it stands in. -/
theorem Steady.between {opening closing : Char} (h : Steady n m A item item')
    (ho : isBlank opening = false) (hc : isBlank closing = false) :
    Steady (n + 1) (m + 1) A (between opening closing item) (between opening closing item') := by
  intro s t hw
  refine rel_bind ((verbatim_char ho).steady hw) ?_
  rintro ⟨_, r⟩ ⟨_, r'⟩ ⟨-, hr⟩
  have hinside : Within n m r r' := hr.mono (Nat.le_of_lt_succ hw.left) (Nat.le_of_lt_succ hw.right)
  refine rel_bind (h.skipping hinside) ?_
  rintro ⟨a, u⟩ ⟨b, u'⟩ ⟨ha, hu⟩
  refine rel_bind ((verbatim_char hc).steady.skipping hu) ?_
  rintro ⟨_, v⟩ ⟨_, v'⟩ ⟨-, hv⟩
  exact .some ⟨ha, (hv.mono hu.left.le hu.right.le).mono hr.left.le hr.right.le⟩

/-- A steady item behind a mark is steady. -/
theorem Steady.introduced {mark : Char} (h : Steady n m A item item')
    (hmark : isBlank mark = false) : Steady n m A (introduced mark item) (introduced mark item') :=
  ((verbatim_char hmark).steady.pair h).skipping.map fun _ _ h => h.2

/-- An item that is missing in the one text is missing in the other one. -/
theorem Steady.optional (h : Steady n m A item item') (hw : Within n m s t) :
    Option.Rel A (optional item s).1 (optional item' t).1 ∧
      Within (s.length + 1) (t.length + 1) (optional item s).2 (optional item' t).2 := by
  have hst := h hw
  unfold Reader.optional
  generalize item s = x at hst ⊢
  generalize item' t = y at hst ⊢
  cases hst with
  | none => exact ⟨.none, hw.respaced, Nat.lt_succ_self _, Nat.lt_succ_self _⟩
  | some h => exact ⟨.some h.1, h.2.mono (Nat.le_succ _) (Nat.le_succ _)⟩

/-- Rows are of the same length. The induction is along the row in the first text. -/
theorem Steady.many (h : Steady n m A item item') (hw : Within n m s t) :
    List.Forall₂ A (many item s).1 (many item' t).1 ∧
      Within (s.length + 1) (t.length + 1) (many item s).2 (many item' t).2 := by
  fun_induction Reader.many item s generalizing t with
  | case1 s hnone =>
    have hst := h hw
    rw [hnone] at hst
    generalize ht : item' t = y at hst
    cases hst
    rw [many_of_none ht]
    exact ⟨.nil, hw.respaced, Nat.lt_succ_self _, Nat.lt_succ_self _⟩
  | case2 s a rest hs hlt more tail hmore ih =>
    have hst := h hw
    rw [hs] at hst
    generalize ht : item' t = y at hst
    cases hst with
    | @some _ x h =>
      obtain ⟨ha, hrest⟩ := h
      obtain ⟨hall, htail⟩ := ih (hrest.mono hw.left.le hw.right.le)
      rw [hmore] at hall htail
      rw [many_of_some ht hrest.right]
      exact ⟨.cons ha hall, htail.mono (Nat.succ_le_succ hrest.left.le)
        (Nat.succ_le_succ hrest.right.le)⟩
  -- an item that takes nothing would end the repetition, but steady readers take something
  | case3 s a rest hs hlt =>
    have hst := h hw
    rw [hs] at hst
    generalize item' t = y at hst
    cases hst with
    | some h => exact absurd h.2.left hlt

/-- Steady items with commas between them are as many in both texts, and correspond in order. -/
theorem Steady.commaSeparated (h : Steady n m A item item') :
    Steady n m (fun x y => A x.1 y.1 ∧ List.Forall₂ A x.2 y.2) (commaSeparated item)
      (commaSeparated item') := by
  intro s t hw
  refine rel_bind (h hw) ?_
  rintro ⟨a, r⟩ ⟨b, r'⟩ ⟨ha, hr⟩
  have hcomma : isBlank ',' = false := by decide
  obtain ⟨hall, hrest⟩ := (h.introduced hcomma).many (hr.mono hw.left.le hw.right.le)
  exact .some ⟨⟨ha, hall⟩, hrest.mono hr.left hr.right⟩

end Steady

end Reader

end PluralRules
