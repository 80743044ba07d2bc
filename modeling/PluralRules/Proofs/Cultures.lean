import Mathlib
import PluralRules.Proofs.Groups
import PluralRules.Proofs.Inline

/-!
# Canonical names of cultures

The name of a culture is canonical if it is what `Culture.canonical` makes of itself. That this is
so for every name that it gives is shown through the grammar of language tags. A text is a tag if
its subtags are those of a well-formed `LanguageTag` in some spelling
(`LanguageTag.ofSubtags?_eq_some_iff`), and the tag that is read is that one with its parts
respelled. Respelling a tag twice is the same as doing it once, and what is respelled is
well-formed, so it is read back from its text.

The grammar looks at the lengths of subtags and at classes of characters that do not depend on
letter case, and the respelled variants are sorted. So neither the letter case nor the order of the
variants has an influence on the canonical name, and the blanks around a name have none because
names are trimmed (`Culture.canonical_is_normal`).
-/

namespace PluralRules

/-! ### Letter case -/

section Characters

variable {c : Char}

/-- A character other than a letter is its own lower case. -/
theorem toLower_of_not_isAlpha (h : c.isAlpha = false) : c.toLower = c := by
  apply Char.toLower_eq_of_not_isUpper
  simp_all [Char.isAlpha]

/-- What is said of letters in the same way whatever their case is said of all characters so. -/
theorem apply_toLower {p : Char → Bool} (h : ∀ c, c.isAlpha = true → p c = p 'a') (c : Char) :
    p c.toLower = p c := by
  cases hc : c.isAlpha with
  | true => rw [h c hc, h c.toLower (by simpa using hc)]
  | false => rw [toLower_of_not_isAlpha hc]

@[simp] theorem isDigit_toLower (c : Char) : c.toLower.isDigit = c.isDigit :=
  apply_toLower (fun _ h => Grammar.isDigit_of_isWordChar (Grammar.isWordChar_iff.mpr (Or.inl h))) c

@[simp] theorem isAlphanum_toLower (c : Char) : c.toLower.isAlphanum = c.isAlphanum := by
  simp [Char.isAlphanum]

@[simp] theorem isBlank_toLower (c : Char) : Text.isBlank c.toLower = Text.isBlank c :=
  apply_toLower (fun _ h => Grammar.isBlank_of_isNameChar (Grammar.isNameChar_iff.mpr (Or.inl h))) c

@[simp] theorem toLower_beq_hyphen (c : Char) : (c.toLower == '-') = (c == '-') :=
  apply_toLower (p := (· == '-')) (fun _ h => beq_false_of_ne fun heq => by rw [heq] at h; cases h)
    c

end Characters

namespace Text

variable {s t : List Char}

@[simp] theorem length_foldCase (s : List Char) : (foldCase s).length = s.length :=
  List.length_map _

/-- Folding the letter case twice is folding it once. -/
@[simp] theorem foldCase_foldCase (s : List Char) : foldCase (foldCase s) = foldCase s := by
  simp [foldCase]

/-- What has been put into upper case folds to the same text. -/
@[simp] theorem foldCase_toUpper (s : List Char) : foldCase (s.map Char.toUpper) = foldCase s := by
  simp [foldCase]

/-- Folded text becomes the same in upper case. -/
@[simp] theorem map_toUpper_foldCase (s : List Char) :
    (foldCase s).map Char.toUpper = s.map Char.toUpper := by
  simp [foldCase]

@[simp] theorem foldCase_eq_nil_iff : foldCase s = [] ↔ s = [] := List.map_eq_nil_iff

/-- Folding keeps a property of characters that does not depend on letter case. -/
theorem all_foldCase {p : Char → Bool} (h : ∀ c : Char, p c.toLower = p c) (s : List Char) :
    (foldCase s).all p = s.all p := by
  simp [foldCase, Function.comp_def, h]

/-- Two texts differ at most in letter case exactly if they fold to the same text. -/
theorem sameFolded_iff : sameFolded s t = true ↔ foldCase s = foldCase t := beq_iff_eq

/-- Letter case does not matter for where a text splits. -/
theorem splitOn_foldCase (s : List Char) :
    (foldCase s).splitOn '-' = (s.splitOn '-').map foldCase := by
  induction s with
  | nil => rfl
  | cons c s ih =>
    show (c.toLower :: foldCase s).splitOn '-' = _
    rw [List.splitOn_cons_eq_if_modifyHead, List.splitOn_cons_eq_if_modifyHead,
      toLower_beq_hyphen, ih]
    obtain ⟨first, more, hsplit⟩ := List.exists_cons_of_ne_nil (List.splitOn_ne_nil '-' s)
    rw [hsplit]
    split <;> rfl

/-- A text without blanks stays when the blanks around it are dropped. -/
theorem trim_append {before after : List Char} (hbefore : ∀ c ∈ before, isBlank c = true)
    (hafter : ∀ c ∈ after, isBlank c = true) (h : IsTrimmed s) (hne : s ≠ []) :
    trim (before ++ s ++ after) = s := by
  have hsolid : IsSolid (s ++ after) := by
    obtain ⟨c, r, rfl⟩ := List.exists_cons_of_ne_nil hne
    exact ⟨c, r ++ after, rfl, by simpa using h.1⟩
  have hend : (s ++ after).reverse.dropWhile isBlank = s.reverse := by
    rw [List.reverse_append]
    apply dropWhile_run
    · simpa using hafter
    · simpa [List.head?_reverse] using h.2
  rw [trim, List.append_assoc, skipBlanks_append hbefore hsolid, trimEnd, hend,
    List.reverse_reverse]

end Text

/-! ### The grammar of language tags -/

namespace LanguageTag

variable {s : List Char} {subtags more : List (List Char)} {tag : LanguageTag}

@[simp] theorem isLanguage_foldCase (s : List Char) :
    isLanguage (Text.foldCase s) = isLanguage s := by
  simp [isLanguage, Text.all_foldCase]

@[simp] theorem isScript_foldCase (s : List Char) : isScript (Text.foldCase s) = isScript s := by
  simp [isScript, Text.all_foldCase]

@[simp] theorem isRegion_foldCase (s : List Char) : isRegion (Text.foldCase s) = isRegion s := by
  simp [isRegion, Text.all_foldCase]

/-- Whether a text can name a variant does not depend on its letter case. -/
@[simp] theorem isVariant_foldCase (s : List Char) : isVariant (Text.foldCase s) = isVariant s := by
  cases s <;> simp [isVariant, Text.foldCase, Function.comp_def]

@[simp] theorem foldCase_titleCase (s : List Char) :
    Text.foldCase (titleCase s) = Text.foldCase s := by
  cases s <;> simp [titleCase, Text.foldCase]

@[simp] theorem titleCase_foldCase (s : List Char) : titleCase (Text.foldCase s) = titleCase s := by
  cases s <;> simp [titleCase, Text.foldCase]

/-- Text in title case keeps its spelling. -/
@[simp] theorem titleCase_titleCase (s : List Char) : titleCase (titleCase s) = titleCase s := by
  rw [← titleCase_foldCase, foldCase_titleCase, titleCase_foldCase]

theorem isScript_titleCase (s : List Char) : isScript (titleCase s) = isScript s := by
  rw [← isScript_foldCase, foldCase_titleCase, isScript_foldCase]

theorem isRegion_toUpper (s : List Char) : isRegion (s.map Char.toUpper) = isRegion s := by
  rw [← isRegion_foldCase, Text.foldCase_toUpper, isRegion_foldCase]

/-- A subtag fits one of the places behind the language at most. -/
theorem isScript_of_isRegion (h : isRegion s = true) : isScript s = false := by
  grind [isRegion, isScript]

/-- A variant is never taken for a script. -/
theorem isScript_of_isVariant (h : isVariant s = true) : isScript s = false := by
  cases s with
  | nil => rfl
  | cons c s => grind [isVariant, isScript, Grammar.isDigit_of_isWordChar, Grammar.isWordChar_iff]

theorem isRegion_of_isVariant (h : isVariant s = true) : isRegion s = false := by
  grind [isVariant, isRegion]

/-- A tag whose parts are what they ought to be, in any spelling. No variant occurs twice, in
whatever spelling. -/
structure WellFormed (tag : LanguageTag) : Prop where
  language : isLanguage tag.language = true
  script : ∀ s ∈ tag.script, isScript s = true
  region : ∀ s ∈ tag.region, isRegion s = true
  variants : ∀ s ∈ tag.variants, isVariant s = true
  distinct : (tag.variants.map Text.foldCase).Nodup

def ascending (subtags : List (List Char)) : List (List Char) :=
  subtags.mergeSort fun s t => (Ord.compare s t).isLE

/-- The tag with its parts in canonical spelling and its variants in ascending order. -/
def respelled (tag : LanguageTag) : LanguageTag where
  language := Text.foldCase tag.language
  script := tag.script.map titleCase
  region := tag.region.map (·.map Char.toUpper)
  variants := ascending (tag.variants.map Text.foldCase)

/-- A part is missing where the next subtag does not fit its place. -/
theorem takeIf_append {fits : List Char → Bool} {spell : List Char → List Char}
    {part : Option (List Char)} (hpart : ∀ s ∈ part, fits s = true)
    (hmore : ∀ s ∈ more.head?, fits s = false) :
    takeIf fits spell (part.toList ++ more) = (part.map spell, more) := by
  cases part with
  | some s => simp [takeIf, hpart]
  | none => cases more <;> simp_all [takeIf]

/-- What is taken off the front of the subtags fits and is respelled; the others stay as they
are. -/
theorem exists_of_takeIf (fits : List Char → Bool) (spell : List Char → List Char)
    (subtags : List (List Char)) : ∃ part : Option (List Char), (∀ s ∈ part, fits s = true) ∧
      subtags = part.toList ++ (takeIf fits spell subtags).2 ∧
      (takeIf fits spell subtags).1 = part.map spell := by
  cases subtags with
  | nil => exact ⟨none, by simp, rfl, rfl⟩
  | cons first more =>
    cases h : fits first with
    | true => exact ⟨some first, by simpa using h, by simp [takeIf, h], by simp [takeIf, h]⟩
    | false => exact ⟨none, by simp, by simp [takeIf, h], by simp [takeIf, h]⟩

/-- Nothing is dropped exactly if nothing occurs twice. -/
theorem length_eraseDups_eq_iff {xs : List (List Char)} :
    xs.eraseDups.length = xs.length ↔ xs.Nodup := by
  have hset : xs.eraseDups.toFinset = xs.toFinset := Finset.ext fun x => by simp
  rw [← List.toFinset_card_of_nodup (Rule.nodup_eraseDups xs), hset]
  exact Multiset.toFinset_card_eq_card_iff_nodup.trans Multiset.coe_nodup

/-- Subtags are a tag exactly if they are those of a well-formed tag in some spelling, which is then
read respelled. -/
theorem ofSubtags?_eq_some_iff : ofSubtags? subtags = some tag ↔
    ∃ written : LanguageTag, written.WellFormed ∧ written.subtags = subtags ∧
      tag = written.respelled := by
  constructor
  · intro h
    cases subtags with
    | nil => cases h
    | cons language more =>
      -- the tag as it was written, before the parts were respelled
      obtain ⟨script, hscript, hmore, hscriptSpelled⟩ := exists_of_takeIf isScript titleCase more
      obtain ⟨region, hregion, hvariants, hregionSpelled⟩ :=
        exists_of_takeIf isRegion (·.map Char.toUpper) (takeIf isScript titleCase more).2
      simp only [ofSubtags?, hscriptSpelled, hregionSpelled] at h
      split at h
      · cases h
      · next hlanguage =>
        split at h
        · next hall =>
          simp only [Bool.and_eq_true, beq_iff_eq, length_eraseDups_eq_iff, List.all_eq_true]
            at hall
          rw [Bool.not_eq_true', Bool.not_eq_false] at hlanguage
          refine ⟨⟨language, script, region, _⟩, ⟨hlanguage, hscript, hregion, hall.1, hall.2⟩, ?_,
            (Option.some.inj h).symm⟩
          simp only [LanguageTag.subtags]
          rw [List.cons_append, List.cons_append, List.append_assoc, ← hvariants, ← hmore]
        · cases h
  · rintro ⟨written, h, rfl, rfl⟩
    -- no part fits a place before its own, so each one is taken where it belongs
    have hregion :
        takeIf isRegion (·.map Char.toUpper) (written.region.toList ++ written.variants) =
        (written.region.map (·.map Char.toUpper), written.variants) :=
      takeIf_append h.region fun s hs => isRegion_of_isVariant
        (h.variants s (List.mem_of_mem_head? hs))
    have hscript : takeIf isScript titleCase
        (written.script.toList ++ (written.region.toList ++ written.variants)) =
          (written.script.map titleCase, written.region.toList ++ written.variants) := by
      refine takeIf_append h.script fun s hs => ?_
      rcases List.mem_append.mp (List.mem_of_mem_head? hs) with hs | hs
      · exact isScript_of_isRegion (h.region s (by simpa using hs))
      · exact isScript_of_isVariant (h.variants s hs)
    have hall : (written.variants.all isVariant &&
        (written.variants.map Text.foldCase).eraseDups.length ==
          (written.variants.map Text.foldCase).length) = true := by
      rw [Bool.and_eq_true, beq_iff_eq, length_eraseDups_eq_iff, List.all_eq_true]
      exact ⟨h.variants, h.distinct⟩
    have hsubtags : written.subtags = written.language ::
        (written.script.toList ++ (written.region.toList ++ written.variants)) := by
      simp [LanguageTag.subtags]
    rw [hsubtags]
    simp only [ofSubtags?, h.language, hscript, hregion, hall, Bool.not_true,
      Bool.false_eq_true, if_false, if_true]
    rfl

/-! ### Respelled tags -/

theorem ascending_perm (subtags : List (List Char)) : (ascending subtags).Perm subtags :=
  List.mergeSort_perm _ _

theorem pairwise_ascending (subtags : List (List Char)) :
    (ascending subtags).Pairwise fun s t => (Ord.compare s t).isLE = true := by
  apply List.pairwise_mergeSort
  · exact fun _ _ _ => Std.TransCmp.isLE_trans
  · intro s t
    cases h : Ord.compare s t <;> simp [h, Std.OrientedCmp.lt_of_gt]

/-- The order in which subtags come does not matter, because two of the same rank are the same. -/
theorem ascending_congr (h : subtags.Perm more) : ascending subtags = ascending more := by
  apply List.Perm.eq_of_pairwise ?_ (pairwise_ascending subtags) (pairwise_ascending more)
  · exact ((ascending_perm subtags).trans h).trans (ascending_perm more).symm
  · intro s t _ _ hst hts
    exact Std.LawfulEqCmp.eq_of_compare (Std.OrientedCmp.isLE_antisymm hst hts)

/-- The canonical spelling of a well-formed tag is well formed. -/
theorem WellFormed.respelled (h : tag.WellFormed) : tag.respelled.WellFormed where
  language := by simpa [LanguageTag.respelled] using h.language
  script := by simpa [LanguageTag.respelled, isScript_titleCase] using h.script
  region := by simpa [LanguageTag.respelled, isRegion_toUpper] using h.region
  variants := by
    intro s hs
    obtain ⟨t, ht, rfl⟩ := List.mem_map.mp ((ascending_perm _).mem_iff.mp hs)
    simpa using h.variants t ht
  distinct := by
    refine ((ascending_perm _).map Text.foldCase).nodup_iff.mpr ?_
    simpa [Function.comp_def] using h.distinct

/-- The variants of a well-formed tag may stand in any order. -/
theorem WellFormed.reordered (h : tag.WellFormed) {variants : List (List Char)}
    (hvariants : variants.Perm tag.variants) : { tag with variants }.WellFormed where
  language := h.language
  script := h.script
  region := h.region
  variants := fun s hs => h.variants s (hvariants.mem_iff.mp hs)
  distinct := (hvariants.map Text.foldCase).nodup_iff.mpr h.distinct

/-- The canonical spelling does not depend on the order of the variants. -/
theorem respelled_congr {variants : List (List Char)} (h : variants.Perm tag.variants) :
    { tag with variants }.respelled = tag.respelled := by
  simp only [respelled, ascending_congr (h.map Text.foldCase)]

/-- The canonical spelling is its own canonical spelling. -/
@[simp] theorem respelled_respelled (tag : LanguageTag) :
    tag.respelled.respelled = tag.respelled := by
  have hvariants : ascending ((ascending (tag.variants.map Text.foldCase)).map Text.foldCase) =
      ascending (tag.variants.map Text.foldCase) := by
    apply ascending_congr
    simpa [Function.comp_def]
      using (ascending_perm (tag.variants.map Text.foldCase)).map Text.foldCase
  simp [respelled, hvariants, Function.comp_def]

/-! ### Texts of tags -/

/-- Taking a subtag does not depend on letter case, if neither the place nor the spelling does. -/
theorem takeIf_foldCase {fits : List Char → Bool} {spell : List Char → List Char}
    (hfits : ∀ s, fits (Text.foldCase s) = fits s) (hspell : ∀ s, spell (Text.foldCase s) = spell s)
    (subtags : List (List Char)) : takeIf fits spell (subtags.map Text.foldCase) =
      ((takeIf fits spell subtags).1, (takeIf fits spell subtags).2.map Text.foldCase) := by
  cases subtags with
  | nil => rfl
  | cons first more => cases h : fits first <;> simp [takeIf, hfits, hspell, h]

/-- Reading subtags does not depend on their letter case. -/
theorem ofSubtags?_foldCase (subtags : List (List Char)) :
    ofSubtags? (subtags.map Text.foldCase) = ofSubtags? subtags := by
  cases subtags with
  | nil => rfl
  | cons language more =>
    have hscript := takeIf_foldCase isScript_foldCase titleCase_foldCase more
    have hregion := takeIf_foldCase isRegion_foldCase Text.map_toUpper_foldCase
      (takeIf isScript titleCase more).2
    simp [ofSubtags?, hscript, hregion, Function.comp_def]

/-- The letter case of a text does not matter for the tag that it is. -/
theorem ofChars?_congr {t : List Char} (h : Text.sameFolded s t = true) :
    ofChars? s = ofChars? t := by
  rw [ofChars?, ← ofSubtags?_foldCase, ← Text.splitOn_foldCase, Text.sameFolded_iff.mp h,
    Text.splitOn_foldCase, ofSubtags?_foldCase, ofChars?]

theorem WellFormed.all_isAlphanum (h : tag.WellFormed) (hs : s ∈ tag.subtags) :
    s.all Char.isAlphanum = true := by
  have hcases : s = tag.language ∨ s ∈ tag.script ∨ s ∈ tag.region ∨ s ∈ tag.variants := by
    simpa [subtags, or_assoc] using hs
  rcases hcases with rfl | hs | hs | hs
  · grind [h.language, isLanguage, Char.isAlphanum]
  · grind [h.script s hs, isScript, Char.isAlphanum]
  · grind [h.region s hs, isRegion, Char.isAlphanum]
  · grind [h.variants s hs, isVariant]

/-- The hyphens in the text of a tag stand between its subtags and nowhere else. -/
theorem WellFormed.splitOn_chars (h : tag.WellFormed) : tag.chars.splitOn '-' = tag.subtags := by
  apply List.splitOn_intercalate
  · intro s hs hmem
    have halnum := List.all_eq_true.mp (h.all_isAlphanum hs) '-' hmem
    cases halnum
  · simp [subtags]

/-- The text of a well-formed tag has no blanks. -/
theorem WellFormed.isBlank_of_mem_chars (h : tag.WellFormed) {c : Char} (hc : c ∈ tag.chars) :
    Text.isBlank c = false := by
  rcases Text.mem_or_mem_of_mem_intercalate hc with hc | ⟨s, hs, hc⟩
  · rw [List.mem_singleton.mp hc]
    decide
  · have halnum := List.all_eq_true.mp (h.all_isAlphanum hs) c hc
    apply Grammar.isBlank_of_isNameChar
    simp [Grammar.isNameChar, halnum]

theorem WellFormed.chars_ne_nil (h : tag.WellFormed) : tag.chars ≠ [] := by
  intro hchars
  have hsubtags := h.splitOn_chars
  rw [hchars] at hsubtags
  have hlanguage : tag.language = [] := (List.cons.inj hsubtags).1.symm
  simpa [hlanguage, isLanguage] using h.language

/-- A text is read as a tag exactly if it is that of a well-formed tag in some spelling. -/
theorem ofChars?_eq_some_iff : ofChars? s = some tag ↔
    ∃ written : LanguageTag, written.WellFormed ∧ written.chars = s ∧ tag = written.respelled := by
  rw [ofChars?, ofSubtags?_eq_some_iff]
  constructor
  · rintro ⟨written, h, hsubtags, rfl⟩
    refine ⟨written, h, ?_, rfl⟩
    rw [chars, hsubtags, List.intercalate_splitOn]
  · rintro ⟨written, h, rfl, rfl⟩
    exact ⟨written, h, h.splitOn_chars.symm, rfl⟩

/-- The text of a well-formed tag is read as the tag in canonical spelling. -/
theorem ofChars?_chars (h : tag.WellFormed) : ofChars? tag.chars = some tag.respelled :=
  ofChars?_eq_some_iff.mpr ⟨tag, h, rfl, rfl⟩

/-- The names of the root culture are no tags. -/
theorem ofChars?_eq_none (h : s = [] ∨ Culture.isRootName s = true) : ofChars? s = none := by
  rcases h with rfl | h
  · decide
  · rw [ofChars?_congr h]
    decide

end LanguageTag

/-! ### Canonical names -/

namespace Culture

open LanguageTag

variable {s : List Char} {tag : LanguageTag}

/-- The name of the culture of a tag, which is empty for the root culture. -/
def nameOf (tag : LanguageTag) : List Char := if tag.chars = "und".toList then [] else tag.chars

/-- The canonical spelling of a tag is its name. -/
theorem canonicalChars_of_tag (h : ofChars? (Text.trim s) = some tag) :
    canonicalChars s = nameOf tag := by
  have hname : ((Text.trim s).isEmpty || isRootName (Text.trim s)) = false := by
    by_contra hroot
    rw [Bool.not_eq_false, Bool.or_eq_true, List.isEmpty_iff] at hroot
    cases h.symm.trans (ofChars?_eq_none hroot)
  simp [canonicalChars, hname, h, nameOf]

/-- What is no tag is kept but for the blanks around it, and the root culture has the empty name. -/
theorem canonicalChars_of_verbatim (h : ofChars? (Text.trim s) = none) :
    canonicalChars s =
      if Text.trim s = [] ∨ isRootName (Text.trim s) = true then [] else Text.trim s := by
  simp [canonicalChars, h]

theorem canonicalChars_canonicalChars (s : List Char) :
    canonicalChars (canonicalChars s) = canonicalChars s := by
  cases h : ofChars? (Text.trim s) with
  | none =>
    have htrim : Text.trim (Text.trim s) = Text.trim s :=
      Text.trim_eq_self (Text.isTrimmed_trimEnd (head?_dropWhile_any Text.isBlank s))
    rw [canonicalChars_of_verbatim h]
    split
    · rfl
    · next hname => rw [canonicalChars_of_verbatim (htrim.symm ▸ h), htrim, if_neg hname]
  | some tag =>
    obtain ⟨written, hwritten, -, rfl⟩ := ofChars?_eq_some_iff.mp h
    have htrim : Text.trim written.respelled.chars = written.respelled.chars :=
      Text.trim_eq_self
        (Text.isTrimmed_of_forall fun c hc => hwritten.respelled.isBlank_of_mem_chars hc)
    have hread := ofChars?_chars hwritten.respelled
    rw [respelled_respelled] at hread
    rw [canonicalChars_of_tag h, nameOf]
    split
    · rfl
    · next hund => rw [canonicalChars_of_tag (htrim.symm ▸ hread), nameOf, if_neg hund]

/-- The canonical spelling of a canonical spelling is itself. -/
theorem canonical_canonical (culture : String) :
    canonical (canonical culture) = canonical culture := by
  simp [canonical, canonicalChars_canonicalChars]

/-! ### The root culture -/

def root : LanguageTag := ⟨"und".toList, none, none, []⟩

theorem wellFormed_root : root.WellFormed := ⟨by decide, nofun, nofun, nofun, .nil⟩

theorem respelled_root : root.respelled = root := by
  simp [respelled, root, ascending, Text.foldCase]

/-- Only the root tag is printed as `und`. -/
theorem eq_root_of_chars (h : tag.WellFormed) (hchars : tag.chars = "und".toList) : tag = root := by
  have hsubtags : tag.subtags = ["und".toList] := by
    rw [← h.splitOn_chars, hchars]
    decide
  cases tag
  simp_all [subtags, root]

/-- A tag that is respelled to that of the root culture is its language alone. -/
theorem chars_of_respelled_eq_root (h : tag.respelled = root) :
    Text.sameFolded tag.chars "und".toList = true := by
  obtain ⟨language, script, region, variants⟩ := tag
  obtain ⟨hlanguage, hscript, hregion, hvariants⟩ := LanguageTag.mk.inj h
  obtain rfl : script = none := by simpa using hscript
  obtain rfl : region = none := by simpa using hregion
  obtain rfl : variants = [] := by
    have hperm := ascending_perm (variants.map Text.foldCase)
    rw [hvariants] at hperm
    simpa using hperm.nil_eq
  have hchars : (⟨language, none, none, []⟩ : LanguageTag).chars = language := by
    simp [chars, subtags]
  rw [Text.sameFolded_iff, hchars]
  exact hlanguage.trans (by decide)

/-- Only the spellings of the root culture have the empty name. -/
theorem canonicalChars_eq_nil_iff : canonicalChars s = [] ↔
    Text.trim s = [] ∨ isRootName (Text.trim s) = true ∨
      Text.sameFolded (Text.trim s) "und".toList = true := by
  constructor
  · intro hnil
    cases h : ofChars? (Text.trim s) with
    | none =>
      rw [canonicalChars_of_verbatim h] at hnil
      split at hnil
      · next hname => exact hname.imp_right Or.inl
      · exact Or.inl hnil
    | some tag =>
      obtain ⟨written, hwritten, hchars, rfl⟩ := ofChars?_eq_some_iff.mp h
      rw [canonicalChars_of_tag h, nameOf] at hnil
      split at hnil
      -- the tag was read as `und`, in some spelling
      · next hund =>
        have hroot := chars_of_respelled_eq_root (eq_root_of_chars hwritten.respelled hund)
        exact Or.inr (Or.inr (hchars ▸ hroot))
      · exact absurd hnil hwritten.respelled.chars_ne_nil
  · rintro (h | h | h)
    · rw [canonicalChars_of_verbatim (ofChars?_eq_none (Or.inl h)), if_pos (Or.inl h)]
    · rw [canonicalChars_of_verbatim (ofChars?_eq_none (Or.inr h)), if_pos (Or.inr h)]
    · have hund : ofChars? (Text.trim s) = some root := by
        rw [ofChars?_congr h]
        exact (ofChars?_chars wellFormed_root).trans (congrArg some respelled_root)
      rw [canonicalChars_of_tag hund]
      decide

/-! ### Spellings of one name -/

/-- The name of a well-formed tag is that of the tag respelled, whatever its letter case and the
order of its variants, and whatever blanks stand around it. -/
theorem canonicalChars_of_wellFormed (h : tag.WellFormed) {variants : List (List Char)}
    (hvariants : variants.Perm tag.variants)
    (hs : Text.sameFolded s { tag with variants }.chars = true)
    {before after : List Char} (hbefore : ∀ c ∈ before, Text.isBlank c = true)
    (hafter : ∀ c ∈ after, Text.isBlank c = true) :
    canonicalChars (before ++ s ++ after) = nameOf tag.respelled := by
  have hreordered := h.reordered hvariants
  have hfold := Text.sameFolded_iff.mp hs
  have hblank : ∀ c ∈ s, Text.isBlank c = false := by
    intro c hc
    have hfolded : c.toLower ∈ Text.foldCase { tag with variants }.chars :=
      hfold ▸ List.mem_map_of_mem hc
    obtain ⟨d, hd, heq⟩ := List.mem_map.mp hfolded
    rw [← isBlank_toLower, ← heq, isBlank_toLower]
    exact hreordered.isBlank_of_mem_chars hd
  have hne : s ≠ [] := by
    rintro rfl
    exact hreordered.chars_ne_nil (Text.foldCase_eq_nil_iff.mp hfold.symm)
  apply canonicalChars_of_tag
  rw [Text.trim_append hbefore hafter (Text.isTrimmed_of_forall hblank) hne, ofChars?_congr hs,
    ofChars?_chars hreordered, respelled_congr hvariants]

/-- The canonical name of a culture is its own canonical name. The name of a language tag does not
depend on letter case, on the blanks around it and on the order of its variants. And the empty name
is that of the root culture, in each of its spellings, and of no other culture. -/
theorem canonical_is_normal :
    (∀ culture, canonical (canonical culture) = canonical culture) ∧
    (∀ (tag : LanguageTag) (variants : List (List Char)) (s before after : List Char),
      tag.WellFormed → variants.Perm tag.variants →
      Text.sameFolded s { tag with variants }.chars = true →
      (∀ c ∈ before, Text.isBlank c = true) → (∀ c ∈ after, Text.isBlank c = true) →
        canonical (String.ofList (before ++ s ++ after)) = canonical (String.ofList tag.chars)) ∧
    ∀ culture, canonical culture = "" ↔ Text.trim culture.toList = [] ∨
      Text.sameFolded (Text.trim culture.toList) "root".toList = true ∨
      Text.sameFolded (Text.trim culture.toList) "und".toList = true := by
  refine ⟨canonical_canonical, ?_, fun culture => ?_⟩
  · intro tag variants s before after h hvariants hs hbefore hafter
    have hself : canonicalChars ([] ++ tag.chars ++ []) = nameOf tag.respelled :=
      canonicalChars_of_wellFormed h (List.Perm.refl tag.variants)
        (Text.sameFolded_iff.mpr rfl) nofun nofun
    rw [List.nil_append, List.append_nil] at hself
    simp only [canonical, String.toList_ofList]
    rw [canonicalChars_of_wellFormed h hvariants hs hbefore hafter, hself]
  · rw [canonical, String.ofList_eq_empty_iff]
    exact canonicalChars_eq_nil_iff

/-- A tag with all its parts in mixed letter case, with its variants in another order and blanks
around it. -/
theorem canonical_is_normal_of_variants :
    canonical "\t sl-LATN-it-1994-Rozaj-biske\u00a0" = canonical "SL-latn-IT-rozaj-BISKE-1994" ∧
      canonical "SL-latn-IT-rozaj-BISKE-1994" = "sl-Latn-IT-1994-biske-rozaj" := by
  let tag : LanguageTag := ⟨"SL".toList, some "latn".toList, some "IT".toList,
    ["rozaj".toList, "BISKE".toList, "1994".toList]⟩
  have htag : tag.WellFormed := ⟨by decide, by decide, by decide, by decide, by decide⟩
  refine ⟨?_, by cbv⟩
  exact canonical_is_normal.2.1 tag ["1994".toList, "rozaj".toList, "BISKE".toList]
    "sl-LATN-it-1994-Rozaj-biske".toList ['\t', ' '] ['\u00a0'] htag (by decide) (by decide +kernel)
    (List.all_eq_true.mp (by decide)) (List.all_eq_true.mp (by decide))

end Culture

end PluralRules
