import PluralRules.Proofs.Numeral
import PluralRules.Proofs.Follow
import PluralRules.Rule.Parse
import PluralRules.Rule.Printer

/-!
# Samples read back

A sample is printed as a number, as two numbers with a tilde between them, or as the ellipsis. In
rule text it may be spelled differently (`1..5`, `...`), but every sample that was read consists of
quantities that a text spells, and those are printed as they are read.
-/

namespace PluralRules

open Reader Grammar

namespace Sample

/-- The quantities of a sample are spelled by texts. -/
def IsPrintable : Sample → Prop
  | single value => value.IsSpelled
  | range least greatest => least.IsSpelled ∧ greatest.IsSpelled
  | ellipsis => True

/-! ### What samples are read from -/

/-- A number in a sample is spelled by a text. -/
theorem isSpelled_of_toOption {s : List Char} {q : Quantity}
    (h : (Quantity.ofChars s).toOption = some q) : q.IsSpelled :=
  Quantity.isSpelled_of_ofChars (toOption_eq_some.mp h)

/-- A sample that has been read can be printed. -/
theorem isPrintable_of_ofChars? {s : List Char} {sample : Sample} (h : ofChars? s = some sample) :
    sample.IsPrintable := by
  unfold ofChars? at h
  split at h
  · cases h; trivial
  · split at h
    · obtain ⟨least, hleast, h⟩ := Option.bind_eq_some_iff.mp h
      obtain ⟨greatest, hgreatest, h⟩ := Option.bind_eq_some_iff.mp h
      cases h
      exact ⟨isSpelled_of_toOption hleast, isSpelled_of_toOption hgreatest⟩
    · obtain ⟨q, hq, rfl⟩ := Option.map_eq_some_iff.mp h
      exact isSpelled_of_toOption hq

theorem isPrintable_of_ofExcerpt {e : Excerpt} {sample : Sample} (h : ofExcerpt e = .ok sample) :
    sample.IsPrintable := by
  unfold ofExcerpt at h
  split at h
  · next hs => cases h; exact isPrintable_of_ofChars? hs
  · cases h

/-! ### What samples are read as -/

/-- A number in a sample is read back. -/
theorem toOption_ofChars {q : Quantity} (h : q.IsSpelled) :
    (Quantity.ofChars q.chars).toOption = some q := by
  rw [Quantity.ofChars_chars h.2, Quantity.respelled_eq_self h.1]
  rfl

theorem not_isNumeralChar_tilde : ¬ Numeral.IsNumeralChar '~' := by
  rintro (h | h | h | h) <;> cases h

/-- A text with a point too few for two dots and without a tilde has no ends. -/
theorem ends?_eq_none {s : List Char} (htilde : '~' ∉ s) (hpoint : s.count '.' ≤ 1) :
    ends? s = none := by
  have hfirst : Text.splitFirst ['~'] s = none := by
    cases hs : Text.splitFirst ['~'] s with
    | none => rfl
    | some ends =>
      rw [Text.eq_of_splitFirst hs] at htilde
      exact absurd (by simp) htilde
  have hsecond : Text.splitFirst ['.', '.'] s = none := by
    cases hs : Text.splitFirst ['.', '.'] s with
    | none => rfl
    | some ends =>
      rw [Text.eq_of_splitFirst hs] at hpoint
      simp only [List.count_append, List.count_cons_self, List.count_nil] at hpoint
      omega
  rw [ends?, hfirst, hsecond]
  rfl

theorem ofChars?_chars {sample : Sample} (h : sample.IsPrintable) :
    ofChars? sample.chars = some sample := by
  cases sample with
  | ellipsis => rfl
  | single q =>
    have hends : ends? q.chars = none :=
      ends?_eq_none (Quantity.not_mem_chars not_isNumeralChar_tilde q) (Quantity.count_point_le q)
    have hellipsis : q.chars ≠ ['…'] := by
      intro heq
      have hmem : '…' ∈ q.chars := by rw [heq]; exact List.mem_singleton_self _
      rcases Quantity.isNumeralChar_of_mem_chars q _ hmem with h | h | h | h <;> cases h
    have hdots : q.chars ≠ ['.', '.', '.'] := by
      intro heq
      have hcount := Quantity.count_point_le q
      rw [heq] at hcount
      exact absurd hcount (by decide)
    simp [ofChars?, chars, hends, hellipsis, hdots, toOption_ofChars h]
  | range least greatest =>
    have hends :
        ends? (least.chars ++ '~' :: greatest.chars) = some (least.chars, greatest.chars) := by
      rw [ends?, Text.splitFirst_char (Quantity.not_mem_chars not_isNumeralChar_tilde least)]
      rfl
    have hellipsis : least.chars ++ '~' :: greatest.chars ≠ ['…'] := by
      intro heq
      have hmem : '~' ∈ ['…'] := by rw [← heq]; simp
      exact absurd hmem (by decide)
    have hdots : least.chars ++ '~' :: greatest.chars ≠ ['.', '.', '.'] := by
      intro heq
      -- a range contains a tilde, and the dots contain none
      have hmem : '~' ∈ ['.', '.', '.'] := by rw [← heq]; simp
      exact absurd hmem (by decide)
    simp [ofChars?, chars, hends, hellipsis, hdots, toOption_ofChars h.1, toOption_ofChars h.2]

theorem chars_ne_nil (sample : Sample) : sample.chars ≠ [] := by
  cases sample with
  | single q => exact q.chars_ne_nil
  | range least greatest => simp [chars]
  | ellipsis => simp [chars]

/-- A sample is printed in characters of samples, so it is read to its end. -/
theorem isSampleChar_of_mem_chars (sample : Sample) :
    ∀ c ∈ sample.chars, isSampleChar c = true := by
  have hnumeral : ∀ {c : Char}, Numeral.IsNumeralChar c → isSampleChar c = true := by
    rintro c (hc | rfl | rfl | rfl)
    · exact isSampleChar_of_isNameChar (isNameChar_of_isDigit hc)
    all_goals decide
  intro c hc
  cases sample with
  | single q => exact hnumeral (Quantity.isNumeralChar_of_mem_chars q c hc)
  | range least greatest =>
    rcases List.mem_append.mp hc with hc | hc
    · exact hnumeral (Quantity.isNumeralChar_of_mem_chars least c hc)
    · rcases List.mem_cons.mp hc with rfl | hc
      · decide
      · exact hnumeral (Quantity.isNumeralChar_of_mem_chars greatest c hc)
  | ellipsis =>
    rw [List.mem_singleton.mp hc]
    decide

theorem isSolid_chars (sample : Sample) : Text.IsSolid sample.chars := by
  obtain ⟨c, t, heq⟩ := List.exists_cons_of_ne_nil sample.chars_ne_nil
  have hc := sample.isSampleChar_of_mem_chars c (by rw [heq]; exact List.mem_cons_self)
  simp only [isSampleChar, Bool.and_eq_true, Bool.not_eq_true'] at hc
  exact ⟨c, t, heq, hc.2⟩

end Sample

namespace Samples

/-- A list of samples has a name, and its samples are spelled by texts. -/
structure IsPrintable (samples : Samples) : Prop where
  name_ne_nil : samples.name.toList ≠ []
  isNameChar_of_mem_name : ∀ c ∈ samples.name.toList, isNameChar c = true
  values : ∀ sample ∈ samples.values, sample.IsPrintable

/-! ### What lists of samples are read from -/

/-- A list of samples has the name of a list. -/
theorem takes_sampleSegment : Takes sampleSegment fun _ segment =>
    segment.name.text ≠ [] ∧ ∀ c ∈ segment.name.text, isNameChar c = true := by
  intro s segment rest hs
  obtain ⟨⟨⟨⟩, s₁⟩, hmark, hs⟩ := Option.bind_eq_some_iff.mp hs
  obtain ⟨⟨name, s₂⟩, hname, heq⟩ := Option.bind_eq_some_iff.mp hs
  obtain ⟨_, rfl, rfl⟩ := takes_char '@' hmark
  obtain ⟨text, rfl, hn⟩ := takes_runOf isNameChar hname
  have hvalues : Takes sampleValues fun _ _ => True :=
    (takes_runOf isSampleChar).commaSeparated.map fun _ _ _ => trivial
  obtain ⟨text', htext', -⟩ := hvalues.skipping.optional (R := fun _ _ => True) trivial
    (fun _ _ _ => trivial) s₂
  cases heq
  have hrest := congrArg (fun t => '@' :: (text ++ t)) htext'
  exact ⟨'@' :: (text ++ text'), hrest.trans (congrArg ('@' :: ·) (List.append_assoc ..).symm), hn⟩

/-- The samples of a segment can be printed. -/
theorem isPrintable_of_ofSegment {segment : SampleSegment} {samples : Samples}
    (hname : segment.name.text ≠ [] ∧ ∀ c ∈ segment.name.text, isNameChar c = true)
    (h : ofSegment segment = .ok samples) : samples.IsPrintable := by
  obtain ⟨values, hvalues, h⟩ := bind_eq_ok.mp h
  cases h
  refine ⟨?_, ?_, ?_⟩
  · simpa [Excerpt.toString] using hname.1
  · simpa [Excerpt.toString] using hname.2
  · exact forall_right (mapM_eq_ok.mp hvalues) fun _ _ _ h => Sample.isPrintable_of_ofExcerpt h

/-! ### What lists of samples are read as -/

/-- A text that ends a list of samples: nothing, or the next list. -/
def EndsSamples (s : List Char) : Prop := s = [] ∨ ∃ t, s = ' ' :: '@' :: t

/-- Printed samples are read back in order. -/
theorem reads_sampleValues {first : Sample} {more : List Sample}
    (h : ∀ sample ∈ first :: more, sample.IsPrintable) :
    Reads sampleValues EndsSamples ([',', ' '].intercalate ((first :: more).map Sample.chars))
      fun values => List.Forall₂ (fun sample e => Sample.ofExcerpt e = .ok sample) (first :: more)
        values := by
  have hread : ∀ sample ∈ first :: more, Text.IsSolid sample.chars ∧
      Reads (runOf isSampleChar) (fun rest => rest.head?.any isSampleChar = false) sample.chars
        fun e => Sample.ofExcerpt e = .ok sample := by
    intro sample hmem
    refine ⟨sample.isSolid_chars, fun rest hrest => ⟨⟨sample.chars, rest⟩, ?_, ?_⟩⟩
    · exact excerptOf_append (run_append sample.chars_ne_nil sample.isSampleChar_of_mem_chars hrest)
    · simp [Sample.ofExcerpt, Sample.ofChars?_chars (h sample hmem)]
  obtain ⟨hfirst, hmore⟩ := List.forall_mem_cons.mp hread
  intro rest hrest
  have hend : rest.head?.any isSampleChar = false ∧ skipping (char ',') rest = none := by
    rcases hrest with rfl | ⟨t, rfl⟩ <;> exact ⟨rfl, rfl⟩
  obtain ⟨⟨e, es⟩, hcomma, he, hes⟩ := reads_commaSeparated [' ']
    (fun c hc => by rw [List.mem_singleton.mp hc]; decide) (fun s => rfl) hfirst.2 hmore rest hend
  exact ⟨e :: es, map_eq_some hcomma, .cons he hes⟩

/-- A printed list of samples is read back. -/
theorem reads_sampleSegment {samples : Samples} (h : samples.IsPrintable) :
    Reads sampleSegment EndsSamples samples.chars fun segment =>
      ofSegment segment = .ok samples := by
  intro rest hrest
  obtain ⟨name, values⟩ := samples
  have hblank : ∀ s : List Char, (' ' :: s).head?.any isNameChar = false := fun _ => rfl
  cases values with
  | nil =>
    -- without values, the name has to end and no value to follow
    have hend : rest.head?.any isNameChar = false ∧ skipping sampleValues rest = none := by
      rcases hrest with rfl | ⟨t, rfl⟩
      · exact ⟨rfl, rfl⟩
      · exact ⟨rfl, by simp [skipping, sampleValues, map, commaSeparated, runOf, excerptOf, run,
          Text.skipBlanks_eq_self (s := '@' :: t) rfl, isSampleChar]⟩
    have hname : runOf isNameChar (name.toList ++ rest) = some (⟨name.toList, rest⟩, rest) :=
      excerptOf_append (run_append h.name_ne_nil h.isNameChar_of_mem_name hend.1)
    refine ⟨⟨⟨name.toList, rest⟩, []⟩, ?_, ?_⟩
    · simp [sampleSegment, chars, char_cons, hname, optional_of_none hend.2]
    · simp [ofSegment, Excerpt.toString]
  | cons first more =>
    obtain ⟨es, hread, hes⟩ := reads_sampleValues h.values rest hrest
    let text := [',', ' '].intercalate ((first :: more).map Sample.chars)
    -- with values, the blank after the name is skipped and no more
    have hsolid : Text.IsSolid (text ++ rest) := by
      refine Text.IsSolid.append ?_ rest
      show Text.IsSolid ([',', ' '].intercalate ((first :: more).map Sample.chars))
      rw [List.map_cons, intercalate_cons]
      exact first.isSolid_chars.append _
    have hskip : skipping sampleValues (' ' :: (text ++ rest)) = some (es, rest) := by
      rw [skipping, Text.skipBlanks_blank, hsolid.skipBlanks_eq]
      exact hread
    have hname : runOf isNameChar (name.toList ++ ' ' :: (text ++ rest)) =
        some (⟨name.toList, ' ' :: (text ++ rest)⟩, ' ' :: (text ++ rest)) :=
      excerptOf_append (run_append h.name_ne_nil h.isNameChar_of_mem_name rfl)
    have hchars : chars ⟨name, first :: more⟩ ++ rest =
        '@' :: (name.toList ++ ' ' :: (text ++ rest)) := by
      simp [chars, text]
    refine ⟨⟨⟨name.toList, ' ' :: (text ++ rest)⟩, es⟩, ?_, ?_⟩
    · rw [hchars]
      simp [sampleSegment, char_cons, hname, optional_of_some hskip]
    · have hvalues :
          List.Forall₂ (fun e sample => Sample.ofExcerpt e = .ok sample) es (first :: more) :=
        hes.flip
      refine bind_eq_ok.mpr ⟨first :: more, mapM_eq_ok.mpr hvalues, ?_⟩
      rw [Excerpt.toString, String.ofList_toList]

/-- The lists of samples behind a condition, each after a blank, are read as they are printed. -/
theorem many_sampleSegment {all : List Samples} (h : ∀ samples ∈ all, samples.IsPrintable) :
    ∃ segments, many (skipping sampleSegment) (all.flatMap fun samples => ' ' :: samples.chars) =
      (segments, []) ∧ segments.mapM ofSegment = .ok all := by
  have hread : ∀ samples ∈ all, ' ' :: samples.chars ≠ [] ∧
      Reads (skipping sampleSegment) EndsSamples
      (' ' :: samples.chars) fun segment => ofSegment segment = .ok samples := by
    intro samples hmem
    refine ⟨List.cons_ne_nil _ _, fun rest hrest => ?_⟩
    obtain ⟨segment, hsegment, heq⟩ := reads_sampleSegment (h samples hmem) rest hrest
    refine ⟨segment, ?_, heq⟩
    rw [List.cons_append, skipping, Text.skipBlanks_blank]
    exact hsegment
  obtain ⟨segments, hmany, hall⟩ :=
    many_flatMap (fun samples _ s => Or.inr ⟨_, rfl⟩) (Or.inl rfl) rfl hread
  rw [List.append_nil] at hmany
  exact ⟨segments, hmany, mapM_eq_ok.mpr hall.flip⟩

end Samples

end PluralRules
