import PluralRules.Proofs.Follow
import PluralRules.Rule.Parse
import PluralRules.Rule.Printer

/-!
# Labels read back

The brackets of a line are printed with only the entries that are present, in a fixed order. They
are read back to the same label if its texts can stand as values of entries (`Label.IsPrintable`),
and every label that was read from brackets is of this kind.
-/

namespace PluralRules

open Reader Grammar

namespace Label

/-- A text that can stand as the value of an entry. -/
def IsEntryText (s : List Char) : Prop := Text.IsTrimmed s ∧ ∀ c ∈ s, c ≠ ',' ∧ c ≠ ']'

/-- The texts of a label can stand as values of entries. -/
structure IsPrintable (label : Label) : Prop where
  ruleSet : IsEntryText label.ruleSet.toList
  culture : IsEntryText label.culture.toList

def HasTexts (P : List Char → Prop) (label : Label) : Prop :=
  P label.ruleSet.toList ∧ P label.culture.toList

theorem firstPresent_empty (s : String) : firstPresent s "" = s := by
  unfold firstPresent
  split
  · next h => exact (String.isEmpty_iff.mp h).symm
  · rfl

/-! ### What is read from brackets -/

theorem isEntryText_nil : IsEntryText [] := ⟨⟨rfl, rfl⟩, nofun⟩

/-- The value of an entry can stand in an entry again. -/
theorem isEntryText_entryValue {s : List Char} (h : s.head?.any Text.isBlank = false) :
    IsEntryText (entryValue s).1.text := by
  have hhead : (s.takeWhile fun c => c != ',' && c != ']').head?.any Text.isBlank = false := by
    cases s with
    | nil => rfl
    | cons c t =>
      rw [List.takeWhile_cons]
      split
      · exact h
      · rfl
  refine ⟨Text.isTrimmed_trimEnd hhead, fun c hc => ?_⟩
  have hrun := List.mem_takeWhile_imp ((Text.trimEnd_prefix _).subset hc)
  simpa using hrun

/-- The value of an entry comes from the text that is taken off the front. -/
theorem entryValue_suffix (s : List Char) :
    ∃ text, s = text ++ (entryValue s).2 ∧ (entryValue s).1.text ⊆ text :=
  ⟨s.takeWhile fun c => c != ',' && c != ']',
    (List.prefix_iff_eq_append.mp (List.takeWhile_prefix _)).symm, (Text.trimEnd_prefix _).subset⟩

/-- The value of an entry stands in the text that the entry is read from. -/
theorem takes_entry : Takes entry fun text e => IsEntryText e.value.text ∧ e.value.text ⊆ text := by
  intro s e rest hs
  obtain ⟨⟨⟨key, ⟨⟩⟩, s₁⟩, hkey, heq⟩ := Option.bind_eq_some_iff.mp hs
  obtain ⟨text, rfl, -⟩ := (takes_runOf isNameChar).pair (takes_char '=') hkey
  obtain ⟨gap, -, hgap⟩ := gap_skipBlanks s₁
  obtain ⟨text', htext', hsubset⟩ := entryValue_suffix (Text.skipBlanks s₁)
  cases heq
  refine ⟨text ++ (gap ++ text'), ?_, isEntryText_entryValue (head?_dropWhile_any _ s₁), ?_⟩
  · show text ++ s₁ = text ++ (gap ++ text') ++ (entryValue (Text.skipBlanks s₁)).2
    rw [List.append_assoc, List.append_assoc, ← htext', ← hgap]
  · refine List.Subset.trans hsubset (List.Subset.trans ?_ (List.subset_append_right _ _))
    exact List.subset_append_right _ _

/-- The values in brackets come from the text between them. -/
theorem takes_brackets : Takes brackets fun text es =>
    ∀ e ∈ es, IsEntryText e.value.text ∧ e.value.text ⊆ text := by
  apply takes_entry.commaSeparated.between.map
  rintro text ⟨first, more⟩ ⟨gap, _, gap', -, -, rfl, t, texts, rfl, hfirst, hmore⟩
  have htext : t ++ texts.flatten ⊆ '[' :: gap ++ (t ++ texts.flatten) ++ gap' ++ [']'] := by
    intro c hc
    simp only [List.mem_append] at hc ⊢
    exact Or.inl (Or.inl (Or.inr hc))
  refine List.forall_mem_cons.mpr ⟨⟨hfirst.1, ?_⟩, forall_right hmore ?_⟩
  · exact List.Subset.trans hfirst.2 (List.Subset.trans (List.subset_append_left _ _) htext)
  · rintro u hu e ⟨gap, gap', v, -, -, rfl, hvalue, hsubset⟩
    refine ⟨hvalue, fun c hc => htext (List.mem_append_right _ (List.mem_flatten_of_mem hu ?_))⟩
    exact List.mem_append_right _ (hsubset hc)

section Texts

variable {P : List Char → Prop} {e : Entry} {entries : List Entry} {label label' : Label}

/-- Each entry replaces one part of a label, by its value if that part is a text. -/
theorem HasTexts.withEntry (h : label.HasTexts P) (he : P e.value.text)
    (hl : label.withEntry e = .ok label') : label'.HasTexts P := by
  have htext : P e.value.toString.toList := by
    rwa [Excerpt.toString, String.toList_ofList]
  unfold Label.withEntry at hl
  dsimp only at hl
  split at hl
  · cases hl; exact ⟨htext, h.2⟩
  · cases hl; exact ⟨h.1, htext⟩
  · cases hl; exact h
  · obtain ⟨_, -, hl⟩ := bind_eq_ok.mp hl
    cases hl
    exact h
  · obtain ⟨_, -, hl⟩ := bind_eq_ok.mp hl
    cases hl
    exact h
  · cases hl

/-- A property of all values of the entries is one of the texts of the label. -/
theorem HasTexts.foldlM_withEntry (h : label.HasTexts P) (he : ∀ e ∈ entries, P e.value.text)
    (hl : entries.foldlM Label.withEntry label = .ok label') : label'.HasTexts P := by
  induction entries generalizing label with
  | nil => cases hl; exact h
  | cons e entries ih =>
    obtain ⟨_, hfirst, hrest⟩ := bind_eq_ok.mp hl
    obtain ⟨hhead, htail⟩ := List.forall_mem_cons.mp he
    exact ih (h.withEntry hhead hfirst) htail hrest

/-- The texts of a label are the values of the entries that give it, or absent. -/
theorem hasTexts_of_ofEntries (hempty : P []) (he : ∀ e ∈ entries, P e.value.text)
    (h : ofEntries entries = .ok label) : label.HasTexts P := by
  have hnone : HasTexts P {} := ⟨hempty, hempty⟩
  exact hnone.foldlM_withEntry he h

end Texts

/-! ### What brackets are read as -/

def IsEntryOf (pair : String × String) (e : Entry) : Prop :=
  e.key.text = pair.1.toList ∧ e.value.text = pair.2.toList

def pairChars (pair : String × String) : List Char := pair.1.toList ++ '=' :: pair.2.toList

/-- An entry with its key, if its value is present. -/
def segment (key value : String) : List (String × String) :=
  if value.isEmpty then [] else [(key, value)]

/-- The keys and values of the entries that are printed for a label. -/
def pairs (label : Label) : List (String × String) :=
  segment "RuleSet" label.ruleSet ++ segment "Category" label.typeName ++
    segment "Culture" label.culture ++ segment "Required" label.requiredName

/-- The entries of the brackets are those of the parts that are present. -/
theorem entries_eq (label : Label) : label.entries = label.pairs.map pairChars := by
  have hentry : ∀ key value, entryChars key value = (segment key value).map pairChars := by
    intro key value
    unfold entryChars segment
    split <;> rfl
  simp only [entries, pairs, hentry, List.map_append]

/-- A text that ends an entry. -/
def EndsEntry (s : List Char) : Prop := ∃ c t, s = c :: t ∧ (c = ',' ∨ c = ']')

/-- A value is read back, whatever ends its entry. -/
theorem entryValue_append {value rest : List Char} (h : IsEntryText value)
    (hrest : EndsEntry rest) :
    (entryValue (value ++ rest)).1.text = value ∧ (entryValue (value ++ rest)).2 = rest := by
  have hrun : (value ++ rest).takeWhile (fun c => c != ',' && c != ']') = value := by
    refine takeWhile_run (fun c hc => ?_) ?_
    · simpa using h.2 c hc
    · obtain ⟨c, t, rfl, rfl | rfl⟩ := hrest <;> rfl
  have htrim : Text.trimEnd value = value := Text.trimEnd_eq_self h.1.2
  simp [entryValue, hrun, htrim]

/-- A printed entry is read back. -/
theorem reads_entry {pair : String × String} (hkey : pair.1.toList ≠ [])
    (hname : ∀ c ∈ pair.1.toList, isNameChar c = true) (hvalue : IsEntryText pair.2.toList)
    (hpresent : pair.2.toList ≠ []) : Reads entry EndsEntry (pairChars pair) (IsEntryOf pair) := by
  intro rest hrest
  obtain ⟨htext, hafter⟩ := entryValue_append hvalue hrest
  have hrun : runOf isNameChar (pairChars pair ++ rest) =
      some (⟨pair.1.toList, '=' :: (pair.2.toList ++ rest)⟩, '=' :: (pair.2.toList ++ rest)) := by
    rw [pairChars, List.append_assoc, List.cons_append]
    exact excerptOf_append (run_append hkey hname rfl)
  have hskip : Text.skipBlanks (pair.2.toList ++ rest) = pair.2.toList ++ rest := by
    apply Text.skipBlanks_eq_self
    have hhead := hvalue.1.1
    cases hv : pair.2.toList with
    | nil => exact absurd hv hpresent
    | cons c t => rw [hv] at hhead; exact hhead
  have hpair : Reader.pair (runOf isNameChar) (char '=') (pairChars pair ++ rest) =
      some ((⟨pair.1.toList, '=' :: (pair.2.toList ++ rest)⟩, ()), pair.2.toList ++ rest) := by
    apply pair_eq_some hrun
    rw [skipping, Text.skipBlanks_eq_self rfl, char_cons]
  refine ⟨⟨⟨pair.1.toList, '=' :: (pair.2.toList ++ rest)⟩,
    (entryValue (pair.2.toList ++ rest)).1⟩, ?_, rfl, htext⟩
  simp [entry, hpair, hskip, hafter]

theorem mem_segment {pair : String × String} {key value : String} (h : pair ∈ segment key value) :
    pair = (key, value) ∧ value.toList ≠ [] := by
  unfold segment at h
  split at h
  · cases h
  · next hvalue =>
    obtain rfl := List.mem_singleton.mp h
    exact ⟨rfl, fun hnil => hvalue (by simpa using hnil)⟩

/-- The keys that are printed are names, and only values that are present are printed. -/
theorem key_of_mem_pairs {label : Label} {pair : String × String} (h : pair ∈ label.pairs) :
    pair.1.toList ≠ [] ∧ (∀ c ∈ pair.1.toList, isNameChar c = true) ∧ pair.2.toList ≠ [] := by
  simp only [pairs, List.mem_append] at h
  rcases h with ((h | h) | h) | h
  all_goals
    obtain ⟨rfl, hvalue⟩ := mem_segment h
    refine ⟨?_, List.all_eq_true.mp ?_, hvalue⟩ <;> dsimp only <;> decide

/-- The values that are printed are the texts of the label and the names of types and of truth
values. -/
theorem HasTexts.value_of_mem_pairs {P : List Char → Prop} {label : Label} (h : label.HasTexts P)
    (hnames : ∀ name ∈ ["cardinal", "ordinal", "true", "false"], P name.toList)
    {pair : String × String} (hmem : pair ∈ label.pairs) : P pair.2.toList := by
  simp only [List.forall_mem_cons] at hnames
  obtain ⟨hcardinal, hordinal, htrue, hfalse, -⟩ := hnames
  simp only [pairs, List.mem_append] at hmem
  rcases hmem with ((hmem | hmem) | hmem) | hmem
  all_goals
    obtain ⟨rfl, hpresent⟩ := mem_segment hmem
    show P _
  · exact h.1
  · rw [typeName] at hpresent ⊢
    cases htype : label.type with
    | none => rw [htype] at hpresent; exact absurd rfl hpresent
    | some type => cases type; exacts [hcardinal, hordinal]
  · exact h.2
  · rw [requiredName] at hpresent ⊢
    cases hrequired : label.required with
    | none => rw [hrequired] at hpresent; exact absurd rfl hpresent
    | some required => cases required; exacts [hfalse, htrue]

theorem IsPrintable.value_of_mem_pairs {label : Label} (h : label.IsPrintable)
    {pair : String × String} (hmem : pair ∈ label.pairs) : IsEntryText pair.2.toList := by
  refine HasTexts.value_of_mem_pairs (P := IsEntryText) ⟨h.ruleSet, h.culture⟩ ?_ hmem
  have hnames : ∀ name ∈ ["cardinal", "ordinal", "true", "false"],
      (name.toList.head?.any Text.isBlank = false ∧ name.toList.getLast?.any Text.isBlank = false) ∧
        name.toList.all (fun c => c != ',' && c != ']') = true := by decide
  intro name hname
  obtain ⟨htrimmed, hall⟩ := hnames name hname
  exact ⟨htrimmed, fun c hc => by simpa using List.all_eq_true.mp hall c hc⟩

/-- The brackets of a label are read as entries with its keys and values. -/
theorem brackets_append {label : Label} (h : label.IsPrintable) (hpresent : label.entries ≠ [])
    (rest : List Char) : ∃ entries, brackets (label.chars ++ rest) = some (entries, rest) ∧
      List.Forall₂ IsEntryOf label.pairs entries := by
  -- each entry by itself
  have hread : ∀ pair ∈ label.pairs,
      Text.IsSolid (pairChars pair) ∧ Reads entry EndsEntry (pairChars pair) (IsEntryOf pair) := by
    intro pair hmem
    obtain ⟨hkey, hname, hvalue⟩ := key_of_mem_pairs hmem
    refine ⟨?_, reads_entry hkey hname (h.value_of_mem_pairs hmem) hvalue⟩
    obtain ⟨c, t, heq⟩ := List.exists_cons_of_ne_nil hkey
    refine Text.IsSolid.append ⟨c, t, heq, isBlank_of_isNameChar (hname c ?_)⟩ _
    rw [heq]
    exact List.mem_cons_self
  rw [entries_eq] at hpresent
  have hchars : label.chars ++ rest =
      '[' :: ([',', ' '].intercalate (label.pairs.map pairChars) ++ ']' :: rest) := by
    simp only [chars, entries_eq, List.isEmpty_iff, hpresent, if_false]
    simp
  cases hpairs : label.pairs with
  | nil => rw [hpairs] at hpresent; exact absurd rfl hpresent
  | cons first more =>
    rw [hpairs] at hread hchars
    obtain ⟨hfirst, hmore⟩ := List.forall_mem_cons.mp hread
    obtain ⟨⟨e, es⟩, hcomma, he, hes⟩ := reads_commaSeparated [' ']
      (fun c hc => by rw [List.mem_singleton.mp hc]; decide) (fun s => ⟨',', s, rfl, Or.inl rfl⟩)
      hfirst.2 hmore (']' :: rest) ⟨⟨']', rest, rfl, Or.inr rfl⟩, rfl⟩
    refine ⟨e :: es, ?_, .cons he hes⟩
    rw [hchars]
    refine map_eq_some (a := (e, es)) (between_eq_some ?_ (by decide))
    rw [skipping, Text.skipBlanks_eq_self ?_, hcomma]
    rw [List.map_cons, intercalate_cons, List.append_assoc]
    obtain ⟨c, t, heq, hc⟩ := hfirst.1
    rw [heq]
    simpa using hc

/-! ### What the entries mean -/

/-- The entries of one segment set one part of a label. -/
theorem foldlM_segment {key value : String} {entries : List Entry} {label label' : Label}
    (h : List.Forall₂ IsEntryOf (segment key value) entries)
    (habsent : value = "" → label' = label)
    (hpresent : ∀ e, e.key.text = key.toList → e.value.text = value.toList → value ≠ "" →
      label.withEntry e = .ok label') :
    entries.foldlM withEntry label = .ok label' := by
  unfold segment at h
  split at h
  · next hvalue =>
    cases h
    rw [habsent (by simpa using hvalue)]
    rfl
  · next hvalue =>
    obtain ⟨e, rest, ⟨hkey, hvalue'⟩, hrest, rfl⟩ := List.forall₂_cons_left_iff.mp h
    cases hrest
    have hset := hpresent e hkey hvalue' (by simpa using hvalue)
    exact bind_eq_ok.mpr ⟨label', hset, rfl⟩

/-- The name of a type is read back. -/
theorem valueOf_type {e : Entry} (type : PluralType) (h : e.value.text = type.name.toList) :
    valueOf e (fun word => PluralType.ofKeyword? (String.ofList word)) = .ok (some type) := by
  have hread : PluralType.ofKeyword? (String.ofList type.name.toList) = some type := by
    cases type <;> decide
  have hpresent : type.name.toList.isEmpty = false := by cases type <;> decide
  rw [valueOf, h, hpresent, hread]
  rfl

theorem valueOf_truth {e : Entry} (b : Bool) (h : e.value.text = (truthName b).toList) :
    valueOf e truthOf? = .ok (some b) := by
  have hread : truthOf? (truthName b).toList = some b := by cases b <;> decide
  have hpresent : (truthName b).toList.isEmpty = false := by cases b <;> decide
  rw [valueOf, h, hpresent, hread]
  rfl

/-- The entries that are printed for a label give the label, apart from its case. -/
theorem ofEntries_of_pairs {label : Label} {entries : List Entry}
    (h : List.Forall₂ IsEntryOf label.pairs entries) :
    ofEntries entries = .ok { label with case := "" } := by
  obtain ⟨ruleSet, type, culture, case, required⟩ := label
  obtain ⟨_, requiredEntries, rfl, h, hrequired⟩ := forall₂_append_left h
  obtain ⟨_, cultureEntries, rfl, h, hculture⟩ := forall₂_append_left h
  obtain ⟨ruleSetEntries, typeEntries, rfl, hruleSet, htype⟩ := forall₂_append_left h
  -- Each segment sets its own part and keeps those that the segments before it have set.
  have h₁ : ruleSetEntries.foldlM withEntry {} = .ok { ruleSet } := by
    refine foldlM_segment hruleSet (fun h => by rw [show ruleSet = "" from h])
      fun e hkey hvalue _ => ?_
    have hfold : String.ofList (Text.foldCase e.key.text) = "ruleset" := by rw [hkey]; decide
    simp [withEntry, hfold, Excerpt.toString, hvalue]
  have h₂ : typeEntries.foldlM withEntry { ruleSet } = .ok { ruleSet, type } := by
    refine foldlM_segment htype ?_ fun e hkey hvalue hne => ?_
    · intro h
      cases type with
      | none => rfl
      | some type =>
        have hne : type.name ≠ "" := by cases type <;> decide
        exact absurd h hne
    · have hfold : String.ofList (Text.foldCase e.key.text) = "category" := by rw [hkey]; decide
      cases type with
      | none => exact absurd rfl hne
      | some type =>
        simp only [withEntry, hfold, valueOf_type type hvalue]
        rfl
  have h₃ : cultureEntries.foldlM withEntry { ruleSet, type } = .ok { ruleSet, type, culture } := by
    refine foldlM_segment hculture (fun h => by rw [show culture = "" from h])
      fun e hkey hvalue _ => ?_
    have hfold : String.ofList (Text.foldCase e.key.text) = "culture" := by rw [hkey]; decide
    simp [withEntry, hfold, Excerpt.toString, hvalue]
  have h₄ : requiredEntries.foldlM withEntry { ruleSet, type, culture } =
      .ok { ruleSet, type, culture, required } := by
    refine foldlM_segment hrequired ?_ fun e hkey hvalue hne => ?_
    · intro h
      cases required with
      | none => rfl
      | some required =>
        have hne : truthName required ≠ "" := by cases required <;> decide
        exact absurd h hne
    · have hfold : String.ofList (Text.foldCase e.key.text) = "required" := by rw [hkey]; decide
      cases required with
      | none => exact absurd rfl hne
      | some required =>
        simp only [withEntry, hfold, valueOf_truth required hvalue]
        rfl
  rw [ofEntries, List.foldlM_append, List.foldlM_append, List.foldlM_append]
  refine bind_eq_ok.mpr ⟨_, bind_eq_ok.mpr ⟨_, bind_eq_ok.mpr ⟨_, h₁, h₂⟩, h₃⟩, h₄⟩

end Label

end PluralRules
