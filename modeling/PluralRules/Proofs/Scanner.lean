import PluralRules.Proofs.Conditions
import PluralRules.Proofs.Execution

/-!
# The scanner and the readers

The routines of the scanner do what the readers of the grammar do, layer by layer. The readers of
values and of conditions are given a bound for how deep parentheses may nest. Here it is a bound for
the length of the text as well, and the induction is on it: behind an opening parenthesis there is
less text. So a bound above the length of the text leaves out nothing that a scanner without any
bound would read (`executes_value`, `executes_condition`).

A scanner reads signs and negations by a routine that calls itself, the readers read them in a row;
that this comes to the same is `executes_marked`.
-/

namespace PluralRules

/-! ### Shapes of phrases -/

namespace Grammar

open Reader

section Shapes

variable {ρ : Type} {rule : ρ → Pattern ρ} {layer : ρ → Nat} {n : Nat} {a b : Pattern ρ}
  {mark operator : Reader Excerpt} {operand : Reader Phrase} {s : List Char}

@[simp] theorem leaves_excerptOf {α : Type} (item : Reader α) (s : List Char) :
    (excerptOf item).leaves s = item.leaves s := by
  cases h : item s <;> simp [leaves, excerptOf, h]

/-- A keyword is a text that does not go on as a name. -/
theorem leaves_keyword (text : String) (s : List Char) : (keyword text).leaves s =
    ((literal text.toList).leaves s).bind fun t =>
      if t.head?.any isNameChar then none else some t := by
  cases h : literal text.toList s with
  | none => simp [leaves, keyword, excerptOf, h]
  | some x => cases h' : x.2.head?.any isNameChar <;> simp [leaves, keyword, excerptOf, h, h']

/-- A word is a token of its own. -/
theorem leaves_word (s : List Char) :
    word.leaves s = (Token.word isWordChar reserved).leaves s := by
  cases h : s.takeWhile isWordChar with
  | nil => simp [leaves, word, runOf, excerptOf, Reader.run, Token.leaves, h]
  | cons c t =>
    have hrun :
        runOf isWordChar s = some (⟨c :: t, s.dropWhile isWordChar⟩, s.dropWhile isWordChar) := by
      have hs : c :: t ++ s.dropWhile isWordChar = s := h ▸ List.takeWhile_append_dropWhile
      have hbefore := before_append (c :: t) (s.dropWhile isWordChar)
      rw [hs] at hbefore
      simp [runOf, excerptOf, Reader.run, h, hbefore]
    by_cases hreserved : c :: t ∈ reserved <;> simp [leaves, word, hrun, Token.leaves, h, hreserved]

/-- A keyword is scanned as it is read. -/
theorem executes_keyword (text : String) : Executes rule n (.keyword text) (keyword text).leaves :=
  ((Executes.token (.text text.toList)).seq (.token (.absent isNameChar))).congr
    (leaves_keyword text)

theorem executes_word : Executes rule n (.token (.word isWordChar reserved)) word.leaves :=
  (Executes.token _).congr leaves_word

/-- An item, and another one behind it that may be missing. -/
theorem executes_thenOptional {α β : Type} {item : Reader α} {second : Reader β}
    (h : Executes rule n a item.leaves) (h' : Executes rule n b second.leaves) :
    Executes rule n (.seq a b.opt) (excerptOf fun s => do
      let (_, s) ← item s
      some ((), (Reader.optional second s).2)).leaves := by
  apply (h.seq h'.opt).congr
  intro s
  cases hs : item s <;> simp [leaves, excerptOf, optional_snd, hs]

theorem executes_number : Executes rule n .number number.leaves := by
  apply executes_thenOptional (Executes.run Char.isDigit)
  apply ((Executes.mark '.').seq (Executes.run Char.isDigit)).congr
  intro s
  cases hs : char '.' s <;> simp [leaves, Numeral.pointAndDigits, Numeral.digits, hs]

theorem executes_comparisonMark : Executes rule n .comparisonMark comparisonMark.leaves :=
  executes_thenOptional (.one isComparisonChar) (.one isComparisonChar)

theorem executes_arithmeticMark : Executes rule n .arithmeticMark arithmeticMark.leaves := by
  have hchar : Executes rule n (.token (.one isArithmeticChar))
      (excerptOf (satisfying isArithmeticChar)).leaves :=
    (Executes.one isArithmeticChar).congr (leaves_excerptOf _)
  exact ((executes_keyword "mod").alt hchar).congr (leaves_orElse _ _)

/-- An operator and its operand are scanned as they are read. -/
theorem executes_link (h : Executes rule n a operator.leaves)
    (h' : Executes rule n b operand.leaves) :
    Executes rule n (.seq a.spaced b) (link operator operand).leaves := by
  apply (h.spaced.seq h').congr
  intro s
  cases hs : operator.leaves (Text.skipBlanks s) <;> simp [link, hs]

/-- A chain is scanned as it is read, if its operators and operands are. -/
theorem executes_chain (hrule : Descends rule layer) (h : Executes rule n a operator.leaves)
    (htakes : a.takes = true) (h' : Executes rule n b operand.leaves) :
    Executes rule n (.chain a b) (chain operator operand).leaves := by
  have hlinks := (executes_link h h').many hrule (by simp [Pattern.takes, Pattern.spaced, htakes])
  apply (h'.seq hlinks).congr
  intro s
  cases hs : operand s <;> simp [leaves, chain, hs]

/-- A mark in front of a marked operand changes nothing about what is left behind it. -/
theorem leaves_marked_of_some {e : Excerpt} {rest : List Char} (h : mark s = some (e, rest))
    (hlt : rest.length < s.length) :
    (marked mark operand).leaves s = (marked mark operand).leaves (Text.skipBlanks rest) := by
  have hthen : thenBlanks mark s = some (e, Text.skipBlanks rest) := by simp [thenBlanks, h]
  have hle : (Text.skipBlanks rest).length ≤ rest.length := (List.dropWhile_suffix _).length_le
  have hmany := many_of_some hthen (hle.trans_lt hlt)
  cases hlast : operand (many (thenBlanks mark) (Text.skipBlanks rest)).2 <;>
    simp [leaves, marked, hmany, hlast]

/-- A routine that reads a mark and calls itself behind it reads a marked operand, if no operand
begins with a mark: where nothing marked stands behind a mark, the routine tries an operand in its
place. -/
theorem executes_marked (hrule : Descends rule layer) {r : ρ}
    (heq : rule r = .alt (.seq (.seq a .blanks) (.call r)) b) (h : Executes rule n a mark.leaves)
    (htakes : a.takes = true) (h' : Executes rule n b operand.leaves)
    (hapart : ∀ s, mark s ≠ none → operand s = none) :
    Executes rule n (.call r) (marked mark operand).leaves := by
  intro s
  -- the induction is on the remaining text, since each mark takes a character
  induction hlength : s.length using Nat.strong_induction_on generalizing s with
  | h m ih =>
  subst hlength
  intro hs
  apply Ends.call
  rw [heq]
  have hmark := h s hs
  have hoperand := h' s hs
  cases hread : mark s with
  | none =>
    rw [leaves_of_none hread] at hmark
    have hfirst : Ends rule (.seq (.seq a .blanks) (.call r)) s none :=
      hmark.imp fun _ ha => ha.failed_seq.failed_seq
    have hleaves : (marked mark operand).leaves s = operand.leaves s := by
      rw [leaves, marked_of_none hread, leaves]
    rw [hleaves]
    exact hfirst.alt hoperand
  | some x =>
    obtain ⟨e, rest⟩ := x
    rw [leaves_of_some hread] at hmark
    have hlt := Runs.length_lt hrule hmark htakes
    have hle : (Text.skipBlanks rest).length ≤ rest.length := (List.dropWhile_suffix _).length_le
    have hnone : operand.leaves s = none := leaves_of_none (hapart s (by simp [hread]))
    have hblanks : Runs rule (.seq a .blanks) s (.done (Text.skipBlanks rest)) :=
      .seq hmark (Executes.blanks (n := n) rest (by omega))
    have hbehind :=
      ih (Text.skipBlanks rest).length (by omega) (Text.skipBlanks rest) rfl (by omega)
    have hfirst : Ends rule (.seq (.seq a .blanks) (.call r)) s
        ((some (Text.skipBlanks rest)).bind (marked mark operand).leaves) :=
      Ends.seq hblanks fun t ht => by cases ht.unique hblanks; exact hbehind
    have halt := hfirst.alt hoperand
    rw [hnone, Option.or_none, Option.bind_some] at halt
    rw [leaves_marked_of_some hread hlt]
    exact halt

end Shapes

/-! ### Values -/

section Values

open Routine

variable {n : Nat} {inner : Reader Phrase} {s : List Char}

/-- Signs begin neither numbers nor words nor parentheses. -/
theorem primary_eq_none_of_sign (h : excerptOf (satisfying isSignChar) s ≠ none) :
    primary inner s = none := by
  cases s with
  | nil => exact absurd rfl h
  | cons c t =>
    have hc : isSignChar c = true := by
      by_contra hc
      exact h (excerptOf_eq_none (satisfying_eq_none (by simpa using hc)))
    have hsign : (c = '-' ∨ c = '+') ∨ c = '~' := by simpa [isSignChar] using hc
    rcases hsign with (rfl | rfl) | rfl <;>
      rw [primary, orElse_of_none (map_eq_none (number_eq_none rfl)),
        orElse_of_none (map_eq_none (word_eq_none rfl))] <;> rfl

variable (h : Executes rule n (.call .list) inner.leaves)
include h

/-- Numbers, words and values in parentheses are scanned as they are read. -/
theorem executes_primary : Executes rule (n + 1) (.call .primary) (primary inner).leaves := by
  apply Executes.call
  apply (executes_number.alt (executes_word.alt (h.enclosed descends))).congr
  intro s
  simp [primary, parenthesized]

theorem executes_signed : Executes rule (n + 1) (.call .signed) (signed inner).leaves :=
  executes_marked descends rfl ((Executes.one isSignChar).congr (leaves_excerptOf _)) rfl
    (executes_primary h) fun _ => primary_eq_none_of_sign

theorem executes_arithmetic : Executes rule (n + 1) (.call .arithmetic) (arithmetic inner).leaves :=
  (executes_chain descends executes_arithmeticMark (by decide) (executes_signed h)).call

theorem executes_range : Executes rule (n + 1) (.call .range) (range inner).leaves := by
  have hdots : Executes rule (n + 1) (.token (.text ['.', '.'])) dots.leaves :=
    (Executes.token _).congr (leaves_excerptOf _)
  have harithmetic := executes_arithmetic h
  apply Executes.call
  apply (harithmetic.seq (executes_link hdots harithmetic).opt).congr
  intro s
  cases hleast : arithmetic inner s with
  | none => simp [leaves, range, hleast]
  | some x => cases hspan : link dots (arithmetic inner) x.2 <;> simp [leaves, range, hleast, hspan]

theorem executes_list : Executes rule (n + 1) (.call .list) (list inner).leaves := by
  apply Executes.call
  apply ((executes_range h).separated descends).congr
  intro s
  cases hread : commaSeparated (range inner) s with
  | none => simp [leaves, list, hread]
  | some x => cases hmore : x.1.2 <;> simp [leaves, list, hread, hmore]

end Values

/-! ### Conditions -/

section Conditions

open Routine

variable {n depth : Nat} {valueReader inner : Reader Phrase} {s : List Char}

/-- Values are scanned as they are read, up to the depth of the reader. -/
theorem executes_value : ∀ depth : Nat, Executes rule depth (.call .list) (value depth).leaves
  | 0 => fun s hs => absurd hs (Nat.not_lt_zero s.length)
  | depth + 1 => executes_list (executes_value depth)

theorem executes_comparison (h : Executes rule n (.call .list) valueReader.leaves) :
    Executes rule n (.call .comparison) (comparison valueReader).leaves := by
  apply Executes.call
  apply (h.seq (executes_link executes_comparisonMark h)).congr
  intro s
  cases hleft : valueReader s with
  | none => simp [leaves, comparison, hleft]
  | some x =>
    cases hlink : link comparisonMark valueReader x.2 <;> simp [leaves, comparison, hleft, hlink]

/-- A negation is no truth value, no comparison and no condition in parentheses. -/
theorem simpleCondition_eq_none_of_not (h : keyword "not" s ≠ none) :
    simpleCondition (value depth) inner s = none := by
  obtain ⟨⟨e, rest⟩, hread⟩ := Option.ne_none_iff_exists'.mp h
  obtain ⟨⟨e', rest'⟩, hliteral, hend⟩ := Option.bind_eq_some_iff.mp hread
  obtain ⟨text, rfl, -, _, rfl⟩ := takes_excerptOf (takes_literal _) hliteral
  have hrest : rest'.head?.any isNameChar = false := by
    dsimp only at hend
    split at hend
    · cases hend
    · next hname => simpa using hname
  have hcomparison : comparison (value depth) ("not".toList ++ rest') = none := by
    rw [comparison, value_eq_none_of_reserved (by decide) hrest]
    rfl
  have htruth : orElse (keyword "true") (keyword "false") ("not".toList ++ rest') = none := by
    rw [orElse_of_none (keyword_eq_none_of_head (c := 't') (by decide) (by simp))]
    exact keyword_eq_none_of_head (c := 'f') (by decide) (by simp)
  rw [simpleCondition, orElse_of_none (map_eq_none htruth), orElse_of_none hcomparison]
  exact map_eq_none rfl

variable (h : Executes rule n (.call .disjunction) inner.leaves)
include h

theorem executes_simpleCondition (hvalue : Executes rule (n + 1) (.call .list) valueReader.leaves) :
    Executes rule (n + 1) (.call .simpleCondition) (simpleCondition valueReader inner).leaves := by
  have htruth : Executes rule (n + 1) (.alt (.keyword "true") (.keyword "false"))
      (orElse (keyword "true") (keyword "false")).leaves :=
    ((executes_keyword "true").alt (executes_keyword "false")).congr (leaves_orElse _ _)
  apply Executes.call
  apply (htruth.alt ((executes_comparison hvalue).alt (h.enclosed descends))).congr
  intro s
  simp [simpleCondition, parenthesized]

theorem executes_negation :
    Executes rule (n + 1) (.call .negation) (negation (value (n + 1)) inner).leaves :=
  executes_marked descends rfl (executes_keyword "not") (by decide)
    (executes_simpleCondition h (executes_value (n + 1))) fun _ => simpleCondition_eq_none_of_not

theorem executes_conjunction :
    Executes rule (n + 1) (.call .conjunction) (conjunction (value (n + 1)) inner).leaves :=
  (executes_chain descends (executes_keyword "and") (by decide) (executes_negation h)).call

theorem executes_disjunction :
    Executes rule (n + 1) (.call .disjunction) (disjunction (value (n + 1)) inner).leaves := by
  have hmark : Executes rule (n + 1) (.alt (.keyword "or") (.keyword "xor"))
      (orElse (keyword "or") (keyword "xor")).leaves :=
    ((executes_keyword "or").alt (executes_keyword "xor")).congr (leaves_orElse _ _)
  exact (executes_chain descends hmark (by decide) (executes_conjunction h)).call

end Conditions

open Routine in
/-- Conditions are scanned as they are read, up to the depth of the reader. -/
theorem executes_condition :
    ∀ depth : Nat, Executes rule depth (.call .disjunction) (condition depth).leaves
  | 0 => fun s hs => absurd hs (Nat.not_lt_zero s.length)
  | depth + 1 => executes_disjunction (executes_condition depth)

/-! ### Parts of lines -/

section Parts

open Routine

variable {n : Nat}

/-- A condition is given a depth that its text does not exceed. -/
theorem executes_conditionReader : Executes rule n (.call .disjunction) conditionReader.leaves := by
  intro s _
  have h := executes_condition (s.length + 1) s (Nat.lt_succ_self s.length)
  rw [leaves] at h
  rwa [leaves, conditionReader]

theorem executes_entry : Executes rule n (.call .entry) entry.leaves := by
  apply Executes.call
  apply ((Executes.run isNameChar).seq ((Executes.mark '=').spaced.seq (.token (.run _)))).congr
  intro s
  cases hname : Reader.run isNameChar s with
  | none => simp [leaves, entry, pair, runOf, excerptOf, hname]
  | some x =>
    cases heq : char '=' (Text.skipBlanks x.2) <;>
      simp [leaves, entry, pair, skipping, runOf, excerptOf, hname, heq, entryValue_rest,
        Token.leaves]

theorem executes_brackets : Executes rule n (.call .brackets) brackets.leaves := by
  have hentries := executes_entry.separated (n := n) descends
  exact ((hentries.enclosed descends).mono (Nat.le_succ n)).call.congr fun _ => leaves_map _ _

theorem executes_caseName : Executes rule n .caseName caseName.leaves := by
  apply ((Executes.one Char.isAlpha).seq (.token (.run isCaseChar))).congr
  intro s
  cases hs : satisfying Char.isAlpha s <;> simp [leaves, caseName, excerptOf, hs, Token.leaves]

theorem executes_writtenCondition :
    Executes rule n (.seq .blanks (.call .disjunction)) (skipping writtenCondition).leaves := by
  apply (Executes.blanks.seq executes_conditionReader).congr
  intro s
  cases hs : conditionReader (Text.skipBlanks s) <;> simp [leaves, skipping, writtenCondition, hs]

theorem executes_caseSegment : Executes rule n (.call .caseSegment) caseSegment.leaves := by
  have hcolon : Executes rule n (.seq .blanks (.mark ':')) (skipping (char ':')).leaves :=
    Executes.blanks.seq (.mark ':')
  have hconditions := (executes_writtenCondition (n := n)).many descends rfl
  apply Executes.call
  apply (executes_caseName.seq (hcolon.opt.seq hconditions)).congr
  intro s
  cases hs : caseName s <;> simp [leaves, caseSegment, optional_snd, hs]

theorem executes_sampleSegment : Executes rule n (.call .sampleSegment) sampleSegment.leaves := by
  have hvalues : Executes rule n (.seq .blanks (.separated (.token (.word isSampleChar [])) .comma))
      (skipping sampleValues).leaves := by
    have hvalue : Executes rule n (.token (.word isSampleChar [])) (runOf isSampleChar).leaves :=
      (Executes.run isSampleChar).congr (leaves_excerptOf _)
    exact (Executes.blanks.seq (hvalue.separated descends)).congr fun s => by simp [sampleValues]
  have hname : Executes rule n (.seq (.mark '@') .name) fun s =>
      ((char '@').leaves s).bind (Reader.run isNameChar).leaves :=
    (Executes.mark '@').seq (.run isNameChar)
  apply Executes.call
  apply (hname.seq hvalues.opt).congr
  intro s
  cases hmark : char '@' s with
  | none => simp [leaves, sampleSegment, hmark]
  | some x =>
    cases hname : Reader.run isNameChar x.2 <;>
      simp [leaves, sampleSegment, runOf, excerptOf, optional_snd, hmark, hname]

/-- Segments of samples are read with the blanks before each of them or with the blanks behind each
of them. -/
theorem runs_samples (s : List Char) :
    Runs rule (.many (.seq (.call .sampleSegment) .blanks)) (Text.skipBlanks s)
      (.done (Text.skipBlanks (many (skipping sampleSegment) s).2)) := by
  have hsegment : ∀ s, Ends rule (.call .sampleSegment) s (sampleSegment.leaves s) :=
    fun s => executes_sampleSegment s (Nat.lt_succ_self s.length)
  have hdone : ∀ s x rest, skipping sampleSegment s = some (x, rest) →
      Runs rule (.call .sampleSegment) (Text.skipBlanks s) (.done rest) := by
    intro s x rest hsome
    have hend := hsegment (Text.skipBlanks s)
    rwa [← leaves_skipping, leaves_of_some hsome] at hend
  fun_induction many (skipping sampleSegment) s with
  | case1 s hnone =>
    have hend := hsegment (Text.skipBlanks s)
    rw [← leaves_skipping, leaves_of_none hnone] at hend
    exact .loop_failed (Runs.failed_moving (.failed_seq hend.choose_spec))
  | case2 s x rest hsome hlt more tail hmore ih =>
    have hitem := Runs.seq (hdone s x rest hsome) (runs_blanks rest)
    rw [hmore] at ih
    exact .loop (.moving hitem (hitem.length_lt descends rfl)) ih
  | case3 s x rest hsome hnot =>
    have hlt := (hdone s x rest hsome).length_lt descends rfl
    exact absurd (hlt.trans_le (List.dropWhile_suffix _).length_le) hnot

/-- The scanner of a line stops where the reader of the line stops. -/
theorem runs_line (s : List Char) : Runs rule line s (.done (Line.parts s).2) := by
  have hinfo (t : List Char) :
      Runs rule (.opt (.call .brackets)) t (.done (Reader.optional brackets t).2) :=
    Ends.runs_opt (executes_brackets t (Nat.lt_succ_self t.length))
  have hcase (t : List Char) :
      Runs rule (.opt (.call .caseSegment)) t (.done (Reader.optional caseSegment t).2) :=
    Ends.runs_opt (executes_caseSegment t (Nat.lt_succ_self t.length))
  have hend : ∀ t, Runs rule .blanks (Text.skipBlanks t) (.done (Text.skipBlanks t)) := by
    intro t
    have h : Runs rule .blanks (Text.skipBlanks t) _ := runs_blanks (Text.skipBlanks t)
    rwa [Text.skipBlanks_skipBlanks] at h
  exact .seq (runs_blanks s) <| .seq (hinfo _) <| .seq (runs_blanks _) <| .seq (hcase _) <|
    .seq (runs_blanks _) <| .seq (runs_samples _) (hend _)

end Parts

end Grammar

end PluralRules
