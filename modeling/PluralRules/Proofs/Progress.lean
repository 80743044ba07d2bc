import PluralRules.Proofs.Scanner

/-!
# Progress

Reading a line comes to an end, and why. The routines of the scanner and the readers of the grammar
leave the same of every text. Each of them takes a character when it succeeds. An attempt that fails
is undone, wherever its cursor stopped. A routine that is called again from within itself has less
text before it then. So no chain of calls goes on for ever, and nothing is ever repeated without
taking a character.
-/

namespace PluralRules

namespace Routine

open Grammar

/-- What the reader for which a routine stands leaves of a text. In what it reads, parentheses nest
less deeply than `depth + 1`. -/
def leaves (depth : Nat) : Routine → List Char → Option (List Char)
  | disjunction => (Grammar.condition (depth + 1)).leaves
  | conjunction => (Grammar.conjunction (value (depth + 1)) (condition depth)).leaves
  | negation => (Grammar.negation (value (depth + 1)) (condition depth)).leaves
  | simpleCondition => (Grammar.simpleCondition (value (depth + 1)) (condition depth)).leaves
  | comparison => (Grammar.comparison (value (depth + 1))).leaves
  | list => (Grammar.list (value depth)).leaves
  | range => (Grammar.range (value depth)).leaves
  | arithmetic => (Grammar.arithmetic (value depth)).leaves
  | signed => (Grammar.signed (value depth)).leaves
  | primary => (Grammar.primary (value depth)).leaves
  | entry => Grammar.entry.leaves
  | brackets => Grammar.brackets.leaves
  | caseSegment => Grammar.caseSegment.leaves
  | sampleSegment => Grammar.sampleSegment.leaves

/-- On a text that is not longer than the depth, a routine ends as its reader does. -/
theorem ends_leaves (r : Routine) {depth : Nat} {s : List Char} (h : s.length ≤ depth) :
    Ends rule (.call r) s (r.leaves depth s) := by
  have hs : s.length < depth + 1 := Nat.lt_succ_of_le h
  have hvalue := executes_value depth
  have hcondition := executes_condition depth
  cases r with
  | disjunction => exact executes_condition (depth + 1) s hs
  | conjunction => exact executes_conjunction hcondition s hs
  | negation => exact executes_negation hcondition s hs
  | simpleCondition => exact executes_simpleCondition hcondition (executes_value (depth + 1)) s hs
  | comparison => exact executes_comparison (executes_value (depth + 1)) s hs
  | list => exact executes_list hvalue s hs
  | range => exact executes_range hvalue s hs
  | arithmetic => exact executes_arithmetic hvalue s hs
  | signed => exact executes_signed hvalue s hs
  | primary => exact executes_primary hvalue s hs
  | entry => exact executes_entry s hs
  | brackets => exact executes_brackets s hs
  | caseSegment => exact executes_caseSegment s hs
  | sampleSegment => exact executes_sampleSegment s hs

/-- What a reader of the grammar leaves is the end of the text, and less than the whole of it. -/
theorem length_lt_of_leaves {r : Routine} {depth : Nat} {s rest : List Char} (h : s.length ≤ depth)
    (hleaves : r.leaves depth s = some rest) : rest <:+ s ∧ rest.length < s.length := by
  have hrun := r.ends_leaves h
  rw [hleaves] at hrun
  exact ⟨Runs.suffix hrun, Runs.length_lt descends hrun rfl⟩

/-- The scanner makes progress. Its routines succeed and fail as the readers of the grammar do. What
succeeds has taken a character off the front. What fails leaves no trace where it was attempted. A
routine that is reached from one of its own layer or of a lower one, as from itself, has less text
before it. On every line no chain of calls goes on for ever, and the scanner stops where the reader
of the line stops. All that it reaches on the way comes to an end, and nothing in it is repeated
without taking a character. -/
theorem makes_progress :
    (∀ (r : Routine) (depth : Nat) (s : List Char), s.length ≤ depth →
      (∀ rest, Runs rule (.call r) s (.done rest) ↔ r.leaves depth s = some rest) ∧
        ((∃ stop, Runs rule (.call r) s (.failed stop)) ↔ r.leaves depth s = none)) ∧
    (∀ (r : Routine) (depth : Nat) (s rest : List Char), s.length ≤ depth →
      r.leaves depth s = some rest →
      rest <:+ s ∧ rest.length < s.length) ∧
    (∀ (item : Pattern Routine) (s stop : List Char), Runs rule item s (.failed stop) →
      stop <:+ s ∧ LeavesNoTrace rule item s) ∧
    (∀ (r q : Routine) (s t : List Char), r.layer ≤ q.layer →
      Reaches rule (.call r, s) (.call q, t) →
      t.length < s.length) ∧
    (∀ s : List Char, Acc (fun y x => Calls rule x y) (line, s) ∧
      ∀ o, Runs rule line s o ↔ o = .done (Line.parts s).2) ∧
    ∀ (s t : List Char) (e : Pattern Routine), Reaches rule (line, s) (e, t) →
      (∃ o, Runs rule e t o) ∧ ¬ Runs rule e t .stalled := by
  refine ⟨fun r depth s h => ?_, fun r depth s rest h => length_lt_of_leaves h, ?_, ?_, ?_, ?_⟩
  · exact ⟨(r.ends_leaves h).done_iff, (r.ends_leaves h).failed_iff⟩
  · intro item s stop h
    exact ⟨h.within, h.leavesNoTrace⟩
  · intro r q s t hle h
    exact descends.length_lt_of_reaches hle h
  · intro s
    exact ⟨descends.acc (line, s) safe_line, fun o => (runs_line s).iff_eq⟩
  · intro s t e h
    exact descends.exists_runs (x := (line, s)) safe_line h.to_reflTransGen

/-- A condition with parentheses and a sign, behind which an attempt to read `or` stops inside of a
longer word. -/
theorem makes_progress_of_order :
    let s := "(-n) = 1 order".toList
    (s.length ≤ 14 ∧ disjunction.leaves 14 s = some " order".toList ∧
      Runs rule (.call disjunction) s (.done " order".toList) ∧ " order".toList.length < s.length) ∧
    (Runs rule (.keyword "or") "order".toList (.failed "der".toList) ∧
      LeavesNoTrace rule (.keyword "or") "order".toList) ∧
    (primary.layer ≤ list.layer ∧ Reaches rule (.call primary, ['(', 'n', ')'])
      (.call list, ['n', ')']) ∧
      ['n', ')'].length < ['(', 'n', ')'].length) ∧
    Reaches rule (line, s) (.blanks, s) ∧ ¬ Runs rule .blanks s .stalled := by
  intro s
  obtain ⟨hends, hshorter, hattempt, hlayers, -, hstall⟩ := makes_progress
  have hlength : s.length ≤ 14 := by decide
  have hleaves : disjunction.leaves 14 s = some " order".toList := by decide +kernel
  have hfailed : Runs rule (.keyword "or") "order".toList (.failed "der".toList) :=
    .seq (.token (by decide)) (.token_failed (by decide))
  have hparen : Runs rule (.seq (.mark '(') .blanks) ['(', 'n', ')'] (.done ['n', ')']) :=
    .seq (.token rfl) (.token (by decide))
  have hnumber : Runs rule .number ['(', 'n', ')'] (.failed ['(', 'n', ')']) :=
    .failed_seq (.token_failed rfl)
  have hreaches : Reaches rule (.call primary, ['(', 'n', ')']) (.call list, ['n', ')']) :=
    .head .call <| .head (.alt_second hnumber) <| .head (.alt_second (.token_failed (by decide))) <|
      .head (.seq_second hparen) <| .single .seq_first
  have hblanks : Reaches rule (line, s) (.blanks, s) := .single .seq_first
  exact ⟨⟨hlength, hleaves, ((hends _ _ _ hlength).1 _).mpr hleaves,
    (hshorter _ _ _ _ hlength hleaves).2⟩,
    ⟨hfailed, (hattempt _ _ _ hfailed).2⟩,
    ⟨by decide, hreaches, hlayers _ _ _ _ (by decide) hreaches⟩,
    hblanks, (hstall _ _ _ hblanks).2⟩

end Routine

end PluralRules
