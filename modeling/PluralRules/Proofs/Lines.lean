import PluralRules.Text.Lines

/-!
# The lines of a text

A text is cut into pieces at its newlines. Every piece but the last one is a line that a newline
ended, less a carriage return at its end; the last piece is a line only if it is not empty
(`Text.lines_eq`). From this follows what the lines of a text have to do with the lines of the same
text with one piece replaced.
-/

namespace PluralRules.Text

/-- A line without the carriage return at its end, if there is one. -/
def withoutReturn (line : List Char) : List Char :=
  if line.getLast? = some '\r' then line.dropLast else line

/-- The lines of the pieces that newlines cut a text into. -/
def ofPieces : List (List Char) → List (List Char)
  | [] => []
  | [last] => if last.isEmpty then [] else [last]
  | piece :: more => withoutReturn piece :: ofPieces more

variable {s piece line blank : List Char} {front back pieces : List (List Char)}

/-- Only the last character of a line can be dropped. -/
theorem withoutReturn_cons (c : Char) (h : line ≠ []) :
    withoutReturn (c :: line) = c :: withoutReturn line := by
  obtain ⟨d, ds, rfl⟩ := List.exists_cons_of_ne_nil h
  simp only [withoutReturn, List.getLast?_cons_cons, List.dropLast_cons_cons]
  split <;> rfl

theorem withoutReturn_subset (line : List Char) : withoutReturn line ⊆ line := by
  unfold withoutReturn
  split
  · exact List.dropLast_subset line
  · exact List.Subset.refl line

/-- A piece that others follow is a line of its own. -/
theorem ofPieces_cons (h : back ≠ []) :
    ofPieces (piece :: back) = withoutReturn piece :: ofPieces back := by
  obtain ⟨next, more, rfl⟩ := List.exists_cons_of_ne_nil h
  rfl

/-- Where the first piece is empty, the text begins with a newline. -/
theorem head?_of_splitOn (h : s.splitOn '\n' = [] :: pieces) (hne : pieces ≠ []) :
    s.head? = some '\n' := by
  cases s with
  | nil => cases h; exact absurd rfl hne
  | cons c s =>
    rw [List.splitOn_cons_eq_if_modifyHead] at h
    split at h
    · next hc => rw [beq_iff_eq.mp hc]; rfl
    · obtain ⟨first, more, hsplit⟩ := List.exists_cons_of_ne_nil (List.splitOn_ne_nil '\n' s)
      rw [hsplit] at h
      cases h

/-- A character in front of a text goes in front of its first line, unless it ends a line itself. -/
theorem ofPieces_splitOn_cons {c : Char} (hnewline : c ≠ '\n')
    (hreturn : c = '\r' → s.head? ≠ some '\n') : ofPieces ((c :: s).splitOn '\n') =
      match ofPieces (s.splitOn '\n') with
      | [] => [[c]]
      | first :: more => (c :: first) :: more := by
  obtain ⟨piece, more, hsplit⟩ := List.exists_cons_of_ne_nil (List.splitOn_ne_nil '\n' s)
  rw [List.splitOn_cons_eq_if_modifyHead, if_neg (by simpa using hnewline), hsplit,
    List.modifyHead_cons]
  by_cases hmore : more = []
  · subst hmore
    cases piece <;> rfl
  · have hcons : withoutReturn (c :: piece) = c :: withoutReturn piece := by
      by_cases hpiece : piece = []
      · subst hpiece
        have hc : c ≠ '\r' := fun hc => hreturn hc (head?_of_splitOn hsplit hmore)
        simp [withoutReturn, hc]
      · exact withoutReturn_cons c hpiece
    rw [ofPieces_cons hmore, ofPieces_cons hmore, hcons]

/-- The lines of a text are those of its pieces. -/
theorem lines_eq (s : List Char) : lines s = ofPieces (s.splitOn '\n') := by
  have hended : ∀ ended rest : List Char, '\n' ∉ ended →
      ofPieces ((ended ++ '\n' :: rest).splitOn '\n') =
        withoutReturn ended :: ofPieces (rest.splitOn '\n') := by
    intro ended rest h
    rw [List.splitOn_append_cons_self_of_not_mem h, ofPieces_cons (List.splitOn_ne_nil _ _)]
  have hhead : ∀ {rest : List Char}, (∀ more, rest = '\n' :: more → False) →
      rest.head? ≠ some '\n' := by
    intro rest h hrest
    obtain ⟨more, rfl⟩ := List.head?_eq_some_iff.mp hrest
    exact h more rfl
  -- a newline, a carriage return with a newline, or another character: the cases of `lines`
  fun_induction lines s with
  | case1 => rfl
  | case2 rest ih =>
    rw [ih]
    exact (hended [] rest List.not_mem_nil).symm
  | case3 rest ih =>
    rw [ih]
    exact (hended ['\r'] rest (by decide)).symm
  | case4 c rest hnewline hreturn hlines ih =>
    rw [ofPieces_splitOn_cons hnewline fun hc => hhead fun more => hreturn more hc, ← ih, hlines]
  | case5 c rest hnewline hreturn first more hlines ih =>
    rw [ofPieces_splitOn_cons hnewline fun hc => hhead fun more => hreturn more hc, ← ih, hlines]

/-! ### Pieces and lines hold no newline -/

theorem not_mem_of_mem_splitOn (h : piece ∈ s.splitOn '\n') : '\n' ∉ piece := by
  induction s generalizing piece with
  | nil =>
    rw [List.mem_singleton.mp h]
    exact List.not_mem_nil
  | cons c s ih =>
    obtain ⟨first, more, hsplit⟩ := List.exists_cons_of_ne_nil (List.splitOn_ne_nil '\n' s)
    rw [hsplit] at ih
    rw [List.splitOn_cons_eq_if_modifyHead, hsplit] at h
    split at h
    · rcases List.mem_cons.mp h with rfl | h
      · exact List.not_mem_nil
      · exact ih h
    · next hc =>
      rcases List.mem_cons.mp h with rfl | h
      · rw [List.mem_cons, not_or]
        exact ⟨fun heq => hc (beq_iff_eq.mpr heq.symm), ih List.mem_cons_self⟩
      · exact ih (List.mem_cons_of_mem _ h)

theorem exists_mem_of_mem_ofPieces (h : line ∈ ofPieces pieces) :
    ∃ piece ∈ pieces, line ⊆ piece := by
  fun_induction ofPieces pieces with
  | case1 => cases h
  | case2 last hempty => cases h
  | case3 last hempty => exact ⟨last, List.mem_cons_self, by rw [List.mem_singleton.mp h]; simp⟩
  | case4 piece more hmore ih =>
    rcases List.mem_cons.mp h with rfl | h
    · exact ⟨piece, List.mem_cons_self, withoutReturn_subset piece⟩
    · obtain ⟨piece, hpiece, hsubset⟩ := ih h
      exact ⟨piece, List.mem_cons_of_mem _ hpiece, hsubset⟩

/-- No line holds a newline. -/
theorem not_mem_of_mem_lines (h : line ∈ lines s) : '\n' ∉ line := by
  rw [lines_eq] at h
  obtain ⟨piece, hpiece, hsubset⟩ := exists_mem_of_mem_ofPieces h
  exact fun hmem => not_mem_of_mem_splitOn hpiece (hsubset hmem)

/-! ### Replacing a line -/

/-- The text in which something else stands for one line. -/
def replaceLine (i : Nat) (blank s : List Char) : List Char :=
  ['\n'].intercalate ((s.splitOn '\n').set i blank)

/-- Replacing a line replaces one piece between newlines. -/
theorem lines_replaceLine (h : '\n' ∉ blank) (i : Nat) (s : List Char) :
    lines (replaceLine i blank s) = ofPieces ((s.splitOn '\n').set i blank) := by
  have hpieces : ∀ piece ∈ (s.splitOn '\n').set i blank, '\n' ∉ piece := by
    intro piece hpiece
    rcases List.mem_or_eq_of_mem_set hpiece with hpiece | rfl
    · exact not_mem_of_mem_splitOn hpiece
    · exact h
  rw [lines_eq, replaceLine, List.splitOn_intercalate '\n' hpieces (by simp)]

/-- Replacing a piece changes no other line, but the last line may be lost with its text. -/
theorem exists_ofPieces_set (blank : List Char) {i : Nat}
    (hline : (ofPieces pieces)[i]? = some line) :
    ∃ front back, ofPieces pieces = front ++ line :: back ∧ front.length = i ∧
      ((∃ line' ⊆ blank, ofPieces (pieces.set i blank) = front ++ line' :: back) ∨
        back = [] ∧ ofPieces (pieces.set i blank) = front) := by
  fun_induction ofPieces pieces generalizing i with
  | case1 => cases hline
  | case2 last hempty => cases hline
  | case3 last hempty =>
    cases i with
    | succ i => cases hline
    | zero =>
      cases hline
      refine ⟨[], [], rfl, rfl, ?_⟩
      rw [List.set_cons_zero, ofPieces]
      -- the last piece may become empty, and then it is no line
      split
      · exact Or.inr ⟨rfl, rfl⟩
      · exact Or.inl ⟨blank, List.Subset.refl blank, rfl⟩
  | case4 piece more hmore ih =>
    cases i with
    | zero =>
      cases hline
      refine ⟨[], ofPieces more, rfl, rfl, Or.inl ⟨_, withoutReturn_subset blank, ?_⟩⟩
      rw [List.set_cons_zero, ofPieces_cons hmore]
      rfl
    | succ i =>
      obtain ⟨front, back, heq, hlength, hset⟩ := ih hline
      have hcons : ofPieces ((piece :: more).set (i + 1) blank) =
          withoutReturn piece :: ofPieces (more.set i blank) := by
        rw [List.set_cons_succ, ofPieces_cons (by simpa using hmore)]
      refine ⟨withoutReturn piece :: front, back, by rw [heq]; rfl, by rw [← hlength]; rfl, ?_⟩
      rw [hcons]
      rcases hset with ⟨line', hsubset, hset⟩ | ⟨hback, hset⟩
      · exact Or.inl ⟨line', hsubset, by rw [hset]; rfl⟩
      · exact Or.inr ⟨hback, by rw [hset]⟩

/-- What is put in the place of a line is a line there itself, or it is no line at all because it is
empty and ends the text. The other lines stay as they are. -/
theorem exists_lines_replaceLine {i : Nat} (h : '\n' ∉ blank) (hline : (lines s)[i]? = some line) :
    ∃ front back, lines s = front ++ line :: back ∧ front.length = i ∧
      ((∃ line' ⊆ blank, lines (replaceLine i blank s) = front ++ line' :: back) ∨
        back = [] ∧ lines (replaceLine i blank s) = front) := by
  rw [lines_replaceLine h]
  rw [lines_eq] at hline ⊢
  exact exists_ofPieces_set blank hline

end PluralRules.Text
