import Mathlib.Logic.Relation
import PluralRules.Reader

/-!
# Patterns

A reader that fails returns nothing, so whoever tried it still holds the text. A scanner with a
cursor is less comfortable: where an attempt fails, the cursor stays where nothing fitted any more,
and has to be put back before anything else is tried. And where a reader is a function that is
given, a scanner calls itself, and has to come to an end.

A pattern is the program of such a scanner. `Runs` says where the cursor is when a pattern has been
run, and has no bound on how deep calls may nest: that a run exists means that the scanner comes to
an end. `Calls` says which runs a run starts, and with which text. Whether a pattern comes to an end
is a question about `Calls` alone (`Runs.exists_of_acc`).

Some of what `Runs` says is how the combinators that scanners are made of behave, and is taken over
from them, not proved:

* The cursor is put back to where an attempt began when the attempt has failed. This is so between
  two alternatives (`alt_failed`), at the end of a repetition (`loop_failed`), and where something
  may be missing (`Pattern.opt`).
* A repetition does not go on from an item, or from a mark between items, that has taken no
  character (`moving_stalled`).

What is proved is what follows from this for the routines of a scanner: that they come to an end,
that nothing in them stalls, and that they leave what the readers leave.
-/

namespace PluralRules

/-! ### Tokens -/

/-- What remains of a text behind the item that a reader takes off it. -/
def Reader.leaves {α : Type} (item : Reader α) (s : List Char) : Option (List Char) :=
  (item s).map Prod.snd

/-- What a cursor passes in one step: one character of a kind, the longest run of such characters,
which may be empty, or the longest run that is neither empty nor reserved (`word`), a given text, or
nothing if the next character is not of a kind (`absent`). -/
inductive Token where
  | one (p : Char → Bool)
  | run (p : Char → Bool)
  | word (p : Char → Bool) (reserved : List (List Char))
  | text (t : List Char)
  | absent (p : Char → Bool)

namespace Token

/-- What remains of a text behind a token. -/
def leaves : Token → List Char → Option (List Char)
  | one p, s => (Reader.satisfying p).leaves s
  | run p, s => some (s.dropWhile p)
  | word p reserved, s =>
    if s.takeWhile p = [] ∨ reserved.contains (s.takeWhile p) then none else some (s.dropWhile p)
  | text t, s => (Reader.literal t).leaves s
  | absent p, s => if s.head?.any p then none else some s

/-- Whether a token is never empty. -/
def takes : Token → Bool
  | one _ | word _ _ => true
  | text t => !t.isEmpty
  | run _ | absent _ => false

end Token

/-! ### Patterns -/

/-- The program of a scanner whose routines have names in `ρ`. With `alt`, the other pattern is
tried at the same place if the first one fails. A `loop` goes on until its item fails; what that
passed before it failed counts for nothing. A pattern that is `moving` must take a character. -/
inductive Pattern (ρ : Type) where
  | token (t : Token)
  | seq (first second : Pattern ρ)
  | alt (first second : Pattern ρ)
  | loop (item : Pattern ρ)
  | moving (item : Pattern ρ)
  | call (routine : ρ)

/-- How a run ends. The pattern fitted, and the rest of the text is behind the cursor (`done`), or
it did not fit, and the cursor stays where that showed (`failed`). A run is `stalled` if something
that is repeated took no character, so that it could be repeated for ever. -/
inductive Outcome where
  | done (rest : List Char)
  | failed (stop : List Char)
  | stalled

namespace Pattern

variable {ρ : Type}

def opt (item : Pattern ρ) : Pattern ρ := alt item (token (.run fun _ => false))

/-- A pattern any number of times. It must take a character each time. -/
def many (item : Pattern ρ) : Pattern ρ := loop (moving item)

/-- A mark and a pattern any number of times. The mark must take a character each time. -/
def more (mark item : Pattern ρ) : Pattern ρ := loop (seq (moving mark) item)

/-- A pattern once or more, with marks between. -/
def separated (item mark : Pattern ρ) : Pattern ρ := seq item (more mark item)

end Pattern

open Pattern

section Runs

variable {ρ : Type} (rule : ρ → Pattern ρ)

/-- A run of a pattern with the cursor before a text. -/
inductive Runs : Pattern ρ → List Char → Outcome → Prop
  | token {t : Token} {s rest : List Char} : t.leaves s = some rest → Runs (.token t) s (.done rest)
  | token_failed {t : Token} {s : List Char} : t.leaves s = none → Runs (.token t) s (.failed s)
  | seq {a b : Pattern ρ} {s t : List Char} {o : Outcome} : Runs a s (.done t) → Runs b t o →
      Runs (.seq a b) s o
  | seq_ended {a b : Pattern ρ} {s : List Char} {o : Outcome} : Runs a s o → (∀ t, o ≠ .done t) →
      Runs (.seq a b) s o
  | alt {a b : Pattern ρ} {s : List Char} {o : Outcome} : Runs a s o → (∀ stop, o ≠ .failed stop) →
      Runs (.alt a b) s o
  | alt_failed {a b : Pattern ρ} {s stop : List Char} {o : Outcome} : Runs a s (.failed stop) →
      Runs b s o →
      Runs (.alt a b) s o
  | loop {a : Pattern ρ} {s t : List Char} {o : Outcome} : Runs a s (.done t) → Runs (.loop a) t o →
      Runs (.loop a) s o
  | loop_failed {a : Pattern ρ} {s stop : List Char} : Runs a s (.failed stop) →
      Runs (.loop a) s (.done s)
  | loop_stalled {a : Pattern ρ} {s : List Char} : Runs a s .stalled → Runs (.loop a) s .stalled
  | moving {a : Pattern ρ} {s t : List Char} : Runs a s (.done t) → t.length < s.length →
      Runs (.moving a) s (.done t)
  | moving_stalled {a : Pattern ρ} {s t : List Char} : Runs a s (.done t) → ¬ t.length < s.length →
      Runs (.moving a) s .stalled
  | moving_ended {a : Pattern ρ} {s : List Char} {o : Outcome} : Runs a s o → (∀ t, o ≠ .done t) →
      Runs (.moving a) s o
  | call {r : ρ} {s : List Char} {o : Outcome} : Runs (rule r) s o → Runs (.call r) s o

/-- The runs that a run starts itself, each with its pattern and with the text at the cursor. -/
inductive Calls : Pattern ρ × List Char → Pattern ρ × List Char → Prop
  | seq_first {a b : Pattern ρ} {s : List Char} : Calls (.seq a b, s) (a, s)
  | seq_second {a b : Pattern ρ} {s t : List Char} : Runs rule a s (.done t) →
      Calls (.seq a b, s) (b, t)
  | alt_first {a b : Pattern ρ} {s : List Char} : Calls (.alt a b, s) (a, s)
  | alt_second {a b : Pattern ρ} {s stop : List Char} : Runs rule a s (.failed stop) →
      Calls (.alt a b, s) (b, s)
  | loop_item {a : Pattern ρ} {s : List Char} : Calls (.loop a, s) (a, s)
  | loop_again {a : Pattern ρ} {s t : List Char} : Runs rule a s (.done t) →
      Calls (.loop a, s) (.loop a, t)
  | moving {a : Pattern ρ} {s : List Char} : Calls (.moving a, s) (a, s)
  | call {r : ρ} {s : List Char} : Calls (.call r, s) (rule r, s)

/-- The runs that a run starts, itself or through others. -/
def Reaches : Pattern ρ × List Char → Pattern ρ × List Char → Prop := Relation.TransGen (Calls rule)

end Runs

/-! ### Runs come to one end -/

namespace Runs

variable {ρ : Type} {rule : ρ → Pattern ρ} {a b : Pattern ρ} {s t : List Char} {o o' : Outcome}

/-- A pattern cannot end in two ways on the same text. -/
theorem unique (h : Runs rule a s o) (h' : Runs rule a s o') : o = o' := by
  induction h generalizing o' with
  | token hs =>
    cases h' with
    | token hs' => rw [hs] at hs'; cases hs'; rfl
    | token_failed hs' => rw [hs] at hs'; cases hs'
  | token_failed hs =>
    cases h' with
    | token hs' => rw [hs] at hs'; cases hs'
    | token_failed _ => rfl
  | seq _ _ iha ihb =>
    cases h' with
    | seq ha hb => cases iha ha; exact ihb hb
    | seq_ended ha hne => exact absurd (iha ha).symm (hne _)
  | seq_ended _ hne iha =>
    cases h' with
    | seq ha _ => exact absurd (iha ha) (hne _)
    | seq_ended ha _ => exact iha ha
  | alt _ hne iha =>
    cases h' with
    | alt ha _ => exact iha ha
    | alt_failed ha _ => exact absurd (iha ha) (hne _)
  | alt_failed _ _ iha ihb =>
    cases h' with
    | alt ha hne => exact absurd (iha ha).symm (hne _)
    | alt_failed _ hb => exact ihb hb
  | loop _ _ iha ihloop =>
    cases h' with
    | loop ha hloop => cases iha ha; exact ihloop hloop
    | loop_failed ha => cases iha ha
    | loop_stalled ha => cases iha ha
  | loop_failed _ iha =>
    cases h' with
    | loop ha _ => cases iha ha
    | loop_failed _ => rfl
    | loop_stalled ha => cases iha ha
  | loop_stalled _ iha =>
    cases h' with
    | loop ha _ => cases iha ha
    | loop_failed ha => cases iha ha
    | loop_stalled _ => rfl
  | moving _ hlt iha =>
    cases h' with
    | moving ha _ => exact iha ha
    | moving_stalled ha hnot => cases iha ha; exact absurd hlt hnot
    | moving_ended ha hne => exact absurd (iha ha).symm (hne _)
  | moving_stalled _ hnot iha =>
    cases h' with
    | moving ha hlt => cases iha ha; exact absurd hlt hnot
    | moving_stalled _ _ => rfl
    | moving_ended ha hne => exact absurd (iha ha).symm (hne _)
  | moving_ended _ hne iha =>
    cases h' with
    | moving ha _ => exact absurd (iha ha) (hne _)
    | moving_stalled ha _ => exact absurd (iha ha) (hne _)
    | moving_ended ha _ => exact iha ha
  | call _ ih =>
    cases h' with
    | call h' => exact ih h'

/-- The end of a run is the only one. -/
theorem iff_eq (h : Runs rule a s o) : Runs rule a s o' ↔ o' = o :=
  ⟨fun h' => h'.unique h, fun heq => heq ▸ h⟩

/-- A pattern comes to an end if no chain of runs, each started by the one before, goes on for
ever. -/
theorem exists_of_acc {x : Pattern ρ × List Char} (h : Acc (fun y x => Calls rule x y) x) :
    ∃ o, Runs rule x.1 x.2 o := by
  -- what a run calls comes to an end by induction, and its outcome picks the rule that applies
  induction h with
  | intro x _ ih =>
    obtain ⟨e, s⟩ := x
    cases e with
    | token t =>
      cases hs : t.leaves s with
      | none => exact ⟨_, .token_failed hs⟩
      | some rest => exact ⟨_, .token hs⟩
    | seq a b =>
      obtain ⟨o, ha⟩ := ih _ .seq_first
      cases o with
      | done t =>
        obtain ⟨o, hb⟩ := ih _ (.seq_second ha)
        exact ⟨o, .seq ha hb⟩
      | failed stop => exact ⟨_, .seq_ended ha nofun⟩
      | stalled => exact ⟨_, .seq_ended ha nofun⟩
    | alt a b =>
      obtain ⟨o, ha⟩ := ih _ .alt_first
      cases o with
      | done t => exact ⟨_, .alt ha nofun⟩
      | failed stop =>
        obtain ⟨o, hb⟩ := ih _ (.alt_second ha)
        exact ⟨o, .alt_failed ha hb⟩
      | stalled => exact ⟨_, .alt ha nofun⟩
    | loop a =>
      obtain ⟨o, ha⟩ := ih _ .loop_item
      cases o with
      | done t =>
        obtain ⟨o, hloop⟩ := ih _ (.loop_again ha)
        exact ⟨o, .loop ha hloop⟩
      | failed stop => exact ⟨_, .loop_failed ha⟩
      | stalled => exact ⟨_, .loop_stalled ha⟩
    | moving a =>
      obtain ⟨o, ha⟩ := ih _ .moving
      cases o with
      | done t =>
        by_cases hlt : t.length < s.length
        · exact ⟨_, .moving ha hlt⟩
        · exact ⟨_, .moving_stalled ha hlt⟩
      | failed stop => exact ⟨_, .moving_ended ha nofun⟩
      | stalled => exact ⟨_, .moving_ended ha nofun⟩
    | call r =>
      obtain ⟨o, h⟩ := ih _ .call
      exact ⟨o, .call h⟩

end Runs

/-! ### What an attempt that fails leaves behind -/

/-- A pattern that fails leaves no trace where it was only attempted: as an alternative, where it
may be missing, and where it is repeated, with marks before it or not. What comes next is at the
same place in the text; a mark is given back with the item that is missing behind it. Behind the
last alternative nothing comes next: then all of them together are the pattern that fails. -/
structure LeavesNoTrace {ρ : Type} (rule : ρ → Pattern ρ) (item : Pattern ρ) (s : List Char) :
    Prop where
  alt (other : Pattern ρ) (o : Outcome) : Runs rule (.alt item other) s o ↔ Runs rule other s o
  opt (o : Outcome) : Runs rule item.opt s o ↔ o = .done s
  many (o : Outcome) : Runs rule item.many s o ↔ o = .done s
  mark (other : Pattern ρ) (o : Outcome) : Runs rule (more item other) s o ↔ o = .done s
  item (mark : Pattern ρ) (before : List Char) (o : Outcome) : Runs rule mark before (.done s) →
    s.length < before.length → (Runs rule (more mark item) before o ↔ o = .done before)

namespace Runs

variable {ρ : Type} {rule : ρ → Pattern ρ} {a b : Pattern ρ} {s t stop : List Char} {o : Outcome}

/-- After a failure, an alternative does what its second pattern does at the same place. -/
theorem failed_alt_iff (h : Runs rule a s (.failed stop)) :
    Runs rule (.alt a b) s o ↔ Runs rule b s o := by
  constructor
  · intro h'
    cases h' with
    | alt ha hne => exact absurd (ha.unique h) (hne _)
    | alt_failed _ hb => exact hb
  · exact .alt_failed h

/-- A sequence fails where its first pattern fails. -/
theorem failed_seq (h : Runs rule a s (.failed stop)) : Runs rule (.seq a b) s (.failed stop) :=
  .seq_ended h nofun

theorem failed_moving (h : Runs rule a s (.failed stop)) : Runs rule (.moving a) s (.failed stop) :=
  .moving_ended h nofun

/-- A pattern that may be missing ends where it began if it fails. -/
theorem failed_opt (h : Runs rule a s (.failed stop)) : Runs rule a.opt s (.done s) :=
  .alt_failed h (.token (by cases s <;> rfl))

/-- A failure leaves no trace in any of the patterns that can go on after it. -/
theorem leavesNoTrace (h : Runs rule a s (.failed stop)) : LeavesNoTrace rule a s where
  alt _ _ := h.failed_alt_iff
  opt _ := h.failed_opt.iff_eq
  many _ := iff_eq (.loop_failed h.failed_moving)
  mark _ _ := iff_eq (.loop_failed h.failed_moving.failed_seq)
  item _ _ _ hmark hlt := iff_eq (.loop_failed (.seq (.moving hmark hlt) h))

end Runs

end PluralRules
