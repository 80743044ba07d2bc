import PluralRules.Proofs.Routines
import PluralRules.Proofs.Spacing

/-!
# Patterns that do what readers do

`Executes rule n e item.leaves` says that on all texts shorter than `n` the pattern `e` succeeds if
and only if the reader `item` does, and that the cursor is then before the text that the reader
leaves. There is one rule for each way of making a reader from others, and the pattern is made in
the same way: so it makes no difference that a reader that fails forgets where it stopped.

The bound is there for parentheses: what is said of the texts inside them need be known of shorter
texts only.
-/

namespace PluralRules

/-! ### What readers leave -/

namespace Reader

variable {α β : Type} {item : Reader α} {s : List Char}

@[simp] theorem leaves_map (f : α → β) (s : List Char) : (map f item).leaves s = item.leaves s := by
  cases h : item s <;> simp [leaves, map, h]

/-- Blanks are left before the item is looked for. -/
@[simp] theorem leaves_skipping (s : List Char) :
    (skipping item).leaves s = item.leaves (Text.skipBlanks s) := rfl

/-- The second reader is tried on the same text. -/
@[simp] theorem leaves_orElse (item second : Reader α) (s : List Char) :
    (orElse item second).leaves s = (item.leaves s).or (second.leaves s) := by
  cases h : item s <;> simp [leaves, orElse, h]

/-- Of two items, the second one is looked for behind the first one and its blanks. -/
@[simp] theorem leaves_pair (second : Reader β) (s : List Char) :
    (pair item second).leaves s = (item.leaves s).bind fun t =>
      second.leaves (Text.skipBlanks t) := by
  cases h : item s with
  | none => simp [leaves, pair, h]
  | some x => cases h' : second (Text.skipBlanks x.2) <;> simp [leaves, pair, skipping, h, h']

/-- Blanks inside the two characters belong to neither of them. -/
@[simp] theorem leaves_between (opening closing : Char) (s : List Char) :
    (between opening closing item).leaves s = ((char opening).leaves s).bind fun t =>
      (item.leaves (Text.skipBlanks t)).bind fun t =>
        (char closing).leaves (Text.skipBlanks t) := by
  cases h : char opening s with
  | none => simp [leaves, between, h]
  | some x =>
    cases h' : item (Text.skipBlanks x.2) with
    | none => simp [leaves, between, skipping, h, h']
    | some y =>
      cases h'' : char closing (Text.skipBlanks y.2) <;>
        simp [leaves, between, skipping, h, h', h'']

/-- Behind the first item, as many further items are taken as follow commas. -/
@[simp] theorem leaves_commaSeparated (s : List Char) : (commaSeparated item).leaves s =
    (item.leaves s).bind fun t => some (many (introduced ',' item) t).2 := by
  cases h : item s <;> simp [leaves, commaSeparated, h]

theorem optional_snd (s : List Char) : (optional item s).2 = (item.leaves s).getD s := by
  cases h : item s <;> simp [leaves, optional, h]

theorem leaves_of_some {a : α} {rest : List Char} (h : item s = some (a, rest)) :
    item.leaves s = some rest := by
  rw [leaves, h]
  rfl

theorem leaves_of_none (h : item s = none) : item.leaves s = none := by
  rw [leaves, h]
  rfl

end Reader

/-! ### Patterns that do what readers do -/

section Executes

variable {ρ : Type} (rule : ρ → Pattern ρ)

/-- A run ends well with a given rest, or it fails if none is given. -/
def Ends (e : Pattern ρ) (s : List Char) : Option (List Char) → Prop
  | some rest => Runs rule e s (.done rest)
  | none => ∃ stop, Runs rule e s (.failed stop)

/-- On all texts shorter than `n` a pattern leaves what a function says, and fails where it says
nothing. -/
def Executes (n : Nat) (e : Pattern ρ) (f : List Char → Option (List Char)) : Prop :=
  ∀ s, s.length < n → Ends rule e s (f s)

end Executes

namespace Ends

variable {ρ : Type} {rule : ρ → Pattern ρ} {layer : ρ → Nat} {a b : Pattern ρ} {s : List Char}
  {x y : Option (List Char)} {g : List Char → Option (List Char)}

/-- Where it is said how a run ends, it is said when it ends well and when it fails. -/
theorem done_iff (h : Ends rule a s x) (rest : List Char) :
    Runs rule a s (.done rest) ↔ x = some rest := by
  cases x with
  | none =>
    obtain ⟨stop, hfailed⟩ := h
    exact ⟨fun hdone => (nomatch hdone.unique hfailed), nofun⟩
  | some t =>
    have hdone : Runs rule a s (.done t) := h
    rw [hdone.iff_eq, Outcome.done.injEq, Option.some.injEq, eq_comm]

/-- A run fails exactly if no rest is given. -/
theorem failed_iff (h : Ends rule a s x) : (∃ stop, Runs rule a s (.failed stop)) ↔ x = none := by
  cases x with
  | none => exact ⟨fun _ => rfl, fun _ => h⟩
  | some t => exact ⟨fun ⟨_, hfailed⟩ => (nomatch Runs.unique hfailed h), nofun⟩

/-- A routine ends as its body does. -/
theorem call {r : ρ} (h : Ends rule (rule r) s x) : Ends rule (.call r) s x := by
  cases x with
  | none => exact Exists.imp (fun _ => Runs.call) h
  | some t => exact Runs.call h

/-- The second pattern goes on where the first one has ended. -/
theorem seq (h : Ends rule a s x) (h' : ∀ t, Runs rule a s (.done t) → Ends rule b t (g t)) :
    Ends rule (.seq a b) s (x.bind g) := by
  cases x with
  | none => exact Exists.imp (fun _ => Runs.failed_seq) h
  | some t =>
    have hb := h' t h
    rw [Option.bind_some]
    cases hg : g t with
    | none => rw [hg] at hb; exact Exists.imp (fun _ => Runs.seq h) hb
    | some u => rw [hg] at hb; exact Runs.seq h hb

/-- Where the first pattern fails, the second one runs on the same text. -/
theorem alt (h : Ends rule a s x) (h' : Ends rule b s y) : Ends rule (.alt a b) s (x.or y) := by
  cases x with
  | none =>
    obtain ⟨stop, ha⟩ := h
    cases y with
    | none => exact Exists.imp (fun _ => Runs.alt_failed ha) h'
    | some t => exact Runs.alt_failed ha h'
  | some t => exact Runs.alt h nofun

/-- A pattern that may be missing never fails. -/
theorem opt (h : Ends rule a s x) : Ends rule a.opt s (some (x.getD s)) := by
  cases x with
  | none => exact h.choose_spec.failed_opt
  | some t => exact Runs.alt h nofun

/-- A pattern that takes a character wherever it fits need not be watched. -/
theorem moving (hrule : Descends rule layer) (h : Ends rule a s x) (htakes : a.takes = true) :
    Ends rule (.moving a) s x := by
  cases x with
  | none => exact Exists.imp (fun _ => Runs.failed_moving) h
  | some t => exact Runs.moving h (Runs.length_lt hrule h htakes)

end Ends

namespace Executes

open Pattern Reader

variable {ρ : Type} {rule : ρ → Pattern ρ} {layer : ρ → Nat} {n : Nat} {a b : Pattern ρ}
  {f g : List Char → Option (List Char)}

theorem congr (h : Executes rule n a f) (hfg : ∀ s, g s = f s) : Executes rule n a g := by
  intro s hs
  rw [hfg]
  exact h s hs

theorem mono {m : Nat} (h : Executes rule n a f) (hmn : m ≤ n) : Executes rule m a f :=
  fun s hs => h s (hs.trans_le hmn)

theorem call {r : ρ} (h : Executes rule n (rule r) f) : Executes rule n (.call r) f :=
  fun s hs => (h s hs).call

theorem seq (h : Executes rule n a f) (h' : Executes rule n b g) :
    Executes rule n (.seq a b) fun s => (f s).bind g :=
  fun s hs => (h s hs).seq fun t ht => h' t (ht.suffix.length_le.trans_lt hs)

/-- Behind a pattern that takes a character less text is left, so what follows need be known for
less only. -/
theorem seq_of_takes (hrule : Descends rule layer) (h : Executes rule (n + 1) a f)
    (htakes : a.takes = true)
    (h' : Executes rule n b g) : Executes rule (n + 1) (.seq a b) fun s => (f s).bind g :=
  fun s hs => (h s hs).seq fun t ht => h' t (by have := ht.length_lt hrule htakes; omega)

theorem alt (h : Executes rule n a f) (h' : Executes rule n b g) :
    Executes rule n (.alt a b) fun s => (f s).or (g s) :=
  fun s hs => (h s hs).alt (h' s hs)

theorem opt (h : Executes rule n a f) : Executes rule n a.opt fun s => some ((f s).getD s) :=
  fun s hs => (h s hs).opt

/-- A pattern that is never empty passes the test for having moved. -/
theorem moving (hrule : Descends rule layer) (h : Executes rule n a f) (htakes : a.takes = true) :
    Executes rule n (.moving a) f :=
  fun s hs => (h s hs).moving hrule htakes

/-- A row of items is read by a loop. Where an item always takes a character, the test in `many`
decides nothing. -/
theorem loop {α : Type} {item : Reader α} (hrule : Descends rule layer)
    (h : Executes rule n a item.leaves)
    (htakes : a.takes = true) : Executes rule n (.loop a) fun s => some (Reader.many item s).2 := by
  intro s hs
  show Runs rule (.loop a) s (.done (Reader.many item s).2)
  fun_induction Reader.many item s with
  | case1 s hnone =>
    have hend := h s hs
    rw [leaves_of_none hnone] at hend
    exact .loop_failed hend.choose_spec
  | case2 s x rest hsome hlt more tail hmore ih =>
    have hend := h s hs
    rw [leaves_of_some hsome] at hend
    rw [hmore] at ih
    exact .loop hend (ih (by omega))
  | case3 s x rest hsome hnot =>
    have hend := h s hs
    rw [leaves_of_some hsome] at hend
    exact absurd (Runs.length_lt hrule hend htakes) hnot

/-- A repetition ends where its reader ends, since each item is shorter than what it is taken
from. -/
theorem many {α : Type} {item : Reader α} (hrule : Descends rule layer)
    (h : Executes rule n a item.leaves)
    (htakes : a.takes = true) : Executes rule n a.many fun s => some (Reader.many item s).2 :=
  (h.moving hrule htakes).loop hrule rfl

/-! ### Words and marks -/

theorem token (t : Token) : Executes rule n (.token t) t.leaves := by
  intro s _
  cases ht : t.leaves s with
  | none => exact ⟨s, .token_failed ht⟩
  | some rest => exact .token ht

theorem blanks : Executes rule n Pattern.blanks fun s => some (Text.skipBlanks s) :=
  token (.run Text.isBlank)

theorem mark (c : Char) : Executes rule n (Pattern.mark c) (char c).leaves := by
  rw [char_eq_literal]
  exact token (.text [c])

theorem one (p : Char → Bool) : Executes rule n (.token (.one p)) (satisfying p).leaves :=
  token (.one p)

theorem run (p : Char → Bool) : Executes rule n (.token (.word p [])) (Reader.run p).leaves := by
  apply (token (.word p [])).congr
  intro s
  cases h : s.takeWhile p <;> simp [Reader.leaves, Reader.run, Token.leaves, h]

theorem spaced (h : Executes rule n a f) :
    Executes rule n (Pattern.spaced a) fun s => (f (Text.skipBlanks s)).map Text.skipBlanks := by
  apply (blanks.seq (h.seq blanks)).congr
  intro s
  cases hf : f (Text.skipBlanks s) <;> simp [hf]

theorem comma : Executes rule n Pattern.comma fun s =>
    ((char ',').leaves (Text.skipBlanks s)).map Text.skipBlanks :=
  (mark ',').spaced

/-- Items with commas between them end where their reader ends. -/
theorem separated {α : Type} {item : Reader α} (hrule : Descends rule layer)
    (h : Executes rule n a item.leaves) :
    Executes rule n (Pattern.separated a Pattern.comma) (commaSeparated item).leaves := by
  have hmore : Executes rule n (.seq (.moving Pattern.comma) a) (introduced ',' item).leaves := by
    apply ((comma.moving hrule rfl).seq h).congr
    intro s
    cases hs : (char ',').leaves (Text.skipBlanks s) <;> simp [introduced, hs]
  apply (h.seq (hmore.loop hrule rfl)).congr
  exact leaves_commaSeparated

/-- What stands between two characters is shorter than the text, so it is enough to execute it on
shorter texts. -/
theorem enclosed {α : Type} {item : Reader α} {opening closing : Char} (hrule : Descends rule layer)
    (h : Executes rule n a item.leaves) :
    Executes rule (n + 1) (Pattern.enclosed opening closing a)
      (between opening closing item).leaves := by
  have hinner : Executes rule n (.seq a (.seq Pattern.blanks (Pattern.mark closing))) fun s =>
      (item.leaves s).bind fun t => (char closing).leaves (Text.skipBlanks t) :=
    (h.seq (blanks.seq (mark closing))).congr fun _ => rfl
  apply (((mark opening).seq blanks).seq_of_takes hrule rfl hinner).congr
  intro s
  cases hs : (char opening).leaves s <;> simp [hs]

end Executes

/-- The cursor is put behind all blanks. -/
theorem runs_blanks {ρ : Type} {rule : ρ → Pattern ρ} (s : List Char) :
    Runs rule .blanks s (.done (Text.skipBlanks s)) :=
  Executes.blanks s (Nat.lt_succ_self s.length)

/-- An item that may be missing is read by a pattern that may be missing. -/
theorem Ends.runs_opt {ρ α : Type} {rule : ρ → Pattern ρ} {a : Pattern ρ} {item : Reader α}
    {s : List Char}
    (h : Ends rule a s (item.leaves s)) : Runs rule a.opt s (.done (Reader.optional item s).2) := by
  rw [Reader.optional_snd]
  exact h.opt

end PluralRules
