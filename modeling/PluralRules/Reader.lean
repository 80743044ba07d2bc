import PluralRules.Text.Blank

/-!
# Readers

A reader takes one item off the front of a text and returns it with the text that remains. A reader
that fails returns nothing at all, so whoever tried it still holds the text as it was: giving back
what an abandoned attempt had read needs no work.

`many` is the only loop. It goes on while the remaining text gets shorter, so it ends for every
reader; for a reader that always takes at least one character the test never decides anything.
-/

namespace PluralRules

/-- Takes one item off the front of a text. -/
abbrev Reader (α : Type) := List Char → Option (α × List Char)

namespace Reader

def char (c : Char) : Reader Unit
  | d :: rest => if d = c then some ((), rest) else none
  | [] => none

def satisfying (p : Char → Bool) : Reader Char
  | c :: rest => if p c then some (c, rest) else none
  | [] => none

def literal (text : List Char) : Reader Unit := fun s =>
  if text.isPrefixOf s then some ((), s.drop text.length) else none

/-- The longest run of characters with a property, which must not be empty. -/
def run (p : Char → Bool) : Reader (List Char) := fun s =>
  match s.takeWhile p with
  | [] => none
  | text => some (text, s.dropWhile p)

def map (f : α → β) (item : Reader α) : Reader β := fun s =>
  (item s).map fun (a, rest) => (f a, rest)

/-- The first reader, and the second one where the first fails. -/
def orElse (first second : Reader α) : Reader α := fun s => first s <|> second s

/-- An item that may be missing. This never fails. -/
def optional (item : Reader α) (s : List Char) : Option α × List Char :=
  match item s with
  | some (a, rest) => (some a, rest)
  | none => (none, s)

/-- As many items as follow each other. This never fails. -/
def many (item : Reader α) (s : List Char) : List α × List Char :=
  match item s with
  | none => ([], s)
  | some (a, rest) =>
    if rest.length < s.length then
      let (more, tail) := many item rest
      (a :: more, tail)
    else ([], s)
termination_by s.length

/-- An item, with blanks before it that do not count. -/
def skipping (item : Reader α) : Reader α := fun s => item (Text.skipBlanks s)

/-- Two items, with blanks between them that do not count. -/
def pair (first : Reader α) (second : Reader β) : Reader (α × β) := fun s => do
  let (a, s) ← first s
  let (b, s) ← skipping second s
  some ((a, b), s)

/-- An item between two characters, with blanks inside them that do not count. -/
def between (opening closing : Char) (item : Reader α) : Reader α := fun s => do
  let ((), s) ← char opening s
  let (a, s) ← skipping item s
  let ((), s) ← skipping (char closing) s
  some (a, s)

/-- An item after a character, with blanks around the character that do not count. -/
def introduced (mark : Char) (item : Reader α) : Reader α :=
  map Prod.snd (skipping (pair (char mark) item))

/-- One item or more, with commas between them. -/
def commaSeparated (item : Reader α) : Reader (α × List α) := fun s => do
  let (first, s) ← item s
  let (more, s) := many (introduced ',' item) s
  some ((first, more), s)

end Reader

end PluralRules
