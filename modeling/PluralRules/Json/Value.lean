import PluralRules.Reader

/-!
# JSON values

The grammar of JSON texts, read strictly: no trailing commas, no leading zeros, no control
characters in strings, and only four characters count as blank.

A string may spell, by its escapes, half of a surrogate pair without the other half. It is then a
string of the grammar that denotes no text (`string none`).

Values nest. `value depth` reads those that nest less deeply than `depth`; a text nests less deeply
than it is long.
-/

namespace PluralRules

/-- A JSON value. A number is kept as it is spelled. Of a string there is no text if its escapes
denote none. -/
inductive Json where
  | null
  | bool (b : Bool)
  | number (text : List Char)
  | string (text : Option (List Char))
  | array (items : List Json)
  | object (members : List (Option (List Char) × Json))
  deriving Repr

namespace Json

namespace Grammar

/-- The blanks between the parts of a JSON text. -/
def isBlank (c : Char) : Bool := c == ' ' || c == '\n' || c == '\t' || c == '\r'

def skipping (item : Reader α) : Reader α := fun s => item (s.dropWhile isBlank)

/-! ### Strings

A string is first read as UTF-16 code units, because its escapes spell those. -/

/-- One unit of the content of a string: a character that stands for itself or is escaped by a
letter, or a code unit that is escaped by four hexadecimal digits. -/
inductive Piece where
  | char (c : Char)
  | codeUnit (n : Nat)
  deriving Repr

def hexValue? (c : Char) : Option Nat :=
  if '0' ≤ c && c ≤ '9' then some (c.toNat - '0'.toNat)
  else if 'a' ≤ c && c ≤ 'f' then some (c.toNat - 'a'.toNat + 10)
  else if 'A' ≤ c && c ≤ 'F' then some (c.toNat - 'A'.toNat + 10)
  else none

/-- The characters that are escaped by a letter. -/
def shortEscape? : Char → Option Char
  | '"' => some '"'
  | '\\' => some '\\'
  | '/' => some '/'
  | 'b' => some '\x08'
  | 'f' => some '\x0c'
  | 'n' => some '\n'
  | 'r' => some '\r'
  | 't' => some '\t'
  | _ => none

/-- One unit of the content of a string. -/
def piece : Reader Piece
  | '\\' :: 'u' :: a :: b :: c :: d :: rest => do
    let n := 4096 * (← hexValue? a) + 256 * (← hexValue? b) + 16 * (← hexValue? c) + (← hexValue? d)
    some (.codeUnit n, rest)
  | '\\' :: c :: rest => (shortEscape? c).map fun c => (.char c, rest)
  | c :: rest => if c == '"' || c == '\\' || c.toNat < 0x20 then none else some (.char c, rest)
  | [] => none

/-- The text that pieces denote: each escaped code unit is a character, or is half of a surrogate
pair with the other half right after it. -/
def textOf? : List Piece → Option (List Char)
  | [] => some []
  | .char c :: rest => (textOf? rest).map (c :: ·)
  | .codeUnit high :: rest =>
    if high < 0xD800 || 0xDFFF < high then (textOf? rest).map (Char.ofNat high :: ·)
    else
      match rest with
      | .codeUnit low :: rest =>
        if high < 0xDC00 && 0xDC00 ≤ low && low ≤ 0xDFFF then
          (textOf? rest).map
            (Char.ofNat (0x10000 + (high - 0xD800) * 0x400 + (low - 0xDC00)) :: ·)
        else none
      | _ => none

def string : Reader (Option (List Char)) := fun s => do
  let ((), s) ← Reader.char '"' s
  let (pieces, s) := Reader.many piece s
  let ((), s) ← Reader.char '"' s
  some (textOf? pieces, s)

/-! ### Numbers -/

/-- The digits before the point: a zero alone, or digits that do not begin with zero. -/
def wholePart : Reader Unit
  | '0' :: rest => if rest.head?.any Char.isDigit then none else some ((), rest)
  | s => (Reader.run Char.isDigit s).map fun (_, rest) => ((), rest)

/-- A point with digits, if there is a point. -/
def fractionPart : Reader Unit
  | '.' :: rest => (Reader.run Char.isDigit rest).map fun (_, rest) => ((), rest)
  | s => some ((), s)

def exponentPart : Reader Unit
  | mark :: rest =>
    if mark == 'e' || mark == 'E' then
      let rest := match rest with
        | '+' :: more => more
        | '-' :: more => more
        | more => more
      (Reader.run Char.isDigit rest).map fun (_, rest) => ((), rest)
    else some ((), mark :: rest)
  | [] => some ((), [])

def number : Reader (List Char) := fun s => do
  let unsigned := match s with
    | '-' :: rest => rest
    | s => s
  let ((), rest) ← wholePart unsigned
  let ((), rest) ← fractionPart rest
  let ((), rest) ← exponentPart rest
  some (s.take (s.length - rest.length), rest)

/-! ### Values -/

/-- Items between two brackets, with commas between them. -/
def enclosed (opening closing : Char) (item : Reader α) : Reader (List α) := fun s => do
  let ((), s) ← Reader.char opening s
  let next : Reader α := fun s => do
    let ((), s) ← skipping (Reader.char ',') s
    skipping item s
  let (items, s) := match skipping item s with
    | some (first, s) => let (more, s) := Reader.many next s; (first :: more, s)
    | none => ([], s)
  let ((), s) ← skipping (Reader.char closing) s
  some (items, s)

def member (value : Reader Json) : Reader (Option (List Char) × Json) := fun s => do
  let (name, s) ← string s
  let ((), s) ← skipping (Reader.char ':') s
  let (json, s) ← skipping value s
  some ((name, json), s)

/-- A word that stands for a value. -/
def constant (word : String) (json : Json) : Reader Json := fun s =>
  (Reader.literal word.toList s).map fun ((), rest) => (json, rest)

def scalar : Reader Json := fun s =>
  constant "null" .null s <|> constant "true" (.bool true) s <|>
    constant "false" (.bool false) s <|>
    (number s).map (fun (text, rest) => (Json.number text, rest)) <|>
    (string s).map (fun (text, rest) => (Json.string text, rest))

/-- A value that nests less deeply than `depth`. -/
def value : (depth : Nat) → Reader Json
  | 0 => fun _ => none
  | depth + 1 => fun s =>
    scalar s <|>
      (enclosed '[' ']' (value depth) s).map (fun (items, rest) => (Json.array items, rest)) <|>
      (enclosed '{' '}' (member (value depth)) s).map
        (fun (members, rest) => (Json.object members, rest))

end Grammar

/-- The value that a whole text spells, with blanks around it ignored. -/
def ofChars? (s : List Char) : Option Json :=
  match Grammar.skipping (Grammar.value (s.length + 1)) s with
  | some (json, rest) => if rest.all Grammar.isBlank then some json else none
  | none => none

end Json

end PluralRules
