import PluralRules.Text.Blank
import PluralRules.Text.Case

/-!
# Cultures

A culture is named by a language tag: subtags joined by hyphens, of which the first is the language,
followed by a script, a region and any number of variants, each of which may be missing. What a
subtag is follows from its place, its length and its characters. One culture has many spellings, and
`Culture.canonical` chooses one of them: the language and the variants in lower case, the script in
title case, the region in upper case, and the variants in ascending order.

The root culture stands above all languages. It is spelled by the empty text, by `root`, and by the
language `und` alone, and its canonical name is the empty text. A text that is no language tag is a
culture of its own, under its own spelling.
-/

namespace PluralRules

structure LanguageTag where
  language : List Char
  script : Option (List Char)
  region : Option (List Char)
  variants : List (List Char)
  deriving DecidableEq, Repr

namespace LanguageTag

def isLanguage (s : List Char) : Bool := (s.length == 2 || s.length == 3) && s.all Char.isAlpha

def isScript (s : List Char) : Bool := s.length == 4 && s.all Char.isAlpha

def isRegion (s : List Char) : Bool :=
  (s.length == 2 && s.all Char.isAlpha) || (s.length == 3 && s.all Char.isDigit)

/-- Five to eight letters and digits, or four that begin with a digit. -/
def isVariant (s : List Char) : Bool :=
  s.all Char.isAlphanum &&
    ((5 ≤ s.length && s.length ≤ 8) || (s.length == 4 && (s.head?.any Char.isDigit)))

def titleCase : List Char → List Char
  | [] => []
  | c :: rest => c.toUpper :: Text.foldCase rest

/-- The first subtag in canonical spelling and the subtags after it, if the first fits a place. -/
def takeIf (fits : List Char → Bool) (spell : List Char → List Char) (subtags : List (List Char)) :
    Option (List Char) × List (List Char) :=
  match subtags with
  | first :: more => if fits first then (some (spell first), more) else (none, subtags)
  | [] => (none, [])

/-- Read the subtags of a language tag. There is no tag if one of them fits no place or if a variant
occurs twice. -/
def ofSubtags? : List (List Char) → Option LanguageTag
  | [] => none
  | first :: more =>
    if !isLanguage first then none else
      let (script, more) := takeIf isScript titleCase more
      let (region, more) := takeIf isRegion (·.map Char.toUpper) more
      let variants := more.map Text.foldCase
      if more.all isVariant && variants.eraseDups.length == variants.length then
        some ⟨Text.foldCase first, script, region, variants.mergeSort fun s t =>
          (Ord.compare s t).isLE⟩
      else none

def ofChars? (s : List Char) : Option LanguageTag := ofSubtags? (s.splitOn '-')

def subtags (tag : LanguageTag) : List (List Char) :=
  tag.language :: tag.script.toList ++ tag.region.toList ++ tag.variants

def chars (tag : LanguageTag) : List Char := ['-'].intercalate tag.subtags

end LanguageTag

namespace Culture

/-- The texts that name the root culture, apart from the empty one. -/
def isRootName (s : List Char) : Bool := Text.sameFolded s "root".toList

def canonicalChars (s : List Char) : List Char :=
  let name := Text.trim s
  if name.isEmpty || isRootName name then []
  else
    match LanguageTag.ofChars? name with
    | none => name
    | some tag => if tag.chars == "und".toList then [] else tag.chars

/-- The canonical spelling of a culture. -/
def canonical (culture : String) : String := String.ofList (canonicalChars culture.toList)

end Culture

end PluralRules
