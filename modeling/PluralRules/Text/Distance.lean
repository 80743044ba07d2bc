/-!
# Edit distance

The least number of insertions, deletions and substitutions of single characters that turn one text
into another.

`distancesFrom a b` lists the distances from `a` to every suffix of `b`, the longest first and the
empty one last. Putting a character in front of `a` gives the next such list from the one before
(`stretch`), so the table of all pairs of suffixes is built row by row.
-/

namespace PluralRules.Text

/-- From the distances between `a` and the suffixes of `b`, those between `c :: a` and the same
suffixes: either `c` is deleted, or the first character of the suffix is inserted, or the two
meet. -/
def stretch (c : Char) : List Char → List Nat → List Nat
  | d :: b, here :: below =>
    let shorter := stretch c b below
    let meet := below.headD 0 + if c = d then 0 else 1
    min meet (min here (shorter.headD 0) + 1) :: shorter
  | _, row => row.map (· + 1)

/-- The distances from the empty text to every suffix of `b`: the lengths of the suffixes. -/
def suffixLengths : List Char → List Nat
  | [] => [0]
  | _ :: b => (b.length + 1) :: suffixLengths b

/-- The distances from `a` to every suffix of `b`. -/
def distancesFrom (a b : List Char) : List Nat :=
  a.foldr (fun c row => stretch c b row) (suffixLengths b)

/-- The edit distance between two texts. -/
def distance (a b : List Char) : Nat := (distancesFrom a b).headD 0

end PluralRules.Text
