import PluralRules.Text.Case

/-!
# Plural categories and types

The standard names of plural cases, and the two ways of counting. A rule may define cases of other
names as well, so a case is a plain text everywhere else.
-/

namespace PluralRules

inductive Category where
  | zero | one | two | few | many | other
  deriving DecidableEq, Repr

namespace Category

def all : List Category := [zero, one, two, few, many, other]

def name : Category → String
  | zero => "zero"
  | one => "one"
  | two => "two"
  | few => "few"
  | many => "many"
  | other => "other"

def ofName? (name : String) : Option Category := all.find? fun category => category.name == name

def index (category : Category) : Nat := all.idxOf category

end Category

/-- What a number counts: how many there are, or which one it is in a row. -/
inductive PluralType where
  | cardinal | ordinal
  deriving DecidableEq, Repr

namespace PluralType

def all : List PluralType := [cardinal, ordinal]

def name : PluralType → String
  | cardinal => "cardinal"
  | ordinal => "ordinal"

/-- The type of a given name, in this spelling only. -/
def ofName? (name : String) : Option PluralType := all.find? fun type => type.name == name

/-- The type of a given name, in any letter case. -/
def ofKeyword? (word : String) : Option PluralType :=
  all.find? fun type => Text.sameFolded type.name.toList word.toList

end PluralType

end PluralRules
