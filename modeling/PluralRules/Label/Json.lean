import PluralRules.Json.Text
import PluralRules.Json.Value
import PluralRules.Label.Basic

/-!
# Labels as JSON

A label is written as an object of its five parts, in the order of the structure. It is read from an
object in which the parts come in any order: the three texts have to be there, the type and the mark
of being required may be missing or null, a part given twice is an error, and members of other names
are ignored. A label may also be read from the array of its five parts in order, and a type from an
object whose only member has the name of the type and the value null.
-/

namespace PluralRules

namespace Label

/-- The names of the parts, in order. -/
def partNames : List String := ["rule_set", "rule_type", "culture", "case", "required"]

def orNull (text : Option (List Char)) : List Char := text.getD "null".toList

def toJson (label : Label) : String :=
  String.ofList <| Json.objectText
    [("rule_set", Json.stringText label.ruleSet),
     ("rule_type", orNull (label.type.map fun type => Json.stringText type.name)),
     ("culture", Json.stringText label.culture),
     ("case", Json.stringText label.case),
     ("required", orNull (label.required.map fun b => (truthName b).toList))]

def text? : Json → Option String
  | .string (some text) => some (String.ofList text)
  | _ => none

/-- The type of a given name, which has to be spelled exactly. -/
def namedType? (name : Option (List Char)) : Option PluralType :=
  name.bind fun name => PluralType.ofName? (String.ofList name)

def type? : Json → Option (Option PluralType)
  | .null => some none
  | .string name => (namedType? name).map some
  | .object [(name, .null)] => (namedType? name).map some
  | _ => none

def truth? : Json → Option (Option Bool)
  | .null => some none
  | .bool b => some (some b)
  | _ => none

/-- A label from its parts, of which the type and the mark may be missing. -/
def ofParts? (ruleSet type culture case required : Option Json) : Option Label := do
  some {
    ruleSet := ← text? (← ruleSet)
    type := ← type? (type.getD .null)
    culture := ← text? (← culture)
    case := ← text? (← case)
    required := ← truth? (required.getD .null) }

def ofValue? : Json → Option Label
  | .object members => do
    let names ← members.mapM fun (name, _) => name.map String.ofList
    let named := names.zip (members.map Prod.snd)
    if partNames.any fun part => 1 < names.count part then none
    else
      let part (name : String) := named.lookup name
      ofParts? (part "rule_set") (part "rule_type") (part "culture") (part "case") (part "required")
  | .array [ruleSet, type, culture, case, required] =>
    ofParts? (some ruleSet) (some type) (some culture) (some case) (some required)
  | _ => none

/-- The label that a JSON text spells. -/
def ofJson? (s : String) : Option Label := (Json.ofChars? s.toList).bind ofValue?

end Label

end PluralRules
