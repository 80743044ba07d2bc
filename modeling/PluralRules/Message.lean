/-!
# Parts of messages
-/

namespace PluralRules

/-- A text between single quotes, as messages cite what they are about. -/
def quoted (text : String) : String := "'" ++ text ++ "'"

end PluralRules
