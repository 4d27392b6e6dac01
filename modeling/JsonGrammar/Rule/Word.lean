import JsonGrammar.Json.Value
import JsonGrammar.Parser.Characters

/-!
# The words of JSON

The literals `null`, `true` and `false`.
-/

namespace JsonGrammar

namespace Rule

open JsonGrammar.Parser

/-- The word `null`. -/
def null : Parser Json :=
  (literal "null").map fun _ => .null

/-- One of the two truth values.  Where neither stands the failure is that of
`false`, which is tried last. -/
def boolean : Parser Json :=
  ((literal "true").map fun _ => .bool true).orElse
    ((literal "false").map fun _ => .bool false)

end Rule

end JsonGrammar
