import SymmetricCipher.Backend.Selection
import SymmetricCipher.Text.Quoted

/-!
# Summaries of backends

One line of text that shows which backends are registered and which one was selected.
-/

namespace SymmetricCipher

namespace Backend

/-- The name of a backend, quoted. -/
def quotedName (backend : Backend) : String := Quoted.quote Quoted.double backend.name.toList

/-- The names of backends in their order. -/
def summary (backends : List Backend) : String :=
  "[" ++ ", ".intercalate (backends.map quotedName) ++ "]"

end Backend

/-- The backend that was selected, and whether it stands in for a mode it lacks. -/
def Selection.summary : Selection → String
  | software => "Software"
  | accelerated backend emulate =>
    "Accelerated \x7b backend: " ++ backend.quotedName ++ ", emulate: " ++ toString emulate
      ++ " \x7d"

end SymmetricCipher
