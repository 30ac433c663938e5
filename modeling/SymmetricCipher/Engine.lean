/-!
# Engines

Data is processed either by the ciphers of this library or by a backend that accelerates them.
-/

namespace SymmetricCipher

/-- What computes the data. -/
inductive Engine where
  /-- The ciphers of this library. -/
  | software
  /-- A registered backend. -/
  | accelerated
  deriving DecidableEq, Repr

namespace Engine

/-- The name of an engine. -/
def name : Engine → String
  | software => "software"
  | accelerated => "accelerated"

/-- The engine with the given name in any mixture of ASCII upper and lower case. -/
def ofName? (text : String) : Option Engine :=
  [software, accelerated].find? (·.name == text.toLower)

end Engine

end SymmetricCipher
