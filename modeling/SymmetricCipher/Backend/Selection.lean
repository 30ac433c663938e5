import SymmetricCipher.Backend.Basic

/-!
# Selection of an engine

Of the registered backends, in their order, the first one that offers the mode or single blocks is
taken. The stream cipher and the layered Triple DES always run in software.
-/

namespace SymmetricCipher

/-- The outcome of a selection. -/
inductive Selection where
  | software
  /-- A backend, and whether its single blocks have to stand in for a mode it lacks. -/
  | accelerated (backend : Backend) (emulate : Bool)

namespace Selection

/-- The engine that was selected. -/
def engine : Selection → Engine
  | software => .software
  | accelerated _ _ => .accelerated

/-- What a backend can do for a mode, if it can do anything: run it, or give single blocks. -/
def offer? (algorithm : Algorithm) (mode : Mode) (keyLength : Nat) (backend : Backend) :
    Option Selection :=
  if backend.isAvailable algorithm mode keyLength then some (.accelerated backend false)
  else if backend.supportsRawBlock algorithm keyLength then some (.accelerated backend true)
  else none

/-- The first offer of the backends, unless the mode runs in software anyway. -/
def accelerated? (backends : List Backend) (algorithm : Algorithm) (mode : Mode)
    (keyLength : Nat) : Option Selection :=
  if !algorithm.supports mode || mode == .stream || algorithm == .tripleDesInnerCbc then none
  else backends.findSome? (offer? algorithm mode keyLength)

/-- Selects an engine for a normalized key of the given length. Software is taken if it is preferred
or if no backend has an offer. -/
def select (backends : List Backend) (algorithm : Algorithm) (mode : Mode) (keyLength : Nat)
    (preferred : Option Engine) : Selection :=
  match preferred with
  | some .software => .software
  | _ => (accelerated? backends algorithm mode keyLength).getD .software

/-- Whether an engine could run the mode. -/
def isValid (backends : List Backend) (engine : Engine) (algorithm : Algorithm) (mode : Mode)
    (keyLength : Nat) : Bool :=
  match engine with
  | .software => algorithm.supports mode
  | .accelerated => (accelerated? backends algorithm mode keyLength).isSome

end Selection

end SymmetricCipher
