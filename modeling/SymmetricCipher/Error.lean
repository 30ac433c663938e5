import SymmetricCipher.Algorithm
import SymmetricCipher.Engine

/-!
# Errors

Everything that can go wrong with a cipher, and the wording of each error.
-/

namespace SymmetricCipher

/-- Why a cipher operation is refused. -/
inductive CipherError where
  /-- A key of this length does not fit the algorithm. -/
  | invalidKeyLength (algorithm : Algorithm) (length : Nat)
  /-- A block mode was given data that does not end with a whole block. -/
  | misalignedInput (length blockSize : Nat)
  /-- The last plaintext byte counts no padding: most often a wrong key or damaged ciphertext. -/
  | invalidPadding
  /-- A backend gave up. -/
  | backendFailed (backend reason : String)
  /-- The algorithm does not run in the mode. -/
  | unsupportedMode (algorithm : Algorithm) (mode : Mode)
  /-- STREAM mode was asked of a block cipher. -/
  | streamModeOnBlockCipher
  /-- Data came before any key. -/
  | keyNotSet
  /-- A backend gave up in the middle of a continuous stream, whose position is lost since. -/
  | streamDesynchronized
  /-- No hash goes by this name. -/
  | unsupportedHash (name : String)
  /-- More key bytes are asked for than the derivation method can give. -/
  | derivedKeyTooLong (requested max : Nat)
  /-- A key derivation was asked to iterate zero times. -/
  | invalidIterationCount
  /-- No mode goes by this name. -/
  | unknownMode (name : String)
  /-- No algorithm goes by this name. -/
  | unknownAlgorithm (name : String)
  /-- No engine goes by this name. -/
  | unknownEngine (name : String)
  deriving DecidableEq, Repr

/-- The wording of an error. -/
def CipherError.message : CipherError → String
  | invalidKeyLength algorithm length =>
    "Invalid key length: " ++ Nat.repr length ++ " bytes is not accepted by " ++ algorithm.name
  | misalignedInput length blockSize =>
    "Input length " ++ Nat.repr length ++ " is not a multiple of the " ++ Nat.repr blockSize
      ++ "-byte block size"
  | invalidPadding => "Invalid padding"
  | backendFailed backend reason => "Backend " ++ backend ++ " failed: " ++ reason
  | unsupportedMode algorithm mode =>
    "Mode " ++ mode.name ++ " is not supported by " ++ algorithm.name
  | streamModeOnBlockCipher => "Stream mode needs a keystream primitive, not a block cipher"
  | keyNotSet => "No key has been set"
  | streamDesynchronized =>
    "Stream state is desynchronized; reset the IV before continuing"
  | unsupportedHash name => "Unsupported hash algorithm: " ++ name
  | derivedKeyTooLong requested max =>
    "Derived key too long: " ++ Nat.repr requested ++ " bytes requested, at most " ++ Nat.repr max
      ++ " available"
  | invalidIterationCount => "Iteration count must be at least 1"
  | unknownMode name => "Unknown cipher mode: " ++ name
  | unknownAlgorithm name => "Unknown algorithm: " ++ name
  | unknownEngine name => "Unknown engine: " ++ name

/-- Whether a backend gave up, as against data or settings being refused. -/
def CipherError.isBackendFailure : CipherError → Bool
  | backendFailed .. => true
  | _ => false

namespace Mode

/-- Reads the name of a mode. -/
def ofName (text : String) : Except CipherError Mode :=
  match ofName? text with
  | some mode => .ok mode
  | none => .error (.unknownMode text)

end Mode

namespace Engine

/-- Reads the name of an engine. -/
def ofName (text : String) : Except CipherError Engine :=
  match ofName? text with
  | some engine => .ok engine
  | none => .error (.unknownEngine text)

end Engine

namespace Algorithm

/-- Reads the name of an algorithm. -/
def ofName (text : String) : Except CipherError Algorithm :=
  match ofName? text with
  | some algorithm => .ok algorithm
  | none => .error (.unknownAlgorithm text)

/-- Refuses a mode that the algorithm does not run in. -/
def checkMode (algorithm : Algorithm) (mode : Mode) : Except CipherError Unit :=
  if algorithm.supports mode then .ok () else .error (.unsupportedMode algorithm mode)

end Algorithm

end SymmetricCipher
