import SymmetricCipher.Backend.Ledger
import SymmetricCipher.Context.Machine
import SymmetricCipher.PasswordKey

/-!
# Contexts

A context holds the settings under which data is encrypted and decrypted. Settings only note the
change: the machine that processes the data is built when the next data comes. A setting that is
refused gives no new context, and so changes nothing.
-/

namespace SymmetricCipher

/-- The machine of a context, and whether its settings still hold. The engine, the machine and the
note that settings have changed could be a field each: `run_fields` in `Proofs/Fields` shows that no
run of calls would take them to any other combination. -/
inductive Machinery where
  /-- None is built. -/
  | absent
  /-- The settings have changed since the machine was built. -/
  | outdated (machine : Machine)
  /-- The machine was built for the settings that hold, and runs on the engine. -/
  | current (engine : Engine) (machine : Machine)

namespace Machinery

/-- Notes that settings have changed. -/
def outdate : Machinery → Machinery
  | current _ machine => outdated machine
  | other => other

/-- Keeps the machine as it is after it has run. -/
def replace : Machinery → Machine → Machinery
  | absent, _ => absent
  | outdated _, machine => outdated machine
  | current engine _, machine => current engine machine

/-- The machine, whether its settings hold or not. -/
def machine? : Machinery → Option Machine
  | absent => none
  | outdated machine | current _ machine => some machine

/-- The ticket of the session that is held, if it has one. -/
def ticket? (machinery : Machinery) : Option Nat := machinery.machine?.bind Machine.ticket?

end Machinery

/-- The settings of a cipher, and what processes its data. -/
structure Context where
  algorithm : Algorithm
  mode : Mode
  /-- The normalized key, once one is set. -/
  key : Option Bytes
  /-- The length in bytes of the key, or of a key to be derived from a password. -/
  keyLength : Nat
  /-- The initialization vector, of one block. -/
  iv : Bytes
  /-- Whether one call continues the stream of the call before it. -/
  continuous : Bool
  /-- Whether data is padded in ECB and CBC. -/
  padding : Bool
  /-- The engine that was asked for. -/
  preferred : Option Engine
  /-- The backends to choose from. -/
  backends : List Backend
  machinery : Machinery
  /-- Whether the next data starts a stream again. -/
  restarting : Bool
  /-- Whether a backend failed in the middle of the stream. -/
  desynchronized : Bool
  /-- The sessions that were opened and closed. -/
  ledger : Ledger

namespace Context

/-- A context without a key, for an algorithm in a mode it runs in. -/
def create (algorithm : Algorithm) (mode : Mode) (backends : List Backend) :
    Except CipherError Context :=
  match algorithm.checkMode mode with
  | .error e => .error e
  | .ok () => .ok {
      algorithm := algorithm
      mode := mode
      key := none
      keyLength := algorithm.defaultKeyLength
      iv := List.replicate algorithm.blockSize 0
      continuous := false
      padding := true
      preferred := none
      backends := backends
      machinery := .absent
      restarting := false
      desynchronized := false
      ledger := [] }

/-- The block size in bytes. -/
def blockSize (c : Context) : Nat := c.algorithm.blockSize

/-- Whether the data of the mode is padded. -/
def pads (c : Context) : Bool := c.mode.isBlockMode && c.padding

/-- Notes that the machine has to be built again. -/
def outdate (c : Context) : Context := { c with machinery := c.machinery.outdate }

/-- Sets the key, in its normalized form, and its length with it. -/
def setKey (c : Context) (key : Bytes) : Except CipherError Context :=
  match c.algorithm.normalizeKey key with
  | .error e => .error e
  | .ok key =>
    .ok { c.outdate with key := some key, keyLength := key.length, desynchronized := false }

/-- Sets the length in bits of a key to be derived from a password. -/
def setKeyLength (c : Context) (bits : Nat) : Except CipherError Context :=
  if bits % 8 = 0 ∧ c.algorithm.acceptsKeyLength (bits / 8) then
    .ok { c with keyLength := bits / 8 }
  else .error (.invalidKeyLength c.algorithm (bits / 8))

/-- Derives the key from a password. -/
def setPassword (c : Context) (password : Bytes) (options : PasswordOptions) :
    Except CipherError Context :=
  match PasswordKey.derive options password (options.keyLength.getD c.keyLength) with
  | .error e => .error e
  | .ok key => c.setKey key

/-- Sets the initialization vector, cut or filled up to a block, and starts the stream again. -/
def setIv (c : Context) (iv : Bytes) : Context :=
  { c with iv := Bytes.fit c.blockSize iv, restarting := true, desynchronized := false }

/-- Sets the mode. -/
def setMode (c : Context) (mode : Mode) : Except CipherError Context :=
  match c.algorithm.checkMode mode with
  | .error e => .error e
  | .ok () => .ok { c.outdate with mode := mode }

/-- Says whether one call continues the stream of the call before it. A lost stream is forgotten
when calls are to stand alone. -/
def setContinuous (c : Context) (on : Bool) : Context :=
  { c.outdate with continuous := on, desynchronized := on && c.desynchronized }

/-- Says whether data is padded in ECB and CBC. -/
def setPadding (c : Context) (on : Bool) : Context := { c with padding := on }

/-- Asks for an engine, or leaves the choice open. -/
def prefer (c : Context) (engine : Option Engine) : Context :=
  { c.outdate with preferred := engine }

/-- Starts the stream again. -/
def reset (c : Context) : Context := { c with restarting := true, desynchronized := false }

/-- The engine in use, if data came since the last change of the settings. -/
def engine? (c : Context) : Option Engine :=
  match c.machinery with
  | .current engine _ => some engine
  | _ => none

/-- The length of the key, or of the key that a password would give. -/
def effectiveKeyLength (c : Context) : Nat :=
  match c.key with
  | some key => key.length
  | none => c.keyLength

/-- Whether an engine could run the mode. -/
def isValidEngine (c : Context) (engine : Engine) : Bool :=
  Selection.isValid c.backends engine c.algorithm c.mode c.effectiveKeyLength

/-- Gives up the machine, and closes the session it holds. -/
def close (c : Context) : Context :=
  { c with machinery := .absent, ledger := c.ledger.noteClosed c.machinery.ticket? }

end Context

end SymmetricCipher
