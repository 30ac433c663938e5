import SymmetricCipher.Bytes.Word
import SymmetricCipher.Direction
import SymmetricCipher.Error

/-!
# Options

What the command line can be told, and the values it takes.
-/

namespace SymmetricCipher

/-- A run of the command line. -/
structure Options where
  /-- The path of the input. -/
  file : String
  /-- The path of the output. -/
  output : String
  /-- The path of the key. -/
  key : Option String
  /-- The password to derive the key from. -/
  password : Option String
  /-- The path of the initialization vector. -/
  iv : Option String
  algorithm : Algorithm
  mode : Mode
  direction : Direction
  padding : Bool
  /-- The length in bytes of the pieces in which the input is processed. -/
  chunkSize : Option Nat
  /-- The engine to insist on. -/
  engine : Option Engine
  deriving DecidableEq, Repr

namespace Options

/-- The files that a run reads. -/
def inputs (o : Options) : List String := o.file :: (o.key.toList ++ o.iv.toList)

/-- An option that takes a value. -/
inductive Field where
  | file
  | output
  | key
  | password
  | iv
  | algorithm
  | mode
  | operation
  | chunkSize
  | engine
  | logLevel
  deriving DecidableEq, Repr

/-- An option that takes none. -/
inductive Switch where
  | noPadding
  | help
  | version
  deriving DecidableEq, Repr

/-- The option of a long name. -/
def ofLongName? : String → Option (Field ⊕ Switch)
  | "file" => some (.inl .file)
  | "output" => some (.inl .output)
  | "key" => some (.inl .key)
  | "password" => some (.inl .password)
  | "iv" => some (.inl .iv)
  | "algorithm" => some (.inl .algorithm)
  | "mode" => some (.inl .mode)
  | "operation" => some (.inl .operation)
  | "no-padding" => some (.inr .noPadding)
  | "chunk-size" => some (.inl .chunkSize)
  | "engine" => some (.inl .engine)
  | "log-level" => some (.inl .logLevel)
  | "help" => some (.inr .help)
  | "version" => some (.inr .version)
  | _ => none

/-- The option of a short name. -/
def ofShortName? : Char → Option (Field ⊕ Switch)
  | 'f' => some (.inl .file)
  | 'o' => some (.inl .output)
  | 'k' => some (.inl .key)
  | 'p' => some (.inl .password)
  | 'a' => some (.inl .algorithm)
  | 'm' => some (.inl .mode)
  | 'x' => some (.inl .operation)
  | 'h' => some (.inr .help)
  | 'V' => some (.inr .version)
  | _ => none

/-- The value of a list of decimal digits. -/
def digitsValue? (digits : List Char) : Option Nat :=
  digits.foldlM (fun value c => if c.isDigit then some (value * 10 + (c.toNat - 48)) else none) 0

/-- Reads a number of at least one decimal digit, with or without a plus sign before it. It has to
fit into a machine word. -/
def number? (text : String) : Option Nat :=
  let digits := match text.toList with
    | '+' :: rest => rest
    | other => other
  if digits.isEmpty then none
  else (digitsValue? digits).filter fun value => value ≤ Word.max64

/-- Reads the name of a direction, in lower case only. -/
def direction? : String → Option Direction
  | "encrypt" => some .encrypt
  | "decrypt" => some .decrypt
  | _ => none

/-- The options that are given so far. -/
structure Draft where
  file : Option String := none
  output : Option String := none
  key : Option String := none
  password : Option String := none
  iv : Option String := none
  algorithm : Option Algorithm := none
  mode : Option Mode := none
  direction : Option Direction := none
  noPadding : Bool := false
  chunkSize : Option Nat := none
  engine : Option Engine := none
  logLevel : Option String := none
  deriving DecidableEq, Repr

namespace Draft

/-- The first value that is given to an option; a second one is refused. -/
def fill {α : Type} (given value : Option α) : Option (Option α) :=
  match given, value with
  | none, some value => some (some value)
  | _, _ => none

/-- Gives a value to an option. -/
def set? (draft : Draft) (field : Field) (value : String) : Option Draft :=
  match field with
  | .file => (fill draft.file (some value)).map fun v => { draft with file := v }
  | .output => (fill draft.output (some value)).map fun v => { draft with output := v }
  | .key => (fill draft.key (some value)).map fun v => { draft with key := v }
  | .password => (fill draft.password (some value)).map fun v => { draft with password := v }
  | .iv => (fill draft.iv (some value)).map fun v => { draft with iv := v }
  | .algorithm =>
    (fill draft.algorithm (Algorithm.ofName? value)).map fun v => { draft with algorithm := v }
  | .mode => (fill draft.mode (Mode.ofName? value)).map fun v => { draft with mode := v }
  | .operation =>
    (fill draft.direction (direction? value)).map fun v => { draft with direction := v }
  | .chunkSize => (fill draft.chunkSize (number? value)).map fun v => { draft with chunkSize := v }
  | .engine => (fill draft.engine (Engine.ofName? value)).map fun v => { draft with engine := v }
  | .logLevel => (fill draft.logLevel (some value)).map fun v => { draft with logLevel := v }

/-- The run that is asked for, if the input, the output and the operation are given, and not both a
key and a password. -/
def options? (draft : Draft) : Option Options :=
  match draft.file, draft.output, draft.direction with
  | some file, some output, some direction =>
    if draft.key.isSome && draft.password.isSome then none
    else some {
      file := file
      output := output
      key := draft.key
      password := draft.password
      iv := draft.iv
      algorithm := draft.algorithm.getD .aes
      mode := draft.mode.getD .cbc
      direction := direction
      padding := !draft.noPadding
      chunkSize := draft.chunkSize
      engine := draft.engine }
  | _, _, _ => none

end Draft

end Options

end SymmetricCipher
