import SymmetricCipher.CommandLine.Options

/-!
# Arguments

The options as they are written: `--name value`, `--name=value`, `-n value`, `-nvalue` or
`-n=value`. Arguments are read from the left, and the first one that is wrong, or that asks for
help, ends the reading.
-/

namespace SymmetricCipher.Options

/-- Why there are no options to run with. -/
inductive Stop where
  /-- The arguments are wrong. -/
  | refused
  /-- Help is asked for. -/
  | help
  /-- The version is asked for. -/
  | version
  deriving DecidableEq, Repr

/-- How far the arguments are read. -/
structure Reader where
  draft : Draft := {}
  /-- The option that still waits for its value. -/
  pending : Option Field := none
  /-- Whether the mark was read after which there are no options. -/
  ended : Bool := false
  deriving DecidableEq, Repr

namespace Reader

/-- Gives a value to an option. -/
def give (r : Reader) (field : Field) (value : List Char) : Except Stop Reader :=
  match r.draft.set? field (String.ofList value) with
  | none => .error .refused
  | some draft => .ok { r with draft := draft, pending := none }

/-- Turns a switch on. -/
def turnOn (r : Reader) : Switch → Except Stop Reader
  | .help => .error .help
  | .version => .error .version
  | .noPadding =>
    if r.draft.noPadding then .error .refused
    else .ok { r with draft := { r.draft with noPadding := true } }

/-- Reads a long option, without its two hyphens. -/
def readLong (r : Reader) (text : List Char) : Except Stop Reader :=
  let name := String.ofList (text.takeWhile (· != '='))
  match ofLongName? name, text.dropWhile (· != '=') with
  | some (.inl field), _ :: value => r.give field value
  | some (.inl field), [] => .ok { r with pending := some field }
  | some (.inr switch), [] => r.turnOn switch
  | _, _ => .error .refused

/-- Reads short options, without their hyphen. What follows an option that takes a value is the
value. -/
def readShort (r : Reader) : List Char → Except Stop Reader
  | [] => .ok r
  | c :: rest =>
    match ofShortName? c, rest with
    | some (.inl field), [] => .ok { r with pending := some field }
    | some (.inl field), '=' :: value => r.give field value
    | some (.inl field), value => r.give field value
    | some (.inr switch), rest =>
      match r.turnOn switch with
      | .error stop => .error stop
      | .ok r => readShort r rest
    | none, _ => .error .refused

/-- Reads an argument. -/
def read (r : Reader) (argument : String) : Except Stop Reader :=
  if r.ended then .error .refused
  else
    match argument.toList, r.pending with
    | ['-', '-'], _ => .ok { r with ended := true }
    | '-' :: '-' :: text, none => r.readLong text
    | '-' :: c :: text, none => r.readShort (c :: text)
    | '-' :: _ :: _, some _ => .error .refused
    | value, some field => r.give field value
    | _, none => .error .refused

end Reader

/-- Reads the arguments of a run. -/
def ofArguments (arguments : List String) : Except Stop Options :=
  match arguments.foldlM Reader.read ({} : Reader) with
  | .error stop => .error stop
  | .ok r =>
    match r.pending, r.draft.options? with
    | none, some options => .ok options
    | _, _ => .error .refused

end SymmetricCipher.Options
