import SymmetricCipher.CommandLine.Arguments
import SymmetricCipher.CommandLine.Directory
import SymmetricCipher.Context.Pieces
import SymmetricCipher.Text.Hex

/-!
# Runs of the command line

A run reads the input, the key and the initialization vector as hexadecimal text, processes the
input, at once or in pieces, and writes the output as hexadecimal text. Nothing is written before
everything is processed.
-/

namespace SymmetricCipher

/-- Why a run fails. -/
inductive RunError where
  /-- A file cannot be read. -/
  | unreadable (path : String) (e : FileError)
  /-- A file does not hold hexadecimal text. -/
  | notHex (path : String) (e : HexError)
  /-- The algorithm does not run in the mode. -/
  | unusable (mode : Mode) (algorithm : Algorithm) (e : CipherError)
  /-- The key is refused. -/
  | keyRejected (e : CipherError)
  /-- The password gives no key. -/
  | derivationFailed (e : CipherError)
  /-- Neither a key nor a password is given. -/
  | noKey
  /-- The engine that is insisted on cannot run the mode. -/
  | engineUnavailable (engine : Engine) (algorithm : Algorithm) (mode : Mode)
  /-- The data is refused. -/
  | failed (direction : Direction) (e : CipherError)
  /-- The output cannot be written. -/
  | unwritable (path : String) (e : FileError)
  deriving DecidableEq, Repr

namespace RunError

/-- What was tried when the error arose. -/
def headline : RunError → String
  | unreadable path _ => "failed to read " ++ path
  | notHex path _ => path ++ " does not contain valid hex"
  | unusable mode algorithm _ => "cannot use " ++ mode.name ++ " with " ++ algorithm.name
  | keyRejected _ => "key rejected"
  | derivationFailed _ => "key derivation failed"
  | noKey => "either --key or --password is required"
  | engineUnavailable engine algorithm mode =>
    "engine " ++ engine.name ++ " is not available for " ++ algorithm.name ++ "/" ++ mode.name
  | failed .encrypt _ => "Encrypt failed"
  | failed .decrypt _ => "Decrypt failed"
  | unwritable path _ => "failed to write " ++ path

/-- Why it went wrong, where there is more to say. -/
def cause? : RunError → Option String
  | unreadable _ e | unwritable _ e => some e.message
  | notHex _ e => some e.message
  | unusable _ _ e | keyRejected e | derivationFailed e | failed _ e => some e.message
  | noKey | engineUnavailable .. => none

/-- The wording of an error, with its cause. -/
def message (e : RunError) : String :=
  match e.cause? with
  | none => "Error: " ++ e.headline
  | some cause => "Error: " ++ e.headline ++ "\n\nCaused by:\n    " ++ cause

end RunError

/-- How a run ends. -/
inductive Outcome where
  /-- The output is written. -/
  | done
  /-- Help or the version is shown. -/
  | shown
  /-- The arguments are wrong. -/
  | misused
  | failed (e : RunError)
  /-- The length of a piece exceeds what the machine can count. -/
  | overflowed
  deriving DecidableEq, Repr

namespace Outcome

/-- The exit code of a run. -/
def exitCode : Outcome → Nat
  | done | shown => 0
  | failed _ => 1
  | misused => 2
  | overflowed => 101

/-- The error that a run reports. -/
def message? : Outcome → Option String
  | failed e => some e.message
  | _ => none

end Outcome

namespace Options

/-- The texts of files, by their paths. -/
abbrev Files := String → Except FileError String

/-- Reads the bytes that a file spells. -/
def readBytes (files : Files) (path : String) : Except RunError Bytes :=
  match files path with
  | .error e => .error (.unreadable path e)
  | .ok text => (Hex.decode text).mapError (.notHex path)

/-- Sets the key, or derives it from the password. -/
def keyed (o : Options) (files : Files) (c : Context) : Except RunError Context :=
  match o.key, o.password with
  | some path, _ => do
    let key ← readBytes files path
    (c.setKey key).mapError .keyRejected
  | none, some password =>
    (c.setPassword password.toUTF8.toList {}).mapError .derivationFailed
  | none, none => .error .noKey

/-- Sets the initialization vector, if one is given. -/
def withIv (o : Options) (files : Files) (c : Context) : Except RunError Context :=
  match o.iv with
  | none => .ok c
  | some path => do
    let iv ← readBytes files path
    return c.setIv iv

/-- Insists on the engine, if one is given. -/
def withEngine (o : Options) (c : Context) : Except RunError Context :=
  match o.engine with
  | none => .ok c
  | some engine =>
    if c.isValidEngine engine then .ok (c.prefer engine)
    else .error (.engineUnavailable engine o.algorithm o.mode)

/-- The context that the options name, with its key, over the built-in backend with its suite of
ciphers. -/
def keyedContext (o : Options) (files : Files) (suite : Provider.Suite := .standard) :
    Except RunError Context := do
  let c ← (Context.create o.algorithm o.mode [.provider suite]).mapError
    (.unusable o.mode o.algorithm)
  o.keyed files c

/-- What a run warns of, once the input is read and the key is set: that the mode does not use the
initialization vector which is given. The run goes on. -/
def warning? (o : Options) (files : Files) (suite : Provider.Suite := .standard) : Option String :=
  match readBytes files o.file, o.keyedContext files suite with
  | .ok _, .ok _ =>
    if o.iv.isSome && !o.mode.usesIv then some "the IV is ignored in this mode" else none
  | _, _ => none

/-- The context that the options describe. -/
def context (o : Options) (files : Files) (suite : Provider.Suite := .standard) :
    Except RunError Context := do
  let c ← o.keyedContext files suite
  let c ← o.withIv files c
  let c := if o.padding then c else c.setPadding false
  let c := if o.chunkSize.isSome then c.setContinuous true else c
  o.withEngine c

/-- What a run gives: its output, or how it ends without one. -/
def result (o : Options) (files : Files) (suite : Provider.Suite := .standard) :
    Except Outcome Bytes := do
  let input ← (readBytes files o.file).mapError .failed
  let c ← (o.context files suite).mapError .failed
  match c.pieceLength? o.chunkSize input.length with
  | none => .error .overflowed
  | some length =>
    (c.processPieces o.direction c.padding (Bytes.pieces length input)).mapError fun e =>
      .failed (.failed o.direction e)

/-- Runs in a directory. -/
def runIn (o : Options) (d : Directory) (suite : Provider.Suite := .standard) :
    Outcome × Directory :=
  match o.result d.read suite with
  | .error outcome => (outcome, d)
  | .ok data =>
    match d.write o.output (Hex.encode data) with
    | .error e => (.failed (.unwritable o.output e), d)
    | .ok d => (.done, d)

end Options

/-- Runs the command line in a directory. -/
def runArguments (arguments : List String) (d : Directory) (suite : Provider.Suite := .standard) :
    Outcome × Directory :=
  match Options.ofArguments arguments with
  | .error .refused => (.misused, d)
  | .error .help | .error .version => (.shown, d)
  | .ok o => o.runIn d suite

end SymmetricCipher
