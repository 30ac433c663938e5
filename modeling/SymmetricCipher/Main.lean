import SymmetricCipher.CommandLine.Run

/-!
# The command line

Encrypts or decrypts a file of hexadecimal text. This module only reads files, hands their text to
the run, writes what comes out and prints errors.
-/

namespace SymmetricCipher.CommandLine

/-- How the command line is used. -/
def usage : String :=
  "Usage: cipher --file FILE --output FILE --operation encrypt|decrypt\n"
    ++ "  -f, --file FILE            input, as hexadecimal text\n"
    ++ "  -o, --output FILE          output\n"
    ++ "  -x, --operation OPERATION  encrypt or decrypt\n"
    ++ "  -k, --key FILE             key, as hexadecimal text\n"
    ++ "  -p, --password TEXT        password to derive the key from\n"
    ++ "      --iv FILE              initialization vector, as hexadecimal text\n"
    ++ "  -a, --algorithm NAME       aes, twofish, des, 3des, 3des-inner-cbc or rc4\n"
    ++ "  -m, --mode NAME            ecb, cbc, ctr, cfb, cfb8, ofb or stream\n"
    ++ "      --no-padding           no padding in ecb and cbc\n"
    ++ "      --chunk-size BYTES     process the input in pieces\n"
    ++ "      --engine NAME          software or accelerated\n"
    ++ "      --log-level TEXT       how much to report\n"
    ++ "  -h, --help                 show this text\n"
    ++ "  -V, --version              show the version"

/-- The version of the command line. -/
def version : String := "cipher 0.1.0"

/-- The reason why the system refuses a file. -/
def fileError : IO.Error → FileError
  | .noFileOrDirectory .. | .noSuchThing .. => .notFound
  | .inappropriateType _ 21 _ => .isDirectory
  | .inappropriateType .. => .notDirectory
  | .invalidArgument .. => .nameTooLong
  | e => .other (toString e)

/-- Reads a file. -/
def readFile (path : String) : IO (Except FileError String) := do
  try
    return .ok (← IO.FS.readFile path)
  catch e =>
    return .error (fileError e)

/-- Writes a file. -/
def writeFile (path text : String) : IO (Except FileError Unit) := do
  try
    IO.FS.writeFile path text
    return .ok ()
  catch e =>
    return .error (fileError e)

/-- Reads the files of a run. -/
def readInputs (o : Options) : IO Options.Files := do
  let texts ← o.inputs.mapM fun path => do
    return (path, ← readFile path)
  return fun path => (texts.lookup path).getD (.error .notFound)

/-- Reports how a run ended, and gives its exit code. -/
def report (outcome : Outcome) : IO UInt32 := do
  match outcome.message? with
  | some message => IO.eprintln message
  | none => pure ()
  return outcome.exitCode.toUInt32

/-- Prints what a run warns of. -/
def warn (warning : Option String) : IO Unit :=
  match warning with
  | some message => IO.eprintln ("Warning: " ++ message)
  | none => pure ()

/-- Runs with the given options. -/
def runOptions (o : Options) : IO UInt32 := do
  let files ← readInputs o
  warn (o.warning? files)
  match o.result files with
  | .error outcome => report outcome
  | .ok data =>
    match ← writeFile o.output (Hex.encode data) with
    | .error e => report (.failed (.unwritable o.output e))
    | .ok () => report .done

end SymmetricCipher.CommandLine

/-- Runs the command line. -/
def main (arguments : List String) : IO UInt32 := do
  match SymmetricCipher.Options.ofArguments arguments with
  | .ok o => SymmetricCipher.CommandLine.runOptions o
  | .error .help =>
    IO.println SymmetricCipher.CommandLine.usage
    return 0
  | .error .version =>
    IO.println SymmetricCipher.CommandLine.version
    return 0
  | .error .refused =>
    IO.eprintln SymmetricCipher.CommandLine.usage
    return 2
