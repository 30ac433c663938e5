/-!
# Directories

The working directory of the command line, as far as it matters: a flat set of text files. A path
is followed piece by piece; one that leaves the working directory leads nowhere.

This assumes more than a system promises. There are no subdirectories and no links, and no file
outside of the working directory: an absolute path, or one through `..`, is refused though a system
may have a file there. Every file holds text. A file is written as a whole or not at all: no disk is
full and no write breaks off half way. What is proved of runs of the command line is proved under
these assumptions.
-/

namespace SymmetricCipher

/-- Why the system refuses a file. -/
inductive FileError where
  | notFound
  | notDirectory
  | isDirectory
  | nameTooLong
  /-- Any other reason, in the words of the system. -/
  | other (reason : String)
  deriving DecidableEq, Repr

/-- The wording of an error. -/
def FileError.message : FileError → String
  | notFound => "No such file or directory (os error 2)"
  | notDirectory => "Not a directory (os error 20)"
  | isDirectory => "Is a directory (os error 21)"
  | nameTooLong => "File name too long (os error 36)"
  | other reason => reason

/-- The text of each file in the working directory, by its name. -/
structure Directory where
  text? : String → Option String

namespace Directory

/-- The directory that holds the listed files. -/
def ofFiles (files : List (String × String)) : Directory := ⟨fun name => files.lookup name⟩

/-- The directory after a file was written. -/
def put (d : Directory) (name text : String) : Directory :=
  ⟨fun other => if other = name then some text else d.text? other⟩

/-- How many bytes of UTF-8 a name may have. -/
def maxNameBytes : Nat := 255

/-- How many bytes of UTF-8 a path may have. -/
def maxPathBytes : Nat := 4095

/-- Where a path leads. -/
inductive Place where
  /-- The working directory itself. -/
  | folder
  /-- A directory outside of it. -/
  | outside
  /-- A file of the given name and text. -/
  | file (name text : String)
  /-- A name in the working directory that no file has. -/
  | vacant (name : String)
  /-- A name that neither is nor can be one of a file in the working directory, for the given
  reason. -/
  | barred (reason : FileError)
  /-- Any such name, but with a slash behind it; it cannot be read for the given reason. -/
  | slashed (reason : FileError)
  /-- Nothing, for the given reason. -/
  | nowhere (reason : FileError)
  deriving DecidableEq, Repr

/-- Goes on from a name that is no directory, for the given reason. Only slashes may follow it. -/
def leave (reason : FileError) (piece : String) : Place :=
  if piece = "" then .slashed reason else .nowhere reason

/-- The place of a name in the working directory. -/
def entry (d : Directory) (name : String) : Place :=
  if maxNameBytes < name.utf8ByteSize then .barred .nameTooLong
  else
    match d.text? name with
    | some text => .file name text
    | none => .vacant name

/-- The place of a name outside of the working directory. -/
def foreignEntry (name : String) : Place :=
  .barred (if maxNameBytes < name.utf8ByteSize then .nameTooLong else .notFound)

/-- Goes one step along a path, by its next piece. -/
def enter (d : Directory) (place : Place) (piece : String) : Place :=
  match place with
  | .folder =>
    if piece = "" ∨ piece = "." then .folder
    else if piece = ".." then .outside
    else d.entry piece
  | .outside =>
    if piece = "" ∨ piece = "." ∨ piece = ".." then .outside else foreignEntry piece
  | .file _ _ => leave .notDirectory piece
  | .vacant _ => leave .notFound piece
  | .barred reason | .slashed reason => leave reason piece
  | .nowhere reason => .nowhere reason

/-- The pieces of a path, between its slashes. -/
def pieces : List Char → List (List Char)
  | [] => [[]]
  | c :: cs =>
    if c = '/' then [] :: pieces cs
    else
      match pieces cs with
      | [] => [[c]]
      | piece :: rest => (c :: piece) :: rest

/-- Where a path leads from the working directory. A path that starts with a slash leads out of
it, where no file is assumed to be, and the empty path leads nowhere, as does one that is too
long. -/
def place (d : Directory) (path : String) : Place :=
  if maxPathBytes < path.utf8ByteSize then .nowhere .nameTooLong
  else
    match (pieces path.toList).map String.ofList with
    | [] | [""] => .nowhere .notFound
    | "" :: steps => steps.foldl d.enter .outside
    | steps => steps.foldl d.enter .folder

/-- Reads a file. -/
def read (d : Directory) (path : String) : Except FileError String :=
  match d.place path with
  | .file _ text => .ok text
  | .folder | .outside => .error .isDirectory
  | .vacant _ => .error .notFound
  | .barred reason | .slashed reason | .nowhere reason => .error reason

/-- Writes a file, in place of one that is there or as a new one. The text is assumed to be written
as a whole. -/
def write (d : Directory) (path text : String) : Except FileError Directory :=
  match d.place path with
  | .file name _ | .vacant name => .ok (d.put name text)
  | .folder | .outside | .slashed _ => .error .isDirectory
  | .barred reason | .nowhere reason => .error reason

end Directory

end SymmetricCipher
