import SymmetricCipher.Bytes.Word
import SymmetricCipher.Context.Process

/-!
# Processing in pieces

A long input is cut into pieces that are processed as one stream. In ECB and CBC the pieces are
whole blocks, and only the last one is padded, so that the output does not depend on the cut.
-/

namespace SymmetricCipher.Context

/-- The least multiple of the block size that is no less than a number. -/
def roundUp (blockSize n : Nat) : Nat := (n + blockSize - 1) / blockSize * blockSize

/-- The length of the pieces for an input of the given length: all of it, or as asked for, but at
least one byte. In ECB and CBC it is rounded up to whole blocks, and may then exceed what a machine
word holds. -/
def pieceLength? (c : Context) (requested : Option Nat) (inputLength : Nat) : Option Nat :=
  match requested with
  | none => some (max inputLength 1)
  | some n =>
    if c.mode.isBlockMode then
      let length := roundUp c.blockSize (max n 1)
      if length ≤ Word.max64 then some length else none
    else some (max n 1)

/-- Processes pieces one after the other. Only the last one is padded; no piece at all counts as an
empty one. -/
def processPieces (c : Context) (direction : Direction) (padded : Bool) :
    List Bytes → Except CipherError Bytes
  | [] => ((c.setPadding padded).process direction []).1
  | [last] => ((c.setPadding padded).process direction last).1
  | piece :: rest =>
    match (c.setPadding false).process direction piece with
    | (.error e, _) => .error e
    | (.ok out, c) => (c.processPieces direction padded rest).map (out ++ ·)

end SymmetricCipher.Context
