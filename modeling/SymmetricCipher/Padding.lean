import SymmetricCipher.Bytes.Basic
import SymmetricCipher.Error

/-!
# Padding

Data is filled up to whole blocks by bytes that each hold the number of bytes added, as in PKCS#7.
At least one byte is added, so that the last byte of padded data always tells how many to take off.
-/

namespace SymmetricCipher.Padding

/-- Fills the data up to the next multiple of the block size, by a whole block if it is one already.
Each added byte holds the low eight bits of their number. -/
def add (blockSize : Nat) (data : Bytes) : Bytes :=
  let count := blockSize - data.length % blockSize
  data ++ List.replicate count (UInt8.ofNat count)

/-- Takes the padding off again. Only the last byte is looked at; it is refused if it is zero, or
counts more than a block or more than the data. -/
def remove (blockSize : Nat) (data : Bytes) : Except CipherError Bytes :=
  match data.getLast? with
  | none => .error .invalidPadding
  | some last =>
    let count := last.toNat
    if count = 0 ∨ blockSize < count ∨ data.length < count then .error .invalidPadding
    else .ok (data.take (data.length - count))

end SymmetricCipher.Padding
