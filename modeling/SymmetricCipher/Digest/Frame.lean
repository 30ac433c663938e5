import SymmetricCipher.Bytes.Word

/-!
# Framing of a message for a hash

A message is closed by a set bit, filled up with null bytes and ends with its length in bits, so
that it makes up whole blocks.
-/

namespace SymmetricCipher.Digest

/-- The message with its closing bit, null bytes and the given length field, in whole blocks. -/
def frame (blockSize : Nat) (lengthField data : Bytes) : Bytes :=
  let used := data.length + 1 + lengthField.length
  data ++ 0x80 :: List.replicate ((blockSize - used % blockSize) % blockSize) 0 ++ lengthField

/-- The length of the data in bits modulo `2 ^ 64`, in eight bytes, most significant byte first. -/
def bitLength64 (data : Bytes) : Bytes := Bytes.ofWord64BE (UInt64.ofNat (data.length * 8))

/-- The length of the data in bits modulo `2 ^ 128`, in sixteen bytes, most significant byte
first. -/
def bitLength128 (data : Bytes) : Bytes :=
  Bytes.ofWord64BE (UInt64.ofNat (data.length * 8 / UInt64.size)) ++ bitLength64 data

end SymmetricCipher.Digest
