import SymmetricCipher.Bytes.Basic

/-!
# Machine words in bytes

Words of 32 and 64 bits, their rotations, and their spelling in bytes in both orders.
-/

namespace SymmetricCipher

namespace Word

/-- The greatest number that a 64-bit word holds. -/
def max64 : Nat := UInt64.size - 1

/-- Rotates a 32-bit word to the left by `n` bits, `0 < n < 32`. -/
@[inline] def rotateLeft32 (x n : UInt32) : UInt32 := (x <<< n) ||| (x >>> (32 - n))

/-- Rotates a 32-bit word to the right by `n` bits, `0 < n < 32`. -/
@[inline] def rotateRight32 (x n : UInt32) : UInt32 := (x >>> n) ||| (x <<< (32 - n))

/-- Rotates a 64-bit word to the right by `n` bits, `0 < n < 64`. -/
@[inline] def rotateRight64 (x n : UInt64) : UInt64 := (x >>> n) ||| (x <<< (64 - n))

end Word

namespace Bytes

/-- The 32-bit word of four bytes, least significant byte first. -/
def word32LE (b0 b1 b2 b3 : UInt8) : UInt32 :=
  b0.toUInt32 ||| (b1.toUInt32 <<< 8) ||| (b2.toUInt32 <<< 16) ||| (b3.toUInt32 <<< 24)

/-- The words of a byte string, four bytes each, least significant byte first. -/
def words32LE : Bytes → List UInt32
  | b0 :: b1 :: b2 :: b3 :: rest => word32LE b0 b1 b2 b3 :: words32LE rest
  | _ => []

/-- The words of a byte string, four bytes each, most significant byte first. -/
def words32BE : Bytes → List UInt32
  | b0 :: b1 :: b2 :: b3 :: rest => word32LE b3 b2 b1 b0 :: words32BE rest
  | _ => []

/-- The four bytes of a word, least significant byte first. -/
def ofWord32LE (w : UInt32) : Bytes :=
  [w.toUInt8, (w >>> 8).toUInt8, (w >>> 16).toUInt8, (w >>> 24).toUInt8]

/-- The four bytes of a word, most significant byte first. -/
def ofWord32BE (w : UInt32) : Bytes :=
  [(w >>> 24).toUInt8, (w >>> 16).toUInt8, (w >>> 8).toUInt8, w.toUInt8]

/-- The 64-bit word that a byte string spells, most significant byte first. -/
def toWord64BE (bytes : Bytes) : UInt64 :=
  bytes.foldl (fun word byte => (word <<< 8) ||| byte.toUInt64) 0

/-- The words of a byte string, eight bytes each, most significant byte first. -/
def words64BE (bytes : Bytes) : List UInt64 := (wholeBlocks 8 bytes).map toWord64BE

/-- The eight bytes of a word, most significant byte first. -/
def ofWord64BE (w : UInt64) : Bytes :=
  [(w >>> 56).toUInt8, (w >>> 48).toUInt8, (w >>> 40).toUInt8, (w >>> 32).toUInt8,
    (w >>> 24).toUInt8, (w >>> 16).toUInt8, (w >>> 8).toUInt8, w.toUInt8]

end Bytes

end SymmetricCipher
