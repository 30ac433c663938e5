import SymmetricCipher.Bytes.Word
import SymmetricCipher.Digest.Frame

/-!
# MD5

Sixty-four steps in four rounds over four words, which are least significant byte first.
-/

namespace SymmetricCipher.Md5

/-- The four words of the chaining value. -/
structure Words where
  a : UInt32
  b : UInt32
  c : UInt32
  d : UInt32
  deriving DecidableEq, Repr

/-- The chaining value before the first block. -/
def initial : Words := ⟨0x67452301, 0xefcdab89, 0x98badcfe, 0x10325476⟩

/-- The additive constants: the first 32 bits of the fractions of the absolute sines of 1 to 64. -/
def constants : Array UInt32 :=
  #[0xd76aa478, 0xe8c7b756, 0x242070db, 0xc1bdceee, 0xf57c0faf, 0x4787c62a, 0xa8304613, 0xfd469501,
    0x698098d8, 0x8b44f7af, 0xffff5bb1, 0x895cd7be, 0x6b901122, 0xfd987193, 0xa679438e, 0x49b40821,
    0xf61e2562, 0xc040b340, 0x265e5a51, 0xe9b6c7aa, 0xd62f105d, 0x02441453, 0xd8a1e681, 0xe7d3fbc8,
    0x21e1cde6, 0xc33707d6, 0xf4d50d87, 0x455a14ed, 0xa9e3e905, 0xfcefa3f8, 0x676f02d9, 0x8d2a4c8a,
    0xfffa3942, 0x8771f681, 0x6d9d6122, 0xfde5380c, 0xa4beea44, 0x4bdecfa9, 0xf6bb4b60, 0xbebfbc70,
    0x289b7ec6, 0xeaa127fa, 0xd4ef3085, 0x04881d05, 0xd9d4d039, 0xe6db99e5, 0x1fa27cf8, 0xc4ac5665,
    0xf4292244, 0x432aff97, 0xab9423a7, 0xfc93a039, 0x655b59c3, 0x8f0ccc92, 0xffeff47d, 0x85845dd1,
    0x6fa87e4f, 0xfe2ce6e0, 0xa3014314, 0x4e0811a1, 0xf7537e82, 0xbd3af235, 0x2ad7d2bb, 0xeb86d391]

/-- How far each step rotates. -/
def rotations : Array UInt32 :=
  #[7, 12, 17, 22, 7, 12, 17, 22, 7, 12, 17, 22, 7, 12, 17, 22,
    5, 9, 14, 20, 5, 9, 14, 20, 5, 9, 14, 20, 5, 9, 14, 20,
    4, 11, 16, 23, 4, 11, 16, 23, 4, 11, 16, 23, 4, 11, 16, 23,
    6, 10, 15, 21, 6, 10, 15, 21, 6, 10, 15, 21, 6, 10, 15, 21]

/-- The mixing function of step `i`, and the word of the block that it takes. -/
def mix (i : Nat) (w : Words) : UInt32 × Nat :=
  if i < 16 then ((w.b &&& w.c) ||| (~~~w.b &&& w.d), i)
  else if i < 32 then ((w.d &&& w.b) ||| (~~~w.d &&& w.c), (5 * i + 1) % 16)
  else if i < 48 then (w.b ^^^ w.c ^^^ w.d, (3 * i + 5) % 16)
  else (w.c ^^^ (w.b ||| ~~~w.d), (7 * i) % 16)

/-- Step `i` on a block of sixteen words. -/
def step (block : Array UInt32) (w : Words) (i : Nat) : Words :=
  let (f, g) := mix i w
  let sum := w.a + f + constants.getD i 0 + block.getD g 0
  ⟨w.d, w.b + Word.rotateLeft32 sum (rotations.getD i 0), w.b, w.c⟩

/-- Takes a block of 64 bytes into the chaining value. -/
def compress (w : Words) (block : Bytes) : Words :=
  let v := (List.range 64).foldl (step (Bytes.words32LE block).toArray) w
  ⟨w.a + v.a, w.b + v.b, w.c + v.c, w.d + v.d⟩

/-- The sixteen bytes of a chaining value. -/
def Words.toBytes (w : Words) : Bytes :=
  Bytes.ofWord32LE w.a ++ Bytes.ofWord32LE w.b ++ Bytes.ofWord32LE w.c ++ Bytes.ofWord32LE w.d

/-- The MD5 digest of the data. -/
def digest (data : Bytes) : Bytes :=
  ((Bytes.wholeBlocks 64 (Digest.frame 64 (Digest.bitLength64 data).reverse data)).foldl
    compress initial).toBytes

/-- MD5 gives 16 bytes. -/
theorem length_digest (data : Bytes) : (digest data).length = 16 := rfl

end SymmetricCipher.Md5
