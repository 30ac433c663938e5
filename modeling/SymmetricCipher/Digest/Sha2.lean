import SymmetricCipher.Bytes.Word
import SymmetricCipher.Digest.Frame

/-!
# SHA-2

One compression function over eight words, for words of 32 bits (SHA-224, SHA-256) and of 64 bits
(SHA-384, SHA-512). The members of each pair differ in the words they start from and in how much of
the last chaining value they give.
-/

namespace SymmetricCipher.Sha2

/-- The eight words of a chaining value. -/
structure Words (W : Type) where
  a : W
  b : W
  c : W
  d : W
  e : W
  f : W
  g : W
  h : W
  deriving DecidableEq, Repr

/-- What depends on the word size: four mixing functions and the additive constants. -/
structure Family (W : Type) where
  /-- Mixes the first working word. -/
  bigSigma0 : W → W
  /-- Mixes the fifth working word. -/
  bigSigma1 : W → W
  /-- Mixes the schedule word fifteen places back. -/
  smallSigma0 : W → W
  /-- Mixes the schedule word two places back. -/
  smallSigma1 : W → W
  constants : List W

section

variable {W : Type} [Add W] [AndOp W] [XorOp W] [Complement W] [OfNat W 0]

/-- Appends word `t` of the message schedule, made from four words before it. -/
@[specialize] def scheduleStep (family : Family W) (w : Array W) (t : Nat) : Array W :=
  w.push (family.smallSigma1 (w.getD (t - 2) 0) + w.getD (t - 7) 0
    + family.smallSigma0 (w.getD (t - 15) 0) + w.getD (t - 16) 0)

/-- The words that sixteen words of a block are expanded to, one for each constant. -/
@[specialize] def schedule (family : Family W) (block : List W) : Array W :=
  (List.range' 16 (family.constants.length - 16)).foldl (scheduleStep family) block.toArray

/-- One step, with a constant and a word of the schedule. -/
@[specialize] def step (family : Family W) (v : Words W) (kw : W × W) : Words W :=
  let choice := (v.e &&& v.f) ^^^ (~~~v.e &&& v.g)
  let majority := (v.a &&& v.b) ^^^ (v.a &&& v.c) ^^^ (v.b &&& v.c)
  let t1 := v.h + family.bigSigma1 v.e + choice + kw.1 + kw.2
  let t2 := family.bigSigma0 v.a + majority
  ⟨t1 + t2, v.a, v.b, v.c, v.d + t1, v.e, v.f, v.g⟩

/-- Takes the sixteen words of a block into the chaining value. -/
@[specialize] def compress (family : Family W) (w : Words W) (block : List W) : Words W :=
  let v := (family.constants.zip (schedule family block).toList).foldl (step family) w
  ⟨w.a + v.a, w.b + v.b, w.c + v.c, w.d + v.d, w.e + v.e, w.f + v.f, w.g + v.g, w.h + v.h⟩

end

/-- The words of a chaining value, one after the other. -/
def Words.toList {W : Type} (w : Words W) : List W := [w.a, w.b, w.c, w.d, w.e, w.f, w.g, w.h]

/-- The family on words of 32 bits. -/
def family32 : Family UInt32 where
  bigSigma0 x := Word.rotateRight32 x 2 ^^^ Word.rotateRight32 x 13 ^^^ Word.rotateRight32 x 22
  bigSigma1 x := Word.rotateRight32 x 6 ^^^ Word.rotateRight32 x 11 ^^^ Word.rotateRight32 x 25
  smallSigma0 x := Word.rotateRight32 x 7 ^^^ Word.rotateRight32 x 18 ^^^ (x >>> 3)
  smallSigma1 x := Word.rotateRight32 x 17 ^^^ Word.rotateRight32 x 19 ^^^ (x >>> 10)
  constants :=
    [0x428a2f98, 0x71374491, 0xb5c0fbcf, 0xe9b5dba5, 0x3956c25b, 0x59f111f1, 0x923f82a4,
      0xab1c5ed5, 0xd807aa98, 0x12835b01, 0x243185be, 0x550c7dc3, 0x72be5d74, 0x80deb1fe,
      0x9bdc06a7, 0xc19bf174, 0xe49b69c1, 0xefbe4786, 0x0fc19dc6, 0x240ca1cc, 0x2de92c6f,
      0x4a7484aa, 0x5cb0a9dc, 0x76f988da, 0x983e5152, 0xa831c66d, 0xb00327c8, 0xbf597fc7,
      0xc6e00bf3, 0xd5a79147, 0x06ca6351, 0x14292967, 0x27b70a85, 0x2e1b2138, 0x4d2c6dfc,
      0x53380d13, 0x650a7354, 0x766a0abb, 0x81c2c92e, 0x92722c85, 0xa2bfe8a1, 0xa81a664b,
      0xc24b8b70, 0xc76c51a3, 0xd192e819, 0xd6990624, 0xf40e3585, 0x106aa070, 0x19a4c116,
      0x1e376c08, 0x2748774c, 0x34b0bcb5, 0x391c0cb3, 0x4ed8aa4a, 0x5b9cca4f, 0x682e6ff3,
      0x748f82ee, 0x78a5636f, 0x84c87814, 0x8cc70208, 0x90befffa, 0xa4506ceb, 0xbef9a3f7,
      0xc67178f2]

/-- The family on words of 64 bits. -/
def family64 : Family UInt64 where
  bigSigma0 x := Word.rotateRight64 x 28 ^^^ Word.rotateRight64 x 34 ^^^ Word.rotateRight64 x 39
  bigSigma1 x := Word.rotateRight64 x 14 ^^^ Word.rotateRight64 x 18 ^^^ Word.rotateRight64 x 41
  smallSigma0 x := Word.rotateRight64 x 1 ^^^ Word.rotateRight64 x 8 ^^^ (x >>> 7)
  smallSigma1 x := Word.rotateRight64 x 19 ^^^ Word.rotateRight64 x 61 ^^^ (x >>> 6)
  constants :=
    [0x428a2f98d728ae22, 0x7137449123ef65cd, 0xb5c0fbcfec4d3b2f, 0xe9b5dba58189dbbc,
      0x3956c25bf348b538, 0x59f111f1b605d019, 0x923f82a4af194f9b, 0xab1c5ed5da6d8118,
      0xd807aa98a3030242, 0x12835b0145706fbe, 0x243185be4ee4b28c, 0x550c7dc3d5ffb4e2,
      0x72be5d74f27b896f, 0x80deb1fe3b1696b1, 0x9bdc06a725c71235, 0xc19bf174cf692694,
      0xe49b69c19ef14ad2, 0xefbe4786384f25e3, 0x0fc19dc68b8cd5b5, 0x240ca1cc77ac9c65,
      0x2de92c6f592b0275, 0x4a7484aa6ea6e483, 0x5cb0a9dcbd41fbd4, 0x76f988da831153b5,
      0x983e5152ee66dfab, 0xa831c66d2db43210, 0xb00327c898fb213f, 0xbf597fc7beef0ee4,
      0xc6e00bf33da88fc2, 0xd5a79147930aa725, 0x06ca6351e003826f, 0x142929670a0e6e70,
      0x27b70a8546d22ffc, 0x2e1b21385c26c926, 0x4d2c6dfc5ac42aed, 0x53380d139d95b3df,
      0x650a73548baf63de, 0x766a0abb3c77b2a8, 0x81c2c92e47edaee6, 0x92722c851482353b,
      0xa2bfe8a14cf10364, 0xa81a664bbc423001, 0xc24b8b70d0f89791, 0xc76c51a30654be30,
      0xd192e819d6ef5218, 0xd69906245565a910, 0xf40e35855771202a, 0x106aa07032bbd1b8,
      0x19a4c116b8d2d0c8, 0x1e376c085141ab53, 0x2748774cdf8eeb99, 0x34b0bcb5e19b48a8,
      0x391c0cb3c5c95a63, 0x4ed8aa4ae3418acb, 0x5b9cca4f7763e373, 0x682e6ff3d6b2b8a3,
      0x748f82ee5defb2fc, 0x78a5636f43172f60, 0x84c87814a1f0ab72, 0x8cc702081a6439ec,
      0x90befffa23631e28, 0xa4506cebde82bde9, 0xbef9a3f7b2c67915, 0xc67178f2e372532b,
      0xca273eceea26619c, 0xd186b8c721c0c207, 0xeada7dd6cde0eb1e, 0xf57d4f7fee6ed178,
      0x06f067aa72176fba, 0x0a637dc5a2c898a6, 0x113f9804bef90dae, 0x1b710b35131c471b,
      0x28db77f523047d84, 0x32caab7b40c72493, 0x3c9ebe0a15c9bebc, 0x431d67c49c100d4c,
      0x4cc5d4becb3e42b6, 0x597f299cfc657e2a, 0x5fcb6fab3ad6faec, 0x6c44198c4a475817]

/-- The chaining value before the first block of SHA-224. -/
def initial224 : Words UInt32 :=
  ⟨0xc1059ed8, 0x367cd507, 0x3070dd17, 0xf70e5939,
    0xffc00b31, 0x68581511, 0x64f98fa7, 0xbefa4fa4⟩

/-- The chaining value before the first block of SHA-256. -/
def initial256 : Words UInt32 :=
  ⟨0x6a09e667, 0xbb67ae85, 0x3c6ef372, 0xa54ff53a,
    0x510e527f, 0x9b05688c, 0x1f83d9ab, 0x5be0cd19⟩

/-- The chaining value before the first block of SHA-384. -/
def initial384 : Words UInt64 :=
  ⟨0xcbbb9d5dc1059ed8, 0x629a292a367cd507, 0x9159015a3070dd17, 0x152fecd8f70e5939,
    0x67332667ffc00b31, 0x8eb44a8768581511, 0xdb0c2e0d64f98fa7, 0x47b5481dbefa4fa4⟩

/-- The chaining value before the first block of SHA-512. -/
def initial512 : Words UInt64 :=
  ⟨0x6a09e667f3bcc908, 0xbb67ae8584caa73b, 0x3c6ef372fe94f82b, 0xa54ff53a5f1d36f1,
    0x510e527fade682d1, 0x9b05688c2b3e6c1f, 0x1f83d9abfb41bd6b, 0x5be0cd19137e2179⟩

/-- The 32 bytes of the last chaining value, for a message and a chaining value to start from. -/
def run32 (initial : Words UInt32) (data : Bytes) : Bytes :=
  ((Bytes.wholeBlocks 64 (Digest.frame 64 (Digest.bitLength64 data) data)).foldl
    (fun w block => compress family32 w (Bytes.words32BE block)) initial).toList.flatMap
    Bytes.ofWord32BE

/-- The 64 bytes of the last chaining value, for a message and a chaining value to start from. -/
def run64 (initial : Words UInt64) (data : Bytes) : Bytes :=
  ((Bytes.wholeBlocks 128 (Digest.frame 128 (Digest.bitLength128 data) data)).foldl
    (fun w block => compress family64 w (Bytes.words64BE block)) initial).toList.flatMap
    Bytes.ofWord64BE

/-- The SHA-224 digest of the data. -/
def digest224 (data : Bytes) : Bytes := (run32 initial224 data).take 28

/-- The SHA-256 digest of the data. -/
def digest256 (data : Bytes) : Bytes := run32 initial256 data

/-- The SHA-384 digest of the data. -/
def digest384 (data : Bytes) : Bytes := (run64 initial384 data).take 48

/-- The SHA-512 digest of the data. -/
def digest512 (data : Bytes) : Bytes := run64 initial512 data

/-- A run on words of 32 bits gives eight words, and so 32 bytes. -/
theorem length_run32 (initial : Words UInt32) (data : Bytes) : (run32 initial data).length = 32 := by
  simp [run32, Words.toList, Bytes.ofWord32BE]

/-- A run on words of 64 bits gives eight words, and so 64 bytes. -/
theorem length_run64 (initial : Words UInt64) (data : Bytes) : (run64 initial data).length = 64 := by
  simp [run64, Words.toList, Bytes.ofWord64BE]

end SymmetricCipher.Sha2
