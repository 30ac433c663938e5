import SymmetricCipher.Bytes.Word
import SymmetricCipher.Digest.Frame

/-!
# SHA-1

Eighty steps over five words, which are most significant byte first.
-/

namespace SymmetricCipher.Sha1

/-- The five words of the chaining value. -/
structure Words where
  a : UInt32
  b : UInt32
  c : UInt32
  d : UInt32
  e : UInt32
  deriving DecidableEq, Repr

/-- The chaining value before the first block. -/
def initial : Words := ⟨0x67452301, 0xefcdab89, 0x98badcfe, 0x10325476, 0xc3d2e1f0⟩

/-- Appends word `t` of the message schedule, made from four words before it. -/
def scheduleStep (w : Array UInt32) (t : Nat) : Array UInt32 :=
  w.push (Word.rotateLeft32
    (w.getD (t - 3) 0 ^^^ w.getD (t - 8) 0 ^^^ w.getD (t - 14) 0 ^^^ w.getD (t - 16) 0) 1)

/-- The eighty words that a block of 64 bytes is expanded to. -/
def schedule (block : Bytes) : Array UInt32 :=
  (List.range' 16 64).foldl scheduleStep (Bytes.words32BE block).toArray

/-- The mixing function of step `t`, with its additive constant. -/
def mix (t : Nat) (v : Words) : UInt32 :=
  if t < 20 then ((v.b &&& v.c) ||| (~~~v.b &&& v.d)) + 0x5a827999
  else if t < 40 then (v.b ^^^ v.c ^^^ v.d) + 0x6ed9eba1
  else if t < 60 then ((v.b &&& v.c) ||| (v.b &&& v.d) ||| (v.c &&& v.d)) + 0x8f1bbcdc
  else (v.b ^^^ v.c ^^^ v.d) + 0xca62c1d6

/-- Step `t` with the words of the schedule. -/
def step (w : Array UInt32) (v : Words) (t : Nat) : Words :=
  ⟨Word.rotateLeft32 v.a 5 + mix t v + v.e + w.getD t 0, v.a, Word.rotateLeft32 v.b 30, v.c, v.d⟩

/-- Takes a block of 64 bytes into the chaining value. -/
def compress (w : Words) (block : Bytes) : Words :=
  let v := (List.range 80).foldl (step (schedule block)) w
  ⟨w.a + v.a, w.b + v.b, w.c + v.c, w.d + v.d, w.e + v.e⟩

/-- The twenty bytes of a chaining value. -/
def Words.toBytes (w : Words) : Bytes :=
  Bytes.ofWord32BE w.a ++ Bytes.ofWord32BE w.b ++ Bytes.ofWord32BE w.c ++ Bytes.ofWord32BE w.d
    ++ Bytes.ofWord32BE w.e

/-- The SHA-1 digest of the data. -/
def digest (data : Bytes) : Bytes :=
  ((Bytes.wholeBlocks 64 (Digest.frame 64 (Digest.bitLength64 data) data)).foldl
    compress initial).toBytes

/-- SHA-1 gives 20 bytes. -/
theorem length_digest (data : Bytes) : (digest data).length = 20 := rfl

end SymmetricCipher.Sha1
