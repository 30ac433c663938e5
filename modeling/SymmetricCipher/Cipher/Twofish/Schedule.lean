import SymmetricCipher.Bytes.Word
import SymmetricCipher.Cipher.Twofish.Permutation
import SymmetricCipher.Error

/-!
# Key schedule of Twofish

From a key come forty words, which whiten the block and mask the rounds, and four tables that
depend on the key, one for each byte of a word. The tables already hold the products with the
mixing matrix, so that the round function is four lookups.
-/

namespace SymmetricCipher.Twofish

/-- The place of a byte in a word, least significant first. -/
abbrev Lane := Fin 4

/-- The byte of a word in a lane. -/
def laneByte (word : UInt32) (lane : Lane) : UInt8 := (word >>> UInt32.ofNat (8 * lane)).toUInt8

/-- The byte permutations that one lane goes through, for up to four key words. -/
structure Stages where
  fourth : UInt8 → UInt8
  third : UInt8 → UInt8
  inner : UInt8 → UInt8
  middle : UInt8 → UInt8
  outer : UInt8 → UInt8

/-- The stages of each lane. -/
def stages : Lane → Stages
  | 0 => ⟨q1, q1, q0, q0, q1⟩
  | 1 => ⟨q0, q1, q1, q0, q0⟩
  | 2 => ⟨q0, q0, q0, q1, q1⟩
  | 3 => ⟨q1, q0, q1, q1, q0⟩

/-- Sends a byte through its lane: after each stage but the last it is masked by its byte of a key
word. The fourth and the third stage are there for four and for three or more key words. -/
def throughLane (lane : Lane) (y : UInt8) (words : List UInt32) : UInt8 :=
  let s := stages lane
  let y := if words.length = 4 then s.fourth y ^^^ laneByte (words.getD 3 0) lane else y
  let y := if 3 ≤ words.length then s.third y ^^^ laneByte (words.getD 2 0) lane else y
  let y := s.inner y ^^^ laneByte (words.getD 1 0) lane
  let y := s.middle y ^^^ laneByte (words.getD 0 0) lane
  s.outer y

/-- The word of four bytes, one for each lane. -/
def ofLanes (byte : Nat → UInt8) : UInt32 :=
  (List.range 4).foldl (fun word i => word ||| ((byte i).toUInt32 <<< UInt32.ofNat (8 * i))) 0

/-- The product of a byte with its lane's column of the mixing matrix. -/
def mdsColumn (lane : Lane) (y : UInt8) : UInt32 :=
  ofLanes fun row => multiply mdsModulus ((mdsMatrix.getD row []).getD lane 0) y

/-- All four lanes of a word, mixed. -/
def mixWord (x : UInt32) (words : List UInt32) : UInt32 :=
  (List.finRange 4).foldl
    (fun out lane => out ^^^ mdsColumn lane (throughLane lane (laneByte x lane) words)) 0

/-- The word that condenses eight key bytes. -/
def condense (chunk : Bytes) : UInt32 :=
  ofLanes fun row =>
    (chunk.zip (rsMatrix.getD row [])).foldl (fun s (m, r) => s ^^^ multiply rsModulus r m) 0

/-- Fills a key with null bytes up to 16, 24 or 32 bytes; longer keys are cut to 32, and an empty
key is refused. -/
def normalizeKey (key : Bytes) : Except CipherError Bytes :=
  if key.length = 0 then .error (.invalidKeyLength .twofish 0)
  else if key.length ≤ 16 then .ok (Bytes.fit 16 key)
  else if key.length ≤ 24 then .ok (Bytes.fit 24 key)
  else .ok (Bytes.fit 32 key)

/-- Four words: a block, or the keys that meet a block at once. -/
structure Quad where
  a : UInt32
  b : UInt32
  c : UInt32
  d : UInt32
  deriving DecidableEq, Repr

namespace Quad

/-- The exclusive or of two quadruples of words. -/
def xor (x y : Quad) : Quad := ⟨x.a ^^^ y.a, x.b ^^^ y.b, x.c ^^^ y.c, x.d ^^^ y.d⟩

/-- The quadruple of a block of sixteen bytes. -/
def ofBytes (block : Bytes) : Quad :=
  let word (i : Nat) : UInt32 :=
    Bytes.word32LE (block.getD i 0) (block.getD (i + 1) 0) (block.getD (i + 2) 0)
      (block.getD (i + 3) 0)
  ⟨word 0, word 4, word 8, word 12⟩

/-- The sixteen bytes of a quadruple. -/
def toBytes (x : Quad) : Bytes :=
  Bytes.ofWord32LE x.a ++ Bytes.ofWord32LE x.b ++ Bytes.ofWord32LE x.c ++ Bytes.ofWord32LE x.d

end Quad

/-- The tables of the four lanes under one key. -/
structure Tables where
  t0 : Vector UInt32 256
  t1 : Vector UInt32 256
  t2 : Vector UInt32 256
  t3 : Vector UInt32 256

/-- Tabulates a lane under the given key words. -/
def tabulateLane (lane : Lane) (words : List UInt32) : Vector UInt32 256 :=
  Vector.ofFn fun x => mdsColumn lane (throughLane lane (UInt8.ofNat x) words)

/-- The tables of the given key words. -/
def Tables.ofWords (words : List UInt32) : Tables :=
  ⟨tabulateLane 0 words, tabulateLane 1 words, tabulateLane 2 words, tabulateLane 3 words⟩

/-- The key-dependent function of a round, on one word. -/
@[inline] def Tables.apply (t : Tables) (x : UInt32) : UInt32 :=
  t.t0.get (laneByte x 0).toFin ^^^ t.t1.get (laneByte x 1).toFin ^^^
    t.t2.get (laneByte x 2).toFin ^^^ t.t3.get (laneByte x 3).toFin

/-- What the cipher needs of a key. -/
structure Schedule where
  /-- The words that mask the block before the rounds. -/
  inputKeys : Quad
  /-- The words that mask the block after the rounds. -/
  outputKeys : Quad
  /-- The words that mask the rounds, two rounds at a time. -/
  roundKeys : List Quad
  tables : Tables

/-- Every second element of a list, from the first on. -/
def everySecond {α : Type} : List α → List α
  | [] => []
  | [x] => [x]
  | x :: _ :: rest => x :: everySecond rest

/-- Pair `i` of the forty words, from the words at even and at odd places of the key. -/
def subkeyPair (even odd : List UInt32) (i : Nat) : UInt32 × UInt32 :=
  let rho : UInt32 := 0x01010101
  let a := mixWord (2 * UInt32.ofNat i * rho) even
  let b := Word.rotateLeft32 (mixWord ((2 * UInt32.ofNat i + 1) * rho) odd) 8
  (a + b, Word.rotateLeft32 (a + b * 2) 9)

/-- The words that condense the key, the last eight bytes first. -/
def condensedKey (key : Bytes) : List UInt32 := ((Bytes.wholeBlocks 8 key).map condense).reverse

/-- The schedule of a key of 16, 24 or 32 bytes. -/
def schedule (key : Bytes) : Schedule :=
  let words := Bytes.words32LE key
  let even := everySecond words
  let odd := everySecond words.tail
  let quad (i : Nat) : Quad :=
    let (a, b) := subkeyPair even odd (2 * i)
    let (c, d) := subkeyPair even odd (2 * i + 1)
    ⟨a, b, c, d⟩
  { inputKeys := quad 0
    outputKeys := quad 1
    roundKeys := (List.range 8).map fun r => quad (r + 2)
    tables := Tables.ofWords (condensedKey key) }

end SymmetricCipher.Twofish
