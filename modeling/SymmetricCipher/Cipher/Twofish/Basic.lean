import SymmetricCipher.Cipher.Block
import SymmetricCipher.Cipher.Twofish.Schedule

/-!
# Twofish

Sixteen rounds, taken two at a time so that the halves need not change places, between two maskings
of the block.
-/

namespace SymmetricCipher.Twofish

/-- The two words that a round mixes into the other half, for its two keys. -/
@[inline] def Tables.roundWords (t : Tables) (x y k0 k1 : UInt32) : UInt32 × UInt32 :=
  let t0 := t.apply x
  let t1 := t.apply (Word.rotateLeft32 y 8)
  (t0 + t1 + k0, t0 + t1 * 2 + k1)

/-- Two rounds. -/
def doubleRound (t : Tables) (x keys : Quad) : Quad :=
  let (f0, f1) := t.roundWords x.a x.b keys.a keys.b
  let c := Word.rotateRight32 (x.c ^^^ f0) 1
  let d := Word.rotateLeft32 x.d 1 ^^^ f1
  let (f0, f1) := t.roundWords c d keys.c keys.d
  ⟨Word.rotateRight32 (x.a ^^^ f0) 1, Word.rotateLeft32 x.b 1 ^^^ f1, c, d⟩

/-- Undoes two rounds. -/
def undoDoubleRound (t : Tables) (x keys : Quad) : Quad :=
  let (f0, f1) := t.roundWords x.c x.d keys.c keys.d
  let a := Word.rotateLeft32 x.a 1 ^^^ f0
  let b := Word.rotateRight32 (x.b ^^^ f1) 1
  let (f0, f1) := t.roundWords a b keys.a keys.b
  ⟨a, b, Word.rotateLeft32 x.c 1 ^^^ f0, Word.rotateRight32 (x.d ^^^ f1) 1⟩

/-- The halves of a block in the opposite order. -/
def Quad.swap (x : Quad) : Quad := ⟨x.c, x.d, x.a, x.b⟩

/-- Encrypts four words. -/
def encryptQuad (s : Schedule) (x : Quad) : Quad :=
  (s.roundKeys.foldl (doubleRound s.tables) (x.xor s.inputKeys)).swap.xor s.outputKeys

/-- Decrypts four words. -/
def decryptQuad (s : Schedule) (x : Quad) : Quad :=
  (s.roundKeys.reverse.foldl (undoDoubleRound s.tables) (x.xor s.outputKeys).swap).xor s.inputKeys

/-- Twofish under the given schedule, on blocks of sixteen bytes. -/
def cipherOf (s : Schedule) : BlockCipher where
  blockSize := 16
  encryptBlock block := (encryptQuad s (.ofBytes block)).toBytes
  decryptBlock block := (decryptQuad s (.ofBytes block)).toBytes
  blockSize_pos := Nat.zero_lt_succ _
  length_encryptBlock _ _ := rfl
  length_decryptBlock _ _ := rfl

/-- Twofish under a key of any length but zero. -/
def cipher (key : Bytes) : Except CipherError BlockCipher :=
  match normalizeKey key with
  | .error e => .error e
  | .ok key => .ok (cipherOf (schedule key))

end SymmetricCipher.Twofish
