import SymmetricCipher.Bytes.Word
import SymmetricCipher.Cipher.Block
import SymmetricCipher.Cipher.Des.Table
import SymmetricCipher.Error

/-!
# DES

The key schedule and the sixteen rounds, on machine words. Decryption is encryption with the round
keys in the opposite order.
-/

namespace SymmetricCipher.Des

/-- The word whose bits are picked, most significant first, from the `width` low bits of the input
at the places of the table. -/
def permute (input : UInt64) (width : Nat) (table : List Nat) : UInt64 :=
  table.foldl (fun out place => (out <<< 1) ||| ((input >>> UInt64.ofNat (width - place)) &&& 1)) 0

/-- Turns the 28 low bits of a word to the left by `n` places. -/
def rotate28 (half n : UInt64) : UInt64 := ((half <<< n) ||| (half >>> (28 - n))) &&& 0x0fffffff

/-- Replaces each of the eight groups of six bits by the entry of its box: the outer two bits give
the row and the inner four the column. -/
def substitute (x : UInt64) : UInt64 :=
  substitutionBoxes.zipIdx.foldl
    (fun out (box, i) =>
      let six := (x >>> UInt64.ofNat (42 - 6 * i)) &&& 0x3f
      let row := ((six >>> 4) &&& 0x2) ||| (six &&& 0x1)
      let column := (six >>> 1) &&& 0xf
      (out <<< 4) ||| (box.getD (row * 16 + column).toNat 0).toUInt64)
    0

/-- The round function: expand, mask with the round key, substitute and permute. -/
def roundFunction (half : UInt32) (key : UInt64) : UInt32 :=
  (permute (substitute (permute half.toUInt64 32 expansion ^^^ key)) 32 roundPermutation).toUInt32

/-- The two halves of a block. -/
structure Halves where
  left : UInt32
  right : UInt32
  deriving DecidableEq, Repr

/-- One round: the halves change places, and the left one is masked by the round function of the
right one. -/
def round (h : Halves) (key : UInt64) : Halves := ⟨h.right, h.left ^^^ roundFunction h.right key⟩

/-- The halves of a block after the initial permutation. -/
def split (block : UInt64) : Halves :=
  let permuted := permute block 64 initialPermutation
  ⟨(permuted >>> 32).toUInt32, permuted.toUInt32⟩

/-- Puts the halves together, the right one first, and undoes the initial permutation. -/
def join (h : Halves) : UInt64 :=
  permute ((h.right.toUInt64 <<< 32) ||| h.left.toUInt64) 64 finalPermutation

/-- Runs a block through the rounds of the given keys, in their order. -/
def crypt (keys : List UInt64) (block : UInt64) : UInt64 := join (keys.foldl round (split block))

/-- The round keys that the remaining rotations of the two key halves give. -/
def roundKeysFrom : List UInt64 → UInt64 → UInt64 → List UInt64
  | [], _, _ => []
  | n :: rotations, c, d =>
    let c := rotate28 c n
    let d := rotate28 d n
    permute ((c <<< 28) ||| d) 56 roundKeyChoice :: roundKeysFrom rotations c d

/-- The sixteen round keys of a key of eight bytes. -/
def roundKeys (key : Bytes) : List UInt64 :=
  let chosen := permute (Bytes.toWord64BE key) 64 keyChoice
  roundKeysFrom rotations (chosen >>> 28) (chosen &&& 0x0fffffff)

/-- Encrypts the eight bytes of a block. -/
def encryptBlock (keys : List UInt64) (block : Bytes) : Bytes :=
  Bytes.ofWord64BE (crypt keys (Bytes.toWord64BE block))

/-- Decrypts the eight bytes of a block. -/
def decryptBlock (keys : List UInt64) (block : Bytes) : Bytes :=
  Bytes.ofWord64BE (crypt keys.reverse (Bytes.toWord64BE block))

/-- DES under the given round keys, on blocks of eight bytes. -/
def cipherOf (keys : List UInt64) : BlockCipher where
  blockSize := 8
  encryptBlock := encryptBlock keys
  decryptBlock := decryptBlock keys
  blockSize_pos := by decide
  length_encryptBlock _ _ := rfl
  length_decryptBlock _ _ := rfl

/-- DES under a key of eight bytes. -/
def cipher (key : Bytes) : Except CipherError BlockCipher :=
  if key.length = 8 then .ok (cipherOf (roundKeys key))
  else .error (.invalidKeyLength .des key.length)

end SymmetricCipher.Des
