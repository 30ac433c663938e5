import SymmetricCipher.Cipher.Aes.State
import SymmetricCipher.Cipher.Block
import SymmetricCipher.Error

/-!
# AES

The key expansion for keys of 16, 24 and 32 bytes, and the cipher: an initial key, full rounds, and
a last round that does not mix columns. Decryption takes the same round keys and undoes the rounds
from the last to the first.
-/

namespace SymmetricCipher.Aes

/-- The words of a key, four bytes each. -/
def keyWords (key : Bytes) : Array Column :=
  ((List.range (key.length / 4)).map fun i => Column.ofBytes key (4 * i)).toArray

/-- Appends word `i` of the expanded key, for a key of `nk` words: the word `nk` places back, masked
by the last word, which is scrambled at every `nk`-th place and, for the longest keys, substituted
halfway between. -/
def expandStep (nk : Nat) (words : Array Column) (i : Nat) : Array Column :=
  let last := words.getD (i - 1) .zero
  let mask :=
    if i % nk = 0 then
      let scrambled := last.rotate.map substitute
      { scrambled with b0 := scrambled.b0 ^^^ roundConstants.getD (i / nk - 1) 0 }
    else if 6 < nk ∧ i % nk = 4 then last.map substitute
    else last
  words.push ((words.getD (i - nk) .zero).xor mask)

/-- The expanded key of a key of `nk` words: four words for each of the `nk + 7` round keys. -/
def expand (nk : Nat) (words : Array Column) : Array Column :=
  (List.range' nk (4 * (nk + 7) - nk)).foldl (expandStep nk) words

/-- Round key `r`, four words of the expanded key. -/
def keyState (words : Array Column) (r : Nat) : State :=
  ⟨words.getD (4 * r) .zero, words.getD (4 * r + 1) .zero, words.getD (4 * r + 2) .zero,
    words.getD (4 * r + 3) .zero⟩

/-- The round keys of a key, first to last. -/
def roundKeys (key : Bytes) : List State :=
  let nk := key.length / 4
  (List.range (nk + 7)).map (keyState (expand nk (keyWords key)))

/-- The rounds after the initial key; the last one does not mix columns. -/
def runRounds : List State → State → State
  | [], s => s
  | [key], s => State.addKey key s.substitute.shiftRows
  | key :: keys, s => runRounds keys (State.addKey key s.substitute.shiftRows.mixColumns)

/-- Undoes the rounds, the last one first. -/
def undoRounds : List State → State → State
  | [], s => s
  | [key], s => (State.addKey key s).unshiftRows.unsubstitute
  | key :: keys, s => (State.addKey key (undoRounds keys s)).unmixColumns.unshiftRows.unsubstitute

/-- Encrypts a state under the given round keys. -/
def encryptState : List State → State → State
  | [], s => s
  | key :: keys, s => runRounds keys (State.addKey key s)

/-- Decrypts a state under the given round keys. -/
def decryptState : List State → State → State
  | [], s => s
  | key :: keys, s => State.addKey key (undoRounds keys s)

/-- AES under the given round keys, on blocks of sixteen bytes. -/
def cipherOf (keys : List State) : BlockCipher where
  blockSize := 16
  encryptBlock block := (encryptState keys (.ofBytes block)).toBytes
  decryptBlock block := (decryptState keys (.ofBytes block)).toBytes
  blockSize_pos := by decide
  length_encryptBlock _ _ := rfl
  length_decryptBlock _ _ := rfl

/-- AES under a key of 16, 24 or 32 bytes. -/
def cipher (key : Bytes) : Except CipherError BlockCipher :=
  if key.length = 16 ∨ key.length = 24 ∨ key.length = 32 then .ok (cipherOf (roundKeys key))
  else .error (.invalidKeyLength .aes key.length)

end SymmetricCipher.Aes
