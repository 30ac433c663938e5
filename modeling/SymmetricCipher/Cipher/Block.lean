import SymmetricCipher.Bytes.Basic
import SymmetricCipher.Direction

/-!
# Block ciphers

A keyed block cipher, as the modes of operation see it: a block size and two functions that keep
the length of a block. That the two functions undo each other is not asked for here, since most
modes never use the second one.
-/

namespace SymmetricCipher

/-- A block cipher under a fixed key. -/
structure BlockCipher where
  /-- The block size in bytes. -/
  blockSize : Nat
  /-- Encrypts one block. -/
  encryptBlock : Bytes → Bytes
  /-- Decrypts one block. -/
  decryptBlock : Bytes → Bytes
  blockSize_pos : 0 < blockSize
  length_encryptBlock : ∀ block : Bytes, block.length = blockSize →
    (encryptBlock block).length = blockSize
  length_decryptBlock : ∀ block : Bytes, block.length = blockSize →
    (decryptBlock block).length = blockSize

namespace BlockCipher

/-- The block function of a direction. -/
def onBlock (cipher : BlockCipher) : Direction → Bytes → Bytes
  | .encrypt => cipher.encryptBlock
  | .decrypt => cipher.decryptBlock

/-- Both directions of a cipher give blocks of its block size. -/
theorem length_onBlock (cipher : BlockCipher) (direction : Direction) (block : Bytes)
    (h : block.length = cipher.blockSize) :
    (cipher.onBlock direction block).length = cipher.blockSize := by
  cases direction with
  | encrypt => exact cipher.length_encryptBlock block h
  | decrypt => exact cipher.length_decryptBlock block h

end BlockCipher

end SymmetricCipher
