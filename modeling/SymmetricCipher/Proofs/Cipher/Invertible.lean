import Mathlib.Tactic.Lemma
import SymmetricCipher.Cipher.Block

/-!
# Invertible block ciphers

A block cipher whose two functions undo each other on whole blocks. The modes that run both
functions, ECB and CBC, ask for it; the others run encryption only.
-/

namespace SymmetricCipher

/-- The direction that undoes another one. -/
def Direction.opposite : Direction → Direction
  | .encrypt => .decrypt
  | .decrypt => .encrypt

/-- No direction is its own opposite. -/
lemma Direction.opposite_ne (direction : Direction) : direction.opposite ≠ direction := by
  cases direction <;> exact nofun

/-- There is no third direction. -/
lemma Direction.eq_or_eq_opposite (direction other : Direction) :
    other = direction ∨ other = direction.opposite := by
  cases direction <;> cases other <;> first | exact .inl rfl | exact .inr rfl

/-- The two functions of a block cipher undo each other on whole blocks. -/
structure BlockCipher.Invertible (cipher : BlockCipher) : Prop where
  decrypt_encrypt : ∀ {block : Bytes}, block.length = cipher.blockSize →
    cipher.decryptBlock (cipher.encryptBlock block) = block
  encrypt_decrypt : ∀ {block : Bytes}, block.length = cipher.blockSize →
    cipher.encryptBlock (cipher.decryptBlock block) = block

/-- What is done to a block in one direction is undone in the opposite one. -/
lemma BlockCipher.Invertible.onBlock_opposite {cipher : BlockCipher} (h : cipher.Invertible)
    (direction : Direction) {block : Bytes} (hb : block.length = cipher.blockSize) :
    cipher.onBlock direction.opposite (cipher.onBlock direction block) = block := by
  cases direction with
  | encrypt => exact h.decrypt_encrypt hb
  | decrypt => exact h.encrypt_decrypt hb

end SymmetricCipher
