import SymmetricCipher.Cipher.Twofish.Basic
import SymmetricCipher.Proofs.Cipher.Invertible
import SymmetricCipher.Proofs.Cipher.Word

/-!
# Twofish can be undone

Two rounds mask one half of the block by a function of the other half, and turn it by one bit, once
for each half. Each masking is undone by the same words, since the half that they come from is still
there. The function itself need not have an inverse.
-/

namespace SymmetricCipher

namespace Twofish

namespace Quad

/-- A quad that is added twice is gone. -/
@[simp] lemma xor_xor (x y : Quad) : (x.xor y).xor y = x := by
  simp only [xor, UInt32.xor_assoc, UInt32.xor_self, UInt32.xor_zero]

/-- Halves that are exchanged twice are as they were. -/
@[simp] lemma swap_swap (x : Quad) : x.swap.swap = x := rfl

/-- A quad is read back from its bytes. -/
@[simp] lemma ofBytes_toBytes (x : Quad) : ofBytes x.toBytes = x := by
  simp [ofBytes, toBytes, Bytes.ofWord32LE, Bytes.word32LE_bytes]

/-- A block of 16 bytes is read back from its quad. -/
lemma toBytes_ofBytes {block : Bytes} (h : block.length = 16) :
    (ofBytes block).toBytes = block := by
  match block, h with
  | [_, _, _, _, _, _, _, _, _, _, _, _, _, _, _, _], _ =>
    simp [ofBytes, toBytes, Bytes.ofWord32LE_word32LE]

end Quad

variable (t : Tables)

/-- A double round is undone under the same keys. -/
lemma undoDoubleRound_doubleRound (x keys : Quad) :
    undoDoubleRound t (doubleRound t x keys) keys = x := by
  simp only [undoDoubleRound, doubleRound, Word.rotateLeft32_rotateRight32_one, UInt32.xor_assoc,
    UInt32.xor_self, UInt32.xor_zero, Word.rotateRight32_rotateLeft32_one]

/-- A double round that was undone can be run again. -/
lemma doubleRound_undoDoubleRound (x keys : Quad) :
    doubleRound t (undoDoubleRound t x keys) keys = x := by
  simp only [undoDoubleRound, doubleRound, Word.rotateLeft32_rotateRight32_one, UInt32.xor_assoc,
    UInt32.xor_self, UInt32.xor_zero, Word.rotateRight32_rotateLeft32_one]

/-- A fold is undone by the inverse steps in the opposite order. -/
lemma foldl_reverse_foldl {α β : Type} {f g : β → α → β} (h : ∀ b a, g (f b a) a = b) (as : List α)
    (b : β) : as.reverse.foldl g (as.foldl f b) = b := by
  induction as generalizing b with
  | nil => rfl
  | cons a as ih =>
    rw [List.reverse_cons, List.foldl_append]
    calc g (as.reverse.foldl g (as.foldl f (f b a))) a
        = g (f b a) a := by rw [ih]
      _ = b := h b a

/-- Decryption of a quad undoes its encryption, under any schedule. -/
lemma decryptQuad_encryptQuad (s : Schedule) (x : Quad) :
    decryptQuad s (encryptQuad s x) = x := by
  rw [decryptQuad, encryptQuad, Quad.xor_xor, Quad.swap_swap,
    foldl_reverse_foldl (undoDoubleRound_doubleRound s.tables), Quad.xor_xor]

/-- Encryption of a quad undoes its decryption, under any schedule. -/
lemma encryptQuad_decryptQuad (s : Schedule) (x : Quad) :
    encryptQuad s (decryptQuad s x) = x := by
  -- the rounds are undone from the last to the first, so their inverse starts with the first
  have h := foldl_reverse_foldl (doubleRound_undoDoubleRound s.tables) s.roundKeys.reverse
    (x.xor s.outputKeys).swap
  rw [List.reverse_reverse] at h
  rw [decryptQuad, encryptQuad, Quad.xor_xor, h, Quad.swap_swap, Quad.xor_xor]

/-- Under any schedule Twofish is invertible in both orders. -/
lemma invertible (s : Schedule) : (cipherOf s).Invertible where
  decrypt_encrypt {block} h := by
    show (decryptQuad s (.ofBytes (Quad.toBytes _))).toBytes = block
    rw [Quad.ofBytes_toBytes, decryptQuad_encryptQuad, Quad.toBytes_ofBytes h]
  encrypt_decrypt {block} h := by
    show (encryptQuad s (.ofBytes (Quad.toBytes _))).toBytes = block
    rw [Quad.ofBytes_toBytes, encryptQuad_decryptQuad, Quad.toBytes_ofBytes h]

end Twofish

end SymmetricCipher
