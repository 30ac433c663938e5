import SymmetricCipher.Proofs.Cipher.Aes
import SymmetricCipher.Proofs.Cipher.Des
import SymmetricCipher.Proofs.Cipher.Twofish
import SymmetricCipher.Proofs.Key

/-!
# Block ciphers from keys

Every key of a length that an algorithm takes gives a block cipher, and its two functions undo each
other on whole blocks, in both orders. How a key is expanded does not matter here: the ciphers are
invertible for any round keys.
-/

namespace SymmetricCipher

namespace Aes

/-- AES under a key of 16, 24 or 32 bytes is invertible. -/
theorem exists_invertible_of_length {key : Bytes}
    (h : key.length = 16 ∨ key.length = 24 ∨ key.length = 32) :
    ∃ cipher, Aes.cipher key = .ok cipher ∧ cipher.blockSize = 16 ∧ cipher.Invertible :=
  ⟨_, if_pos h, rfl, invertible _⟩

/-- Under a key of 24 bytes a block is recovered from its ciphertext. -/
theorem exists_invertible_of_length_counting :
    ((List.range 24).map UInt8.ofNat).length = 24 ∧
    ∃ cipher, Aes.cipher ((List.range 24).map UInt8.ofNat) = .ok cipher ∧
      cipher.blockSize = 16 ∧ cipher.Invertible ∧
      cipher.decryptBlock [0xdd, 0xa9, 0x7c, 0xa4, 0x86, 0x4c, 0xdf, 0xe0, 0x6e, 0xaf, 0x70, 0xa0,
        0xec, 0x0d, 0x71, 0x91] = (List.range 16).map fun i => UInt8.ofNat (17 * i) := by
  obtain ⟨cipher, hc, hn, hi⟩ :=
    @exists_invertible_of_length ((List.range 24).map UInt8.ofNat) (.inr (.inl rfl))
  have he : cipher.encryptBlock ((List.range 16).map fun i => UInt8.ofNat (17 * i)) =
      [0xdd, 0xa9, 0x7c, 0xa4, 0x86, 0x4c, 0xdf, 0xe0, 0x6e, 0xaf, 0x70, 0xa0, 0xec, 0x0d, 0x71,
        0x91] := by
    cases hc
    decide +kernel
  refine ⟨rfl, cipher, hc, hn, hi, ?_⟩
  rw [← he]
  exact hi.decrypt_encrypt hn.symm

end Aes

namespace TripleDes

/-- DES under a key of 8 bytes is invertible, and so is Triple DES under a key of 8, 16 or 24
bytes. -/
theorem single_and_triple_invertible :
    (∀ key : Bytes, key.length = 8 →
      ∃ cipher, Des.cipher key = .ok cipher ∧ cipher.blockSize = 8 ∧ cipher.Invertible) ∧
    ∀ key : Bytes, key.length = 8 ∨ key.length = 16 ∨ key.length = 24 →
      ∃ cipher, TripleDes.cipher key = .ok cipher ∧ cipher.blockSize = 8 ∧ cipher.Invertible := by
  refine ⟨fun key h => ⟨_, if_pos h, rfl, Des.invertible _⟩, fun key h => ?_⟩
  obtain ⟨expanded, he⟩ := Algorithm.expandKey_ok .tripleDes h
  refine ⟨cipherOf (schedules expanded), ?_, rfl, invertible _⟩
  rw [TripleDes.cipher, he]

/-- A key of 8 bytes for DES and one of 16 bytes for Triple DES, and a block that comes back. -/
theorem single_and_triple_invertible_block :
    (∃ cipher, Des.cipher [0x13, 0x34, 0x57, 0x79, 0x9b, 0xbc, 0xdf, 0xf1] = .ok cipher ∧
      cipher.blockSize = 8 ∧ cipher.Invertible ∧
      cipher.decryptBlock [0x85, 0xe8, 0x13, 0x54, 0x0f, 0x0a, 0xb4, 0x05] =
        [0x01, 0x23, 0x45, 0x67, 0x89, 0xab, 0xcd, 0xef]) ∧
    ∃ cipher, TripleDes.cipher [0x01, 0x23, 0x45, 0x67, 0x89, 0xab, 0xcd, 0xef, 0xfe, 0xdc, 0xba,
        0x98, 0x76, 0x54, 0x32, 0x10] = .ok cipher ∧
      cipher.blockSize = 8 ∧ cipher.Invertible ∧
      cipher.decryptBlock [0x1a, 0x4d, 0x67, 0x2d, 0xca, 0x6c, 0xb3, 0x35] =
        [0x01, 0x23, 0x45, 0x67, 0x89, 0xab, 0xcd, 0xef] := by
  constructor
  · obtain ⟨cipher, hc, hn, hi⟩ :=
      single_and_triple_invertible.1 [0x13, 0x34, 0x57, 0x79, 0x9b, 0xbc, 0xdf, 0xf1] rfl
    have he : cipher.encryptBlock [0x01, 0x23, 0x45, 0x67, 0x89, 0xab, 0xcd, 0xef] =
        [0x85, 0xe8, 0x13, 0x54, 0x0f, 0x0a, 0xb4, 0x05] := by
      cases hc
      decide +kernel
    refine ⟨cipher, hc, hn, hi, ?_⟩
    rw [← he]
    exact hi.decrypt_encrypt hn.symm
  · obtain ⟨cipher, hc, hn, hi⟩ := single_and_triple_invertible.2 [0x01, 0x23, 0x45, 0x67, 0x89,
      0xab, 0xcd, 0xef, 0xfe, 0xdc, 0xba, 0x98, 0x76, 0x54, 0x32, 0x10] (.inr (.inl rfl))
    have he : cipher.encryptBlock [0x01, 0x23, 0x45, 0x67, 0x89, 0xab, 0xcd, 0xef] =
        [0x1a, 0x4d, 0x67, 0x2d, 0xca, 0x6c, 0xb3, 0x35] := by
      cases hc
      decide +kernel
    refine ⟨cipher, hc, hn, hi, ?_⟩
    rw [← he]
    exact hi.decrypt_encrypt hn.symm

end TripleDes

namespace Twofish

/-- Twofish under a key of any length but zero is invertible. -/
theorem exists_invertible_of_ne_nil {key : Bytes} (h : key ≠ []) :
    ∃ cipher, Twofish.cipher key = .ok cipher ∧ cipher.blockSize = 16 ∧ cipher.Invertible := by
  obtain ⟨normalized, hn⟩ := normalizeKey_ok (mt List.eq_nil_of_length_eq_zero h)
  refine ⟨cipherOf (schedule normalized), ?_, rfl, invertible _⟩
  rw [Twofish.cipher, hn]

/-- A key of five bytes, which is filled up, is no exception. -/
theorem exists_invertible_of_ne_nil_short :
    ([1, 2, 3, 4, 5] : Bytes) ≠ [] ∧
    ∃ cipher, Twofish.cipher [1, 2, 3, 4, 5] = .ok cipher ∧ cipher.blockSize = 16 ∧
      cipher.Invertible :=
  ⟨List.cons_ne_nil 1 _, exists_invertible_of_ne_nil (List.cons_ne_nil 1 _)⟩

end Twofish

end SymmetricCipher
