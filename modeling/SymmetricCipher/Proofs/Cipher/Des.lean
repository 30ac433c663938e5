import Mathlib.Data.List.Induction
import SymmetricCipher.Cipher.TripleDes
import SymmetricCipher.Proofs.Cipher.Invertible
import SymmetricCipher.Proofs.Cipher.Word
import SymmetricCipher.Proofs.Cipher.WordBits

/-!
# DES can be undone

Rounds of a Feistel network are undone by the same rounds with the halves exchanged and the keys in
the opposite order, whatever the round function is. The two permutations of the block undo each
other, which their tables tell. Triple DES follows, as three ciphers that are undone one by one.
-/

namespace SymmetricCipher

open Word

namespace Des

/-! ## Permutations -/

/-- A permutation puts the bit of the last place of its table at the end. -/
lemma permute_concat (x : UInt64) (width : Nat) (table : List Nat) (place : Nat) :
    permute x width (table ++ [place]) = (permute x width table <<< 1) |||
      ((x >>> UInt64.ofNat (width - place)) &&& (1 : UInt64)) := by
  rw [permute, List.foldl_append]
  rfl

/-- A permutation gives as many bits as its table has places. -/
lemma fitsIn_permute (x : UInt64) (width : Nat) (table : List Nat) :
    FitsIn table.length (permute x width table) := by
  induction table using List.reverseRecOn with
  | nil =>
    intro i _
    simp [permute, bit]
  | append_singleton table place ih =>
    rw [permute_concat, List.length_append]
    have hbit : FitsIn (1 : UInt64).toNat ((x >>> UInt64.ofNat (width - place)) &&& (1 : UInt64)) :=
      fitsIn_and_ones _ 1
    exact ih.shiftLeft_or (by decide) hbit

/-- The bit of a permuted word is the bit of the input at the place that the table has for it,
counted from its end. -/
lemma getLsbD_permute {input : UInt64} {width : Nat} {table : List Nat} {i place : Nat}
    (hi : i < 64) (hp : width - place < 64) (h : table.reverse[i]? = some place) :
    (permute input width table).toBitVec.getLsbD i = input.toBitVec.getLsbD (width - place) := by
  rw [permute, ← List.reverse_reverse table, List.foldl_reverse]
  generalize table.reverse = places at h
  -- every place pushes the bits before it up by one
  induction places generalizing i with
  | nil => cases h
  | cons next places ih =>
    cases i with
    | zero =>
      cases h
      simp [Nat.mod_eq_of_lt hp]
    | succ i =>
      have hlt : i < 64 := by omega
      have hbit := ih hlt h
      rw [BitVec.getLsbD_eq_getElem hlt] at hbit
      simp [hi, ← hbit]

/-- The table `back` has the place of every bit that the table `there` moves. -/
def Undoes (back there : List Nat) : Prop :=
  ∀ i < 64, ∃ place ∈ back.reverse[i]?, 64 - place < 64 ∧ there.reverse[64 - place]? = some (64 - i)

instance (back there : List Nat) : Decidable (Undoes back there) :=
  inferInstanceAs (Decidable (∀ i < 64, _))

/-- A table that undoes another takes every bit back to its place. -/
lemma permute_permute {back there : List Nat} (h : Undoes back there) (x : UInt64) :
    permute (permute x 64 there) 64 back = x := by
  apply UInt64.eq_of_toBitVec_eq
  refine BitVec.eq_of_getLsbD_eq fun i hi => ?_
  obtain ⟨place, hback, hplace, hthere⟩ := h i hi
  rw [getLsbD_permute hi hplace hback, getLsbD_permute hplace _ hthere]
  · congr 1
    omega
  · omega

/-- The final permutation undoes the initial one. -/
lemma finalPermutation_undoes : Undoes finalPermutation initialPermutation := by decide +kernel

/-- The initial permutation undoes the final one. -/
lemma initialPermutation_undoes : Undoes initialPermutation finalPermutation := by decide +kernel

/-! ## Rotations -/

/-- The mask of a half of the key is 28 ones. -/
lemma mask_eq_ones : (0x0fffffff : UInt64) = ones 28 := by decide

/-- A rotated half of the key stays one of 28 bits. -/
lemma fitsIn_rotate28 (x n : UInt64) : FitsIn 28 (rotate28 x n) := by
  rw [rotate28, mask_eq_ones]
  exact fitsIn_and_ones _ 28

/-! ## Rounds -/

/-- The halves of a block in the opposite order. -/
def Halves.swap (h : Halves) : Halves := ⟨h.right, h.left⟩

/-- A round is undone by the same round with the halves exchanged. -/
lemma round_swap_round (h : Halves) (key : UInt64) : round (round h key).swap key = h.swap := by
  simp only [round, Halves.swap, UInt32.xor_assoc, UInt32.xor_self, UInt32.xor_zero]

/-- Rounds are undone by the same rounds in the opposite order. -/
lemma foldl_round_reverse (keys : List UInt64) (h : Halves) :
    keys.reverse.foldl round (keys.foldl round h).swap = h.swap := by
  induction keys generalizing h with
  | nil => rfl
  | cons key keys ih =>
    rw [List.reverse_cons, List.foldl_append]
    calc round (keys.reverse.foldl round (keys.foldl round (round h key)).swap) key
        = round (round h key).swap key := by rw [ih]
      _ = h.swap := round_swap_round h key

/-- What is put together is split in the opposite order. -/
lemma split_join (h : Halves) : split (join h) = h.swap := by
  simp only [split, join, permute_permute initialPermutation_undoes, Bytes.high_join,
    Bytes.low_join]
  rfl

/-- The halves of a block, exchanged and joined, are the block. -/
lemma join_swap_split (block : UInt64) : join (split block).swap = block := by
  simp only [split, join, Halves.swap, Bytes.join_halves, permute_permute finalPermutation_undoes]

/-- A block is decrypted by the keys in the opposite order. -/
lemma crypt_reverse_crypt (keys : List UInt64) (block : UInt64) :
    crypt keys.reverse (crypt keys block) = block := by
  rw [crypt, crypt, split_join, foldl_round_reverse, join_swap_split]

/-! ## Blocks -/

variable {keys : List UInt64} {block : Bytes}

/-- Decryption undoes encryption under any round keys. -/
lemma decryptBlock_encryptBlock (h : block.length = 8) :
    decryptBlock keys (encryptBlock keys block) = block := by
  rw [decryptBlock, encryptBlock, Bytes.toWord64BE_ofWord64BE, crypt_reverse_crypt,
    Bytes.ofWord64BE_toWord64BE h]

/-- Encryption undoes decryption under any round keys. -/
lemma encryptBlock_decryptBlock (h : block.length = 8) :
    encryptBlock keys (decryptBlock keys block) = block := by
  have hcrypt := crypt_reverse_crypt keys.reverse (Bytes.toWord64BE block)
  rw [List.reverse_reverse] at hcrypt
  rw [decryptBlock, encryptBlock, Bytes.toWord64BE_ofWord64BE, hcrypt,
    Bytes.ofWord64BE_toWord64BE h]

/-- Under any list of round keys DES is invertible in both orders. -/
lemma invertible (keys : List UInt64) : (cipherOf keys).Invertible where
  decrypt_encrypt h := decryptBlock_encryptBlock h
  encrypt_decrypt h := encryptBlock_decryptBlock h

end Des

/-- Triple DES is invertible, layer by layer. -/
lemma TripleDes.invertible (keys : Layers (List UInt64)) : (cipherOf keys).Invertible where
  decrypt_encrypt {block} h := by
    show Des.decryptBlock _ (Des.encryptBlock _ (Des.decryptBlock _ (Des.encryptBlock _
      (Des.decryptBlock _ (Des.encryptBlock _ block))))) = block
    rw [Des.decryptBlock_encryptBlock rfl, Des.encryptBlock_decryptBlock rfl,
      Des.decryptBlock_encryptBlock h]
  encrypt_decrypt {block} h := by
    show Des.encryptBlock _ (Des.decryptBlock _ (Des.encryptBlock _ (Des.decryptBlock _
      (Des.encryptBlock _ (Des.decryptBlock _ block))))) = block
    rw [Des.encryptBlock_decryptBlock rfl, Des.decryptBlock_encryptBlock rfl,
      Des.encryptBlock_decryptBlock h]

end SymmetricCipher
