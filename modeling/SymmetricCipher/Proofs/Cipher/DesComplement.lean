import SymmetricCipher.Proofs.Cipher.Des
import SymmetricCipher.Proofs.Key

/-!
# The complementation property of DES

The complement of a block, encrypted under the complement of the key, is the complement of the
ciphertext. Permutations of bits and, on the halves of a key, rotations are linear: they commute
with the exclusive or of words. A complement is the exclusive or with a word of ones, and each table
takes a word of ones to a word of ones. So every round key of a complemented key is complemented,
which cancels with the complement of the half that it masks, and a round only sees complements in
the half that it masks last.
-/

namespace SymmetricCipher

open Word

/-! ## Complements of byte strings -/

namespace Bytes

/-- A byte string with all its bits changed. -/
def complement (data : Bytes) : Bytes := data.map (~~~ ·)

/-- A complement has as many bytes. -/
@[simp] lemma length_complement (data : Bytes) : data.complement.length = data.length :=
  List.length_map _

/-- The bytes of a complemented word are the complements of its bytes. -/
lemma ofWord64BE_not (w : UInt64) : ofWord64BE (~~~w) = complement (ofWord64BE w) := by
  simp (disch := decide) only [ofWord64BE, complement, List.map, not_shiftRight_toUInt8,
    UInt64.toUInt8_not]

/-- The word of complemented bytes is the complement of their word. -/
lemma toWord64BE_complement {block : Bytes} (h : block.length = 8) :
    toWord64BE block.complement = ~~~toWord64BE block := by
  calc toWord64BE block.complement
      = toWord64BE (complement (ofWord64BE (toWord64BE block))) := by rw [ofWord64BE_toWord64BE h]
    _ = toWord64BE (ofWord64BE (~~~toWord64BE block)) := by rw [ofWord64BE_not]
    _ = ~~~toWord64BE block := toWord64BE_ofWord64BE _

end Bytes

/-! ## Linearity -/

namespace Des

/-- A permutation of bits is linear, since each bit of its result is one of its input. -/
lemma permute_xor (x y : UInt64) (width : Nat) (table : List Nat) :
    permute (x ^^^ y) width table = permute x width table ^^^ permute y width table := by
  induction table using List.reverseRecOn with
  | nil => exact UInt64.xor_self.symm
  | append_singleton table place ih =>
    have hjoin (w v : UInt64) :
        (w <<< 1) ||| (v &&& (1 : UInt64)) = (w <<< 1) ^^^ (v &&& (1 : UInt64)) :=
      shiftLeft_or w (by decide) rfl (fitsIn_and_ones v 1)
    rw [permute_concat, permute_concat, permute_concat, ih, hjoin, hjoin, hjoin,
      UInt64.shiftLeft_xor, UInt64.shiftRight_xor, xor_and, xor_xor_xor_comm]

variable {c d c' d' n : UInt64}

/-- The rotation of a half of the key is linear. -/
lemma rotate28_xor (hc : FitsIn 28 c) (hd : FitsIn 28 d) (hn : n.toNat ≤ 28) :
    rotate28 (c ^^^ d) n = rotate28 c n ^^^ rotate28 d n := by
  have hback : (28 - n).toNat = 28 - n.toNat := UInt64.toNat_sub_of_le 28 n hn
  have hjoin {x : UInt64} (hx : FitsIn 28 x) :
      (x <<< n) ||| (x >>> (28 - n)) = (x <<< n) ^^^ (x >>> (28 - n)) :=
    shiftLeft_or x (by omega) rfl (hx.shiftRight (by omega) (by omega))
  rw [rotate28, rotate28, rotate28, hjoin (hc.xor hd), hjoin hc, hjoin hd,
    UInt64.shiftLeft_xor, UInt64.shiftRight_xor, ← xor_and, xor_xor_xor_comm]

/-- Joining two halves is linear. -/
lemma joinHalves_xor (hd : FitsIn 28 d) (hd' : FitsIn 28 d') :
    ((c ^^^ c') <<< 28) ||| (d ^^^ d') = ((c <<< 28) ||| d) ^^^ ((c' <<< 28) ||| d') := by
  have hjoin {x y : UInt64} (hy : FitsIn 28 y) : (x <<< 28) ||| y = (x <<< 28) ^^^ y :=
    shiftLeft_or x (by decide) rfl hy
  rw [hjoin (hd.xor hd'), hjoin hd, hjoin hd', UInt64.shiftLeft_xor, xor_xor_xor_comm]

/-! ## Words of ones -/

/-- The initial permutation takes a word of ones to a word of ones. -/
lemma permute_ones_initialPermutation : permute (ones 64) 64 initialPermutation = ones 64 := by
  decide +kernel

/-- The expansion of a half takes ones to ones. -/
lemma permute_ones_expansion : permute (ones 32) 32 expansion = ones 48 := by decide +kernel

/-- The choice of the key bits takes ones to ones. -/
lemma permute_ones_keyChoice : permute (ones 64) 64 keyChoice = ones 56 := by decide +kernel

/-- The choice of the bits of a round key takes ones to ones. -/
lemma permute_ones_roundKeyChoice :
    permute ((ones 28 <<< 28) ||| ones 28) 56 roundKeyChoice = ones 48 := by
  decide +kernel

/-- Every rotation of the schedule is short enough to be one, and leaves a half of ones as it is. -/
lemma rotate28_ones : ∀ n ∈ rotations, n.toNat ≤ 28 ∧ rotate28 (ones 28) n = ones 28 := by
  have hall : rotations.all fun n => n.toNat ≤ 28 ∧ rotate28 (ones 28) n = ones 28 := by
    decide +kernel
  intro n hn
  exact of_decide_eq_true (List.all_eq_true.1 hall n hn)

/-! ## The key schedule -/

/-- The round keys of a complemented key. -/
def complementKeys (keys : List UInt64) : List UInt64 := keys.map (· ^^^ ones 48)

/-- Halves that are complemented give complemented round keys, rotation by rotation. -/
lemma roundKeysFrom_xor_ones {rotations : List UInt64} {c d : UInt64}
    (h : ∀ n ∈ rotations, n.toNat ≤ 28 ∧ rotate28 (ones 28) n = ones 28)
    (hc : FitsIn 28 c) (hd : FitsIn 28 d) :
    roundKeysFrom rotations (c ^^^ ones 28) (d ^^^ ones 28) =
      complementKeys (roundKeysFrom rotations c d) := by
  induction rotations generalizing c d with
  | nil => rfl
  | cons n rotations ih =>
    obtain ⟨hn, hones⟩ := h n List.mem_cons_self
    have hrest := ih (fun m hm => h m (List.mem_cons_of_mem n hm)) (fitsIn_rotate28 c n)
      (fitsIn_rotate28 d n)
    rw [roundKeysFrom, rotate28_xor hc (fitsIn_ones 28) hn, rotate28_xor hd (fitsIn_ones 28) hn,
      hones, joinHalves_xor (fitsIn_rotate28 d n) (fitsIn_ones 28), permute_xor,
      permute_ones_roundKeyChoice, hrest]
    rfl

/-- The round keys of a complemented key are the complements of its round keys. -/
lemma roundKeys_complement {key : Bytes} (h : key.length = 8) :
    roundKeys key.complement = complementKeys (roundKeys key) := by
  rw [roundKeys, Bytes.toWord64BE_complement h, not_eq_xor_ones, permute_xor,
    permute_ones_keyChoice]
  simp only [UInt64.shiftRight_xor, xor_and, mask_eq_ones]
  have hchosen := fitsIn_permute (Bytes.toWord64BE key) 64 keyChoice
  exact roundKeysFrom_xor_ones rotate28_ones (hchosen.shiftRight (by decide) (by decide))
    (fitsIn_and_ones _ 28)

/-! ## Rounds -/

/-- Both halves of a block with all their bits changed. -/
def Halves.complement (h : Halves) : Halves := ⟨~~~h.left, ~~~h.right⟩

/-- The round function does not see a complement of both its inputs, since they cancel in its
mask. -/
lemma roundFunction_complement (half : UInt32) (key : UInt64) :
    roundFunction (~~~half) (key ^^^ ones 48) = roundFunction half key := by
  -- the complements of the expanded half and of the key cancel
  have hmasked (x : UInt64) : (x ^^^ ones 48) ^^^ (key ^^^ ones 48) = x ^^^ key := by
    rw [xor_xor_xor_comm, UInt64.xor_self, UInt64.xor_zero]
  rw [roundFunction, roundFunction, toUInt64_not, permute_xor, permute_ones_expansion, hmasked]

/-- A round takes complements to complements. -/
lemma round_complement (h : Halves) (key : UInt64) :
    round h.complement (key ^^^ ones 48) = (round h key).complement := by
  simp only [round, Halves.complement, roundFunction_complement, UInt32.not_xor]

/-- By induction, so do all rounds. -/
lemma foldl_round_complement (keys : List UInt64) (h : Halves) :
    (complementKeys keys).foldl round h.complement = (keys.foldl round h).complement := by
  induction keys generalizing h with
  | nil => rfl
  | cons key keys ih =>
    show (complementKeys keys).foldl round (round h.complement (key ^^^ ones 48)) = _
    rw [round_complement, ih]
    rfl

/-- The halves of a complemented block are complemented. -/
lemma split_not (block : UInt64) : split (~~~block) = (split block).complement := by
  have hhigh : (ones 64 >>> 32).toUInt32 = -1 := by decide
  have hlow : (ones 64).toUInt32 = -1 := by decide
  simp only [split, Halves.complement, not_eq_xor_ones block, permute_xor,
    permute_ones_initialPermutation, UInt64.shiftRight_xor, UInt64.toUInt32_xor, hhigh, hlow,
    UInt32.xor_neg_one]

/-- Complemented halves are joined to a complemented block. -/
lemma join_complement (h : Halves) : join h.complement = ~~~join h := by
  have hsplit : h.complement = (split (~~~join h)).swap := by
    rw [split_not, split_join]
    rfl
  rw [hsplit, join_swap_split]

/-- A block goes through all rounds as its complement does under complemented round keys. -/
lemma crypt_complement (keys : List UInt64) (block : UInt64) :
    crypt (complementKeys keys) (~~~block) = ~~~crypt keys block := by
  rw [crypt, crypt, split_not, foldl_round_complement, join_complement]

variable {block : Bytes}

/-- Complemented round keys encrypt a complemented block to the complement. -/
lemma encryptBlock_complement (keys : List UInt64) (h : block.length = 8) :
    encryptBlock (complementKeys keys) block.complement = (encryptBlock keys block).complement := by
  rw [encryptBlock, encryptBlock, Bytes.toWord64BE_complement h, crypt_complement,
    Bytes.ofWord64BE_not]

/-- Complemented round keys decrypt a complemented block to the complement. -/
lemma decryptBlock_complement (keys : List UInt64) (h : block.length = 8) :
    decryptBlock (complementKeys keys) block.complement = (decryptBlock keys block).complement := by
  have hreverse : (complementKeys keys).reverse = complementKeys keys.reverse :=
    List.map_reverse.symm
  rw [decryptBlock, decryptBlock, Bytes.toWord64BE_complement h, hreverse, crypt_complement,
    Bytes.ofWord64BE_not]

end Des

/-! ## Ciphers -/

/-- The second cipher takes the complement of a block to the complement of what the first one takes
the block to. -/
structure BlockCipher.Complements (c c' : BlockCipher) : Prop where
  blockSize : c'.blockSize = c.blockSize
  onBlock : ∀ (direction : Direction) (block : Bytes), block.length = c.blockSize →
    c'.onBlock direction block.complement = (c.onBlock direction block).complement

/-- DES under complemented round keys complements DES, in both directions. -/
lemma Des.complements (keys : List UInt64) :
    (cipherOf keys).Complements (cipherOf (complementKeys keys)) where
  blockSize := rfl
  onBlock direction block h := by
    cases direction with
    | encrypt => exact encryptBlock_complement keys h
    | decrypt => exact decryptBlock_complement keys h

namespace TripleDes

/-- Triple DES under complemented keys complements Triple DES, as its three layers do. -/
lemma complements (keys : Layers (List UInt64)) :
    (cipherOf keys).Complements (cipherOf (keys.map Des.complementKeys)) where
  blockSize := rfl
  onBlock direction block h := by
    obtain ⟨first, second, third⟩ := keys
    cases direction with
    | encrypt =>
      show Des.encryptBlock (Des.complementKeys third) (Des.decryptBlock (Des.complementKeys second)
        (Des.encryptBlock (Des.complementKeys first) block.complement)) = _
      rw [Des.encryptBlock_complement _ h, Des.decryptBlock_complement _ rfl,
        Des.encryptBlock_complement _ rfl]
      rfl
    | decrypt =>
      show Des.decryptBlock (Des.complementKeys first) (Des.encryptBlock (Des.complementKeys second)
        (Des.decryptBlock (Des.complementKeys third) block.complement)) = _
      rw [Des.decryptBlock_complement _ h, Des.encryptBlock_complement _ rfl,
        Des.decryptBlock_complement _ rfl]
      rfl

/-- A key is expanded as its complement is, by the same copies. -/
lemma expandKey_complement {algorithm : Algorithm} {key expanded : Bytes}
    (h : expandKey algorithm key = .ok expanded) :
    expandKey algorithm key.complement = .ok expanded.complement := by
  rw [expandKey_eq_ok_iff, Bytes.length_complement]
  obtain ⟨hlen, rfl⟩ | ⟨hlen, rfl⟩ | ⟨hlen, rfl⟩ := expandKey_eq_ok_iff.1 h
  · refine .inl ⟨hlen, ?_⟩
    simp only [Bytes.complement, List.map_append]
  · refine .inr (.inl ⟨hlen, ?_⟩)
    simp only [Bytes.complement, List.map_append, List.map_take]
  · exact .inr (.inr ⟨hlen, rfl⟩)

/-- The three schedules of a complemented key are complemented. -/
lemma schedules_complement {expanded : Bytes} (h : expanded.length = 24) :
    schedules expanded.complement = (schedules expanded).map Des.complementKeys := by
  have hpart {part : Bytes} (hpart : part.length = 8) := Des.roundKeys_complement hpart
  simp only [schedules, Layers.map]
  rw [← hpart (by simp [h]), ← hpart (by simp [h]), ← hpart (by simp [h])]
  simp [Bytes.complement]

end TripleDes

/-- For every key and every block, DES and Triple DES take the complement of the block under the
complement of the key to the complement of what they take the block to, in both directions. -/
theorem des_complementation :
    (∀ key : Bytes, key.length = 8 → ∃ c c', Des.cipher key = .ok c ∧
      Des.cipher key.complement = .ok c' ∧ c.blockSize = 8 ∧ c.Complements c') ∧
    (∀ key : Bytes, key.length = 8 ∨ key.length = 16 ∨ key.length = 24 → ∃ c c',
      TripleDes.cipher key = .ok c ∧ TripleDes.cipher key.complement = .ok c' ∧
      c.blockSize = 8 ∧ c.Complements c') := by
  constructor
  · intro key h
    refine ⟨_, _, if_pos h, if_pos (by simpa using h), rfl, ?_⟩
    rw [Des.roundKeys_complement h]
    exact Des.complements _
  · intro key h
    obtain ⟨expanded, hexpanded⟩ := Algorithm.expandKey_ok .tripleDes h
    have hschedules := TripleDes.schedules_complement (Algorithm.length_expandKey hexpanded)
    refine ⟨_, _, ?_, ?_, ?_, TripleDes.complements (TripleDes.schedules expanded)⟩
    · rw [TripleDes.cipher, hexpanded]
    · rw [TripleDes.cipher, TripleDes.expandKey_complement hexpanded, ← hschedules]
    · rfl

/-- The textbook key and block, complemented, for DES and for Triple DES with that key thrice. -/
theorem des_complementation_textbook :
    let key : Bytes := [0x13, 0x34, 0x57, 0x79, 0x9b, 0xbc, 0xdf, 0xf1]
    let block : Bytes := [0x01, 0x23, 0x45, 0x67, 0x89, 0xab, 0xcd, 0xef]
    let output : Bytes := [0x85, 0xe8, 0x13, 0x54, 0x0f, 0x0a, 0xb4, 0x05]
    (∃ c, Des.cipher key.complement = .ok c ∧
      c.onBlock .encrypt block.complement = output.complement) ∧
    ∃ c, TripleDes.cipher key.complement = .ok c ∧
      c.onBlock .decrypt output.complement = block.complement := by
  intro key block output
  constructor
  · obtain ⟨c, c', hc, hc', hsize, h⟩ := des_complementation.1 key rfl
    refine ⟨c', hc', ?_⟩
    have hblock : c.onBlock .encrypt block = output := by
      cases hc
      decide +kernel
    rw [h.onBlock .encrypt block hsize.symm, hblock]
  · obtain ⟨c, c', hc, hc', hsize, h⟩ := des_complementation.2 key (.inl rfl)
    refine ⟨c', hc', ?_⟩
    have hblock : c.onBlock .decrypt output = block := by
      cases hc
      decide +kernel
    rw [h.onBlock .decrypt output hsize.symm, hblock]

end SymmetricCipher
