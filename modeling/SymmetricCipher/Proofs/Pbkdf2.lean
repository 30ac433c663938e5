import SymmetricCipher.Proofs.Counter
import SymmetricCipher.Proofs.PasswordKey

/-!
# PBKDF2 as the standard has it

The standard names the codes `U₁, U₂, …` of a block and the blocks `T₁, T₂, …`, counts both from
one, and numbers the blocks in four bytes. The library counts blocks from zero in a word that may
wrap, and keeps the last code of a block with the exclusive or of all so far.
-/

namespace SymmetricCipher

/-- Zeros change nothing. -/
lemma Bytes.xor_zeros {n : Nat} {data : Bytes} (h : data.length = n) :
    xor (List.replicate n 0) data = data := by
  subst h
  induction data with
  | nil => rfl
  | cons byte data ih =>
    show (0 ^^^ byte) :: xor (List.replicate data.length 0) data = byte :: data
    rw [UInt8.zero_xor, ih]

/-- A word is written as the digits of its number. -/
lemma Bytes.ofWord32BE_eq_ofNumber (w : UInt32) : ofWord32BE w = ofNumber 4 w.toNat := by
  have hw := w.toNat_lt
  simp only [ofWord32BE, ofNumber, List.nil_append, List.cons_append, List.cons.injEq, and_true,
    ← UInt8.toNat_inj, UInt32.toNat_toUInt8, UInt32.toNat_shiftRight, UInt8.toNat_ofNat',
    Nat.shiftRight_eq_div_pow, UInt32.reduceToNat, Nat.reduceMod, Nat.reducePow]
  omega

namespace PasswordKey

namespace Standard

/-- Code `k` of block `i`. In the place of code zero stands what the first one is the code of, the
salt with the number of the block. -/
def code (prf : Bytes → Bytes) (salt : Bytes) (i : Nat) : Nat → Bytes
  | 0 => salt ++ Bytes.ofNumber 4 i
  | k + 1 => prf (code prf salt i k)

/-- Block `i`, of `n` bytes: the exclusive or of its codes, from the first one on. -/
def block (prf : Bytes → Bytes) (n : Nat) (salt : Bytes) (iterations i : Nat) : Bytes :=
  ((List.range' 1 iterations).map (code prf salt i)).foldl Bytes.xor (List.replicate n 0)

/-- The first blocks, one after the other. -/
def blocks (prf : Bytes → Bytes) (n : Nat) (salt : Bytes) (iterations count : Nat) : Bytes :=
  (List.range' 1 count).flatMap (block prf n salt iterations)

end Standard

/-- Block `i` has number `i + 1`, as long as the word does not wrap. -/
lemma toNat_blockIndex {i : Nat} (h : i < maxBlocks) : (blockIndex i).toNat = i + 1 := by
  have hi : i < 4294967295 := h
  rw [blockIndex, UInt32.toNat_add, UInt32.toNat_ofNat', show (1 : UInt32).toNat = 1 from rfl]
  omega

/-- The chain of a block takes in one code after the other. -/
lemma repeat_chainStep (prf : Bytes → Bytes) (salt : Bytes) (i links : Nat) :
    ∀ (k : Nat) (sum : Bytes),
      Nat.repeat (chainStep prf) links (Standard.code prf salt i k, sum) =
        (Standard.code prf salt i (k + links),
          ((List.range' (k + 1) links).map (Standard.code prf salt i)).foldl Bytes.xor sum) := by
  intro k sum
  induction links with
  | zero => rfl
  | succ links ih =>
    show chainStep prf (Nat.repeat (chainStep prf) links (Standard.code prf salt i k, sum)) = _
    rw [ih, List.range'_concat, List.map_append, List.foldl_append, Nat.one_mul,
      Nat.add_right_comm k 1 links]
    rfl

/-- A block whose number fits in 32 bits is the block `F` of the standard. -/
lemma pbkdf2Block_eq {prf : Bytes → Bytes} {n : Nat} (hprf : ∀ data, (prf data).length = n)
    (salt : Bytes) {iterations : Nat} (hc : iterations ≠ 0) {i : Nat} (hi : i < maxBlocks) :
    pbkdf2Block prf salt iterations (blockIndex i) =
      Standard.block prf n salt iterations (i + 1) := by
  obtain ⟨links, rfl⟩ := Nat.exists_eq_succ_of_ne_zero hc
  have hfirst : prf (salt ++ Bytes.ofWord32BE (blockIndex i)) =
      Standard.code prf salt (i + 1) 1 := by
    rw [Bytes.ofWord32BE_eq_ofNumber, toNat_blockIndex hi]
    rfl
  -- the first code is what the exclusive or with nothing gives
  have hstart : Bytes.xor (List.replicate n 0) (Standard.code prf salt (i + 1) 1) =
      Standard.code prf salt (i + 1) 1 := Bytes.xor_zeros (hprf _)
  rw [pbkdf2Block, hfirst, Nat.succ_sub_one, repeat_chainStep, Standard.block, List.range'_succ,
    List.map_cons, List.foldl_cons, hstart]

/-- Blocks that can be numbered are those of the standard. -/
lemma pbkdf2Blocks_eq (password salt : Bytes) (hash : Hash) {iterations : Nat} (hc : iterations ≠ 0)
    {count : Nat} (hcount : count ≤ maxBlocks) :
    pbkdf2Blocks password salt hash iterations count =
      Standard.blocks (hash.hmac password) hash.outputSize salt iterations count := by
  rw [pbkdf2Blocks, Standard.blocks, List.range'_eq_map_range, List.flatMap_map, List.flatMap_def,
    List.flatMap_def]
  refine congrArg List.flatten (List.map_congr_left fun i hi => ?_)
  have hlt : i < maxBlocks := Nat.lt_of_lt_of_le (List.mem_range.1 hi) hcount
  rw [pbkdf2Block_eq (hash.length_hmac password) salt hc hlt, Nat.add_comm 1 i]

/-- PBKDF2 gives the front of the blocks of the standard, of any number of them that holds the key,
and so a shorter key is the front of a longer one. -/
theorem pbkdf2_eq_standard (password salt : Bytes) (hash : Hash) {iterations length : Nat}
    (hc : iterations ≠ 0) (hl : length ≤ maxBlocks * hash.outputSize) :
    ∃ key, pbkdf2 password salt hash iterations length = .ok key ∧ key.length = length ∧
      (∀ count, length ≤ count * hash.outputSize → count ≤ maxBlocks →
        key = (Standard.blocks (hash.hmac password) hash.outputSize salt iterations count).take
          length) ∧
      ∀ shorter, shorter ≤ length →
        pbkdf2 password salt hash iterations shorter = .ok (key.take shorter) := by
  have hkey := pbkdf2_of_le hc password salt hl
  refine ⟨_, hkey, ?_, fun count hcount hle => ?_, fun shorter hs => ?_⟩
  · rw [List.length_take, length_pbkdf2Blocks, Nat.min_eq_left hl]
  · have hfront := pbkdf2_of_le hc password salt hcount
    rw [pbkdf2Blocks_eq password salt hash hc hle] at hfront
    exact Except.ok.inj (hkey.symm.trans hfront)
  · rw [List.take_take, Nat.min_eq_left hs]
    exact pbkdf2_of_le hc password salt (Nat.le_trans hs hl)

/-- With MD5 and three iterations, forty bytes take all of two blocks and half of a third one. -/
theorem pbkdf2_eq_standard_md5 :
    3 ≠ 0 ∧ 40 ≤ maxBlocks * Hash.md5.outputSize ∧
    ∃ key, pbkdf2 "password".toUTF8.toList "salt".toUTF8.toList .md5 3 40 = .ok key ∧
      (Standard.blocks (Hash.md5.hmac "password".toUTF8.toList) 16 "salt".toUTF8.toList 3 3).take
        40 = key ∧
      key = [0xf6, 0xac, 0xd4, 0xbd, 0xa3, 0xe4, 0xd3, 0xd8, 0x31, 0xa5, 0xf6, 0x1d, 0xa9, 0xca,
        0x9d, 0x5c, 0x38, 0x77, 0x56, 0x6e, 0x97, 0x9f, 0x49, 0x28, 0x77, 0x8d, 0x81, 0xbe, 0x4f,
        0x2e, 0x94, 0x33, 0xa3, 0x10, 0x43, 0xbb, 0xf3, 0x94, 0x5c, 0x35] := by
  have hl : 40 ≤ maxBlocks * Hash.md5.outputSize := by decide
  obtain ⟨key, hkey, -, hfront, -⟩ := pbkdf2_eq_standard "password".toUTF8.toList
    "salt".toUTF8.toList .md5 (show 3 ≠ 0 by decide) hl
  refine ⟨by decide, hl, key, hkey, (hfront 3 (by decide) (by decide)).symm, ?_⟩
  rw [← Except.ok.inj hkey]
  decide +kernel

end PasswordKey

end SymmetricCipher
