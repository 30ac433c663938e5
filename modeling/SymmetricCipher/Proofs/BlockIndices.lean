import SymmetricCipher.Proofs.Pbkdf2

/-!
# Blocks that can be numbered

Every block of a PBKDF2 key is encoded with an index, its number counted from one, in a word of 32
bits. The place of a block counts from zero: it is taken as a word first, and then one is added to
the word. As far as the standard lets keys go, nothing is lost on the way (`numbersBlocks_iff`). The
standard refuses longer keys, and the library does not. The indices of their blocks are the numbers
modulo the size of the word, of which zero is the first wrong one.
-/

namespace SymmetricCipher

namespace PasswordKey

variable {hash : Hash} {length i iterations : Nat}

/-- The indices that the blocks of a key are encoded with, in order. -/
def blockIndices (hash : Hash) (length : Nat) : List UInt32 :=
  (List.range (blockCount hash length)).map blockIndex

/-- The word has room for a place, and for counting on from it. -/
structure HasRoom (i : Nat) : Prop where
  place : (UInt32.ofNat i).toNat = i
  next : (UInt32.ofNat i).toNat + 1 < UInt32.size

/-- The blocks of a key have their numbers for indices, counted from one, and no number is cut off
or carried out of the word. -/
structure NumbersBlocks (hash : Hash) (length : Nat) : Prop where
  indices : (blockIndices hash length).map UInt32.toNat = List.range' 1 (blockCount hash length)
  hasRoom : ∀ i < blockCount hash length, HasRoom i

/-! ## One block -/

/-- As a number, an index is counted from one and starts again after the greatest word. -/
lemma toNat_blockIndex_eq_mod (i : Nat) : (blockIndex i).toNat = (i + 1) % UInt32.size := by
  rw [blockIndex, UInt32.toNat_add, UInt32.toNat_ofNat']
  exact Nat.mod_add_mod i UInt32.size 1

/-- The greatest number of a word is a place that there is room for, but not for counting on. -/
lemma hasRoom_iff : HasRoom i ↔ i < maxBlocks := by
  have hsize : UInt32.size = maxBlocks + 1 := rfl
  constructor
  · intro h
    have hnext := h.next
    rw [h.place] at hnext
    omega
  · intro h
    have hplace : (UInt32.ofNat i).toNat = i := by
      rw [UInt32.toNat_ofNat']
      exact Nat.mod_eq_of_lt (Nat.lt_succ_of_lt h)
    refine ⟨hplace, ?_⟩
    rw [hplace]
    omega

/-- After the greatest index there is no room for another. -/
lemma not_hasRoom_maxBlocks : ¬ HasRoom maxBlocks := fun h => Nat.lt_irrefl _ (hasRoom_iff.1 h)

/-! ## All blocks of a key -/

/-- The blocks of a key are those with its indices. -/
lemma pbkdf2_eq_blockIndices (hc : iterations ≠ 0) (password salt : Bytes) (hash : Hash)
    (length : Nat) :
    pbkdf2 password salt hash iterations length =
      .ok (((blockIndices hash length).flatMap
        (pbkdf2Block (hash.hmac password) salt iterations)).take length) := by
  rw [pbkdf2_eq hc, pbkdf2Blocks, blockIndices, List.flatMap_map]

/-- The indices of a derivation are the numbers from one on, cut to words. -/
lemma map_toNat_blockIndices (hash : Hash) (length : Nat) :
    (blockIndices hash length).map UInt32.toNat =
      (List.range' 1 (blockCount hash length)).map (· % UInt32.size) := by
  rw [blockIndices, List.range'_eq_map_range, List.map_map, List.map_map]
  refine List.map_congr_left fun i _ => ?_
  rw [Function.comp_apply, Function.comp_apply, toNat_blockIndex_eq_mod, Nat.add_comm]

/-- The blocks are numbered in order up to the greatest index, and no further. -/
lemma numbersBlocks_iff : NumbersBlocks hash length ↔ length ≤ maxBlocks * hash.outputSize := by
  rw [← blockCount_le_iff]
  constructor
  · intro h
    by_contra hlt
    exact not_hasRoom_maxBlocks (h.hasRoom maxBlocks (Nat.not_le.1 hlt))
  · intro hle
    have hlt {i : Nat} (hi : i < blockCount hash length) : i < maxBlocks :=
      Nat.lt_of_lt_of_le hi hle
    refine ⟨?_, fun i hi => hasRoom_iff.2 (hlt hi)⟩
    rw [blockIndices, List.range'_eq_map_range, List.map_map]
    refine List.map_congr_left fun i hi => ?_
    rw [Function.comp_apply, toNat_blockIndex (hlt (List.mem_range.1 hi)), Nat.add_comm]

/-- The first block that cannot be numbered comes as block zero, which the standard does not
have. -/
lemma getElem?_blockIndices_maxBlocks (h : maxBlocks * hash.outputSize < length) :
    (blockIndices hash length)[maxBlocks]? = some 0 := by
  have hlt : maxBlocks < blockCount hash length := by
    rw [← Nat.not_le, blockCount_le_iff]
    exact Nat.not_le.2 h
  rw [blockIndices, List.getElem?_map, List.getElem?_range hlt]
  rfl

/-- No length is refused. -/
lemma tooLong_or_numbersBlocks_iff (hc : iterations ≠ 0) (password salt : Bytes) :
    (∃ requested max, pbkdf2 password salt hash iterations length =
        .error (.derivedKeyTooLong requested max)) ∨ NumbersBlocks hash length ↔
      length ≤ maxBlocks * hash.outputSize := by
  rw [← numbersBlocks_iff]
  refine ⟨?_, .inr⟩
  rintro (⟨requested, max, herror⟩ | h)
  · rw [pbkdf2_eq hc] at herror
    cases herror
  · exact h

/-! ## Main result -/

/-- A key is refused for its length, or has blocks with their numbers for indices, exactly if it is
no longer than the standard lets keys be. The indices are the numbers modulo the size of the word.
In a key that is too long, the first block for which there is no room is the one after the last one
that the standard has, and comes as block zero. -/
theorem pbkdf2_numbers_blocks (password salt : Bytes) (hash : Hash) {iterations : Nat}
    (hc : iterations ≠ 0) (length : Nat) :
    ((∃ requested max, pbkdf2 password salt hash iterations length =
        .error (.derivedKeyTooLong requested max)) ∨ NumbersBlocks hash length ↔
      length ≤ maxBlocks * hash.outputSize) ∧
    pbkdf2 password salt hash iterations length =
      .ok (((blockIndices hash length).flatMap
        (pbkdf2Block (hash.hmac password) salt iterations)).take length) ∧
    (blockIndices hash length).map UInt32.toNat =
      (List.range' 1 (blockCount hash length)).map (· % UInt32.size) ∧
    (maxBlocks * hash.outputSize < length →
      (∀ i < maxBlocks, HasRoom i) ∧ ¬ HasRoom maxBlocks ∧
        (blockIndices hash length)[maxBlocks]? = some 0) := by
  refine ⟨tooLong_or_numbersBlocks_iff hc password salt,
    pbkdf2_eq_blockIndices hc password salt hash length, map_toNat_blockIndices hash length,
    fun h => ⟨?_, not_hasRoom_maxBlocks, getElem?_blockIndices_maxBlocks h⟩⟩
  exact fun i hi => hasRoom_iff.2 hi

/-- With MD5 the longest key of the standard has all of its blocks numbered. One more byte takes a
block that comes as block zero. -/
theorem pbkdf2_numbers_blocks_longest :
    1 ≠ 0 ∧ NumbersBlocks .md5 68719476720 ∧
    (blockIndices .md5 68719476721)[4294967295]? = some 0 := by
  have hlongest := pbkdf2_numbers_blocks [] [] .md5 (show 1 ≠ 0 by decide) 68719476720
  have hlonger := pbkdf2_numbers_blocks [] [] .md5 (show 1 ≠ 0 by decide) 68719476721
  refine ⟨by decide, ?_, (hlonger.2.2.2 (by decide)).2.2⟩
  rcases hlongest.1.2 (by decide) with ⟨requested, max, herror⟩ | h
  · rw [hlongest.2.1] at herror
    cases herror
  · exact h

/-- With MD5 a key with one byte more than the standard allows is not refused, and its last block
does not have its number for an index. The same goes for a quarter of the range of a machine
word. -/
theorem pbkdf2_overlong_md5 :
    (68719476721 ≤ Word.max64 ∧
      ¬ ((∃ requested max, pbkdf2 [] [] .md5 1 68719476721 =
          .error (.derivedKeyTooLong requested max)) ∨ NumbersBlocks .md5 68719476721)) ∧
    4611686018427387904 ≤ Word.max64 ∧
      ¬ ((∃ requested max, pbkdf2 [] [] .md5 1 4611686018427387904 =
          .error (.derivedKeyTooLong requested max)) ∨ NumbersBlocks .md5 4611686018427387904) := by
  have hc : 1 ≠ 0 := by decide
  refine ⟨⟨by decide, fun h => ?_⟩, by decide, fun h => ?_⟩
  · have hle := (tooLong_or_numbersBlocks_iff hc [] []).1 h
    exact absurd hle (by decide)
  · have hle := (tooLong_or_numbersBlocks_iff hc [] []).1 h
    exact absurd hle (by decide)

end PasswordKey

end SymmetricCipher
