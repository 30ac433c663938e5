import Mathlib.Algebra.Group.Nat.Defs
import Mathlib.Tactic.Lemma
import SymmetricCipher.Bytes.Word

/-!
# Words by their bits

A word of 64 bits is what its bits are, and the operations on words are told by what they do to
bits. A word may have fewer bits that can be set (`FitsIn`): shifts move this bound, and words that
fit in different places are joined by an exclusive or.
-/

namespace SymmetricCipher.Word

/-- The bit of a word at a place that counts from its least significant one. -/
def bit (x : UInt64) (i : Nat) : Bool := x.toBitVec.getLsbD i

/-- The word whose `width` low bits are set. -/
def ones (width : Nat) : UInt64 := .ofBitVec ((BitVec.allOnes width).setWidth 64)

/-- Only the `width` low bits of a word may be set. -/
def FitsIn (width : Nat) (x : UInt64) : Prop := ∀ i, width ≤ i → bit x i = false

variable {x y k : UInt64} {i width : Nat}

/-- Words with the same bits are the same. -/
lemma eq_of_bit_eq (h : ∀ i < 64, bit x i = bit y i) : x = y := by
  apply UInt64.eq_of_toBitVec_eq
  exact BitVec.eq_of_getLsbD_eq h

/-- A word of ones has the bits below its width. -/
@[simp] lemma bit_ones (width i : Nat) :
    bit (ones width) i = (decide (i < 64) && decide (i < width)) := by
  simp [bit, ones]

/-- The bits of an exclusive or are the exclusive ors of the bits. -/
@[simp] lemma bit_xor (x y : UInt64) (i : Nat) : bit (x ^^^ y) i = (bit x i ^^ bit y i) := by
  simp [bit]

/-- The bits of an intersection are the intersections of the bits. -/
@[simp] lemma bit_and (x y : UInt64) (i : Nat) : bit (x &&& y) i = (bit x i && bit y i) := by
  simp [bit]

/-- The bits of a union are the unions of the bits. -/
@[simp] lemma bit_or (x y : UInt64) (i : Nat) : bit (x ||| y) i = (bit x i || bit y i) := by
  simp [bit]

/-- A shift to the left moves bits up, and brings in zeros from below. -/
lemma bit_shiftLeft (x : UInt64) (hk : k.toNat < 64) (hi : i < 64) :
    bit (x <<< k) i = (decide (k.toNat ≤ i) && bit x (i - k.toNat)) := by
  have hmod : k.toNat % 64 = k.toNat := Nat.mod_eq_of_lt hk
  have hshift : (x <<< k).toBitVec = x.toBitVec <<< k.toNat := by
    rw [← hmod]
    exact UInt64.toBitVec_shiftLeft x k
  rw [bit, hshift, BitVec.getLsbD_shiftLeft]
  by_cases hle : k.toNat ≤ i
  · simp [bit, hi, hle, Nat.not_lt.mpr hle]
  · simp [hle, Nat.lt_of_not_le hle]

/-- A shift to the right moves bits down. -/
lemma bit_shiftRight (x : UInt64) (hk : k.toNat < 64) (i : Nat) :
    bit (x >>> k) i = bit x (k.toNat + i) := by
  have hmod : k.toNat % 64 = k.toNat := Nat.mod_eq_of_lt hk
  simp [bit, hmod]

/-- A mask of ones keeps the bits below its width. -/
lemma bit_and_ones (hwidth : width ≤ 64) (hi : i < width) :
    bit (x &&& ones width) i = bit x i := by
  rw [bit_and, bit_ones, decide_eq_true hi, decide_eq_true (show i < 64 by omega), Bool.and_self,
    Bool.and_true]

/-! ## Words of a width -/

/-- A masked word has the width of its mask. -/
lemma fitsIn_and_ones (x : UInt64) (width : Nat) : FitsIn width (x &&& ones width) := by
  intro i hi
  simp [Nat.not_lt.mpr hi]

/-- A word of ones has the width that it is made with. -/
lemma fitsIn_ones (width : Nat) : FitsIn width (ones width) := by
  intro i hi
  simp [Nat.not_lt.mpr hi]

/-- A word of some width is a number of as many binary digits. -/
lemma FitsIn.toNat_lt (h : FitsIn width x) : x.toNat < 2 ^ width :=
  Nat.lt_pow_two_of_testBit _ h

/-- Words of one width are told by the bits below it. -/
lemma FitsIn.eq_of_bit_eq (hx : FitsIn width x) (hy : FitsIn width y)
    (h : ∀ i < width, bit x i = bit y i) : x = y := by
  apply Word.eq_of_bit_eq
  intro i _
  by_cases hi : i < width
  · exact h i hi
  · rw [hx i (Nat.le_of_not_lt hi), hy i (Nat.le_of_not_lt hi)]

/-- The exclusive or of two words of one width is of that width. -/
lemma FitsIn.xor (hx : FitsIn width x) (hy : FitsIn width y) : FitsIn width (x ^^^ y) := by
  intro i hi
  simp [hx i hi, hy i hi]

/-- A shift to the right narrows a word. -/
lemma FitsIn.shiftRight {n : Nat} (hx : FitsIn width x) (hk : k.toNat < 64)
    (h : width ≤ k.toNat + n) : FitsIn n (x >>> k) := by
  intro i hi
  rw [bit_shiftRight x hk]
  exact hx _ (by omega)

/-- A word that is shifted over another one is as wide as both together. -/
lemma FitsIn.shiftLeft_or (hx : FitsIn width x) (hk : k.toNat < 64) (hy : FitsIn k.toNat y) :
    FitsIn (width + k.toNat) ((x <<< k) ||| y) := by
  intro i hi
  by_cases h64 : i < 64
  · rw [bit_or, bit_shiftLeft x hk h64, hx (i - k.toNat) (by omega), hy i (by omega)]
    simp
  · exact BitVec.getLsbD_of_ge _ _ (Nat.le_of_not_lt h64)

/-! ## Exclusive or -/

/-- Bits that are moved out of the way of others are joined to them by an exclusive or. -/
lemma shiftLeft_or (x : UInt64) (hk : k.toNat < 64) (hwidth : width = k.toNat)
    (hy : FitsIn width y) : (x <<< k) ||| y = (x <<< k) ^^^ y := by
  subst hwidth
  apply eq_of_bit_eq
  intro i hi
  rw [bit_or, bit_xor, bit_shiftLeft x hk hi]
  by_cases hle : k.toNat ≤ i
  · simp [hy i hle]
  · simp [hle]

/-- Exclusive ors can be regrouped in pairs. -/
lemma xor_xor_xor_comm (a b c d : UInt64) : (a ^^^ b) ^^^ (c ^^^ d) = (a ^^^ c) ^^^ (b ^^^ d) := by
  ac_rfl

/-- A mask is linear. -/
lemma xor_and (x y mask : UInt64) : (x ^^^ y) &&& mask = (x &&& mask) ^^^ (y &&& mask) := by
  apply eq_of_bit_eq
  intro i _
  simp [Bool.and_xor_distrib_right]

/-- A complement is the exclusive or with a word of ones. -/
lemma not_eq_xor_ones (x : UInt64) : ~~~x = x ^^^ ones 64 := by
  rw [show ones 64 = -1 by decide, UInt64.xor_neg_one]

/-- A complement of 32 bits is the exclusive or with 32 ones, in the wider word. -/
lemma toUInt64_not (x : UInt32) : (~~~x).toUInt64 = x.toUInt64 ^^^ ones 32 := by
  rw [← UInt32.xor_neg_one, UInt32.toUInt64_xor]
  rfl

/-- A byte of a complemented word is complemented, wherever all of it lies in the word. -/
lemma not_shiftRight_toUInt8 (x : UInt64) (h : (ones 64 >>> k).toUInt8 = -1) :
    (~~~x >>> k).toUInt8 = ~~~(x >>> k).toUInt8 := by
  rw [not_eq_xor_ones, UInt64.shiftRight_xor, UInt64.toUInt8_xor, h, UInt8.xor_neg_one]

end SymmetricCipher.Word
