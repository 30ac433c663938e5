import Mathlib.Algebra.Group.Nat.Defs
import Mathlib.Tactic.Lemma
import SymmetricCipher.Bytes.Counter
import SymmetricCipher.Bytes.Word

/-!
# Words and their bytes

Reading a word from bytes and writing it as bytes undo each other, for the two kinds of words that
block ciphers use. Shifts and unions of words are sums of numbers where the bits do not overlap, and
the rest is arithmetic.
-/

namespace SymmetricCipher

namespace Bytes

/-! ## Words of 64 bits, most significant byte first -/

/-- A byte goes behind a word as a digit goes behind a number. -/
lemma toNat_shiftLeft_or (word : UInt64) (byte : UInt8) :
    ((word <<< 8) ||| byte.toUInt64).toNat = (word.toNat * 256 + byte.toNat) % 2 ^ 64 := by
  have hb := byte.toNat_lt
  have e : word.toNat <<< ((8 : UInt64).toNat % 64) % 2 ^ 64 = (word.toNat % 2 ^ 56) <<< 8 := by
    rw [show (8 : UInt64).toNat % 64 = 8 from rfl, Nat.shiftLeft_eq, Nat.shiftLeft_eq]
    omega
  rw [UInt64.toNat_or, UInt64.toNat_shiftLeft, UInt8.toNat_toUInt64, e,
    ← Nat.shiftLeft_add_eq_or_of_lt hb, Nat.shiftLeft_eq]
  omega

/-- The word that bytes spell is the number that they spell, as far as it fits. -/
lemma toNat_toWord64BE (bytes : Bytes) : (toWord64BE bytes).toNat = toNumber bytes % 2 ^ 64 := by
  have h (word : UInt64) (value : Nat) (e : word.toNat = value % 2 ^ 64) :
      (bytes.foldl (fun (word : UInt64) byte => (word <<< 8) ||| byte.toUInt64) word).toNat =
        bytes.foldl (fun value byte => value * 256 + byte.toNat) value % 2 ^ 64 := by
    induction bytes generalizing word value with
    | nil => exact e
    | cons byte bytes ih =>
      refine ih _ (value * 256 + byte.toNat) ?_
      rw [toNat_shiftLeft_or, e]
      omega
  exact h 0 0 rfl

/-- A word of 64 bits is read back from its bytes. -/
@[simp] lemma toWord64BE_ofWord64BE (w : UInt64) : toWord64BE (ofWord64BE w) = w := by
  have hw := w.toNat_lt
  rw [← UInt64.toNat_inj, toNat_toWord64BE]
  simp only [ofWord64BE, toNumber, List.foldl, UInt64.toNat_toUInt8, UInt64.toNat_shiftRight,
    Nat.shiftRight_eq_div_pow, UInt64.reduceToNat, Nat.reduceMod, Nat.reducePow]
  omega

/-- Eight bytes are written back from their word. -/
lemma ofWord64BE_toWord64BE {block : Bytes} (h : block.length = 8) :
    ofWord64BE (toWord64BE block) = block := by
  match block, h with
  | [b0, b1, b2, b3, b4, b5, b6, b7], _ =>
    have h0 := b0.toNat_lt
    have h1 := b1.toNat_lt
    have h2 := b2.toNat_lt
    have h3 := b3.toNat_lt
    have h4 := b4.toNat_lt
    have h5 := b5.toNat_lt
    have h6 := b6.toNat_lt
    have h7 := b7.toNat_lt
    simp only [ofWord64BE, List.cons.injEq, and_true, ← UInt8.toNat_inj, UInt64.toNat_toUInt8,
      UInt64.toNat_shiftRight, toNat_toWord64BE, toNumber, List.foldl, Nat.shiftRight_eq_div_pow,
      UInt64.reduceToNat, Nat.reduceMod, Nat.reducePow]
    omega

/-- Two words of 32 bits are joined to the number that has them as digits. -/
lemma toNat_join (high low : UInt32) :
    ((high.toUInt64 <<< 32) ||| low.toUInt64).toNat = high.toNat * 2 ^ 32 + low.toNat := by
  have hh := high.toNat_lt
  have hl := low.toNat_lt
  have e : high.toNat <<< ((32 : UInt64).toNat % 64) % 2 ^ 64 = high.toNat <<< 32 := by
    rw [show (32 : UInt64).toNat % 64 = 32 from rfl, Nat.shiftLeft_eq]
    omega
  rw [UInt64.toNat_or, UInt64.toNat_shiftLeft, UInt32.toNat_toUInt64, UInt32.toNat_toUInt64, e,
    ← Nat.shiftLeft_add_eq_or_of_lt hl, Nat.shiftLeft_eq]

/-- The high half of two joined words is the first one. -/
lemma high_join (high low : UInt32) :
    (((high.toUInt64 <<< 32) ||| low.toUInt64) >>> 32).toUInt32 = high := by
  have hh := high.toNat_lt
  have hl := low.toNat_lt
  rw [← UInt32.toNat_inj, UInt64.toNat_toUInt32, UInt64.toNat_shiftRight, toNat_join,
    Nat.shiftRight_eq_div_pow, show (32 : UInt64).toNat % 64 = 32 from rfl]
  omega

/-- The low half of two joined words is the second one. -/
lemma low_join (high low : UInt32) :
    ((high.toUInt64 <<< 32) ||| low.toUInt64).toUInt32 = low := by
  have hl := low.toNat_lt
  rw [← UInt32.toNat_inj, UInt64.toNat_toUInt32, toNat_join]
  omega

/-- A word of 64 bits is joined again from its halves. -/
lemma join_halves (w : UInt64) :
    (((w >>> 32).toUInt32.toUInt64 <<< 32) ||| w.toUInt32.toUInt64) = w := by
  have hw := w.toNat_lt
  rw [← UInt64.toNat_inj, toNat_join, UInt64.toNat_toUInt32, UInt64.toNat_toUInt32,
    UInt64.toNat_shiftRight, Nat.shiftRight_eq_div_pow, show (32 : UInt64).toNat % 64 = 32 from rfl]
  omega

/-! ## Words of 32 bits, least significant byte first -/

/-- Four bytes are put together to the number that has them as digits, the lowest first. -/
lemma toNat_word32LE (b0 b1 b2 b3 : UInt8) : (word32LE b0 b1 b2 b3).toNat =
    b0.toNat + b1.toNat * 2 ^ 8 + b2.toNat * 2 ^ 16 + b3.toNat * 2 ^ 24 := by
  have h0 := b0.toNat_lt
  have h1 := b1.toNat_lt
  have h2 := b2.toNat_lt
  have h3 := b3.toNat_lt
  -- each byte stands above all bytes before it
  have place {n : Nat} (k : Nat) (byte : UInt8) (hn : n < 2 ^ k) (hk : k ≤ 24) :
      n ||| (byte.toNat <<< k % 2 ^ 32) = n + byte.toNat * 2 ^ k := by
    have hb := byte.toNat_lt
    have hp : byte.toNat * 2 ^ k < 2 ^ 32 :=
      calc byte.toNat * 2 ^ k
          < 2 ^ 8 * 2 ^ 24 :=
            Nat.mul_lt_mul_of_lt_of_le hb (Nat.pow_le_pow_right (by decide) hk) (by decide)
        _ = 2 ^ 32 := by decide
    rw [Nat.shiftLeft_eq, Nat.mod_eq_of_lt hp, ← Nat.shiftLeft_eq, Nat.or_comm,
      ← Nat.shiftLeft_add_eq_or_of_lt hn, Nat.shiftLeft_eq, Nat.add_comm]
  simp only [word32LE, UInt32.toNat_or, UInt32.toNat_shiftLeft, UInt8.toNat_toUInt32,
    UInt32.reduceToNat]
  rw [place 8 b1 h0 (by decide), place 16 b2 (by omega) (by decide),
    place 24 b3 (by omega) (by decide)]

/-- A word of 32 bits is put together again from its bytes. -/
lemma word32LE_bytes (w : UInt32) :
    word32LE w.toUInt8 (w >>> 8).toUInt8 (w >>> 16).toUInt8 (w >>> 24).toUInt8 = w := by
  have hw := w.toNat_lt
  rw [← UInt32.toNat_inj, toNat_word32LE]
  simp only [UInt32.toNat_toUInt8, UInt32.toNat_shiftRight, Nat.shiftRight_eq_div_pow,
    UInt32.reduceToNat, Nat.reduceMod, Nat.reducePow]
  omega

/-- Four bytes are written back from their word. -/
lemma ofWord32LE_word32LE (b0 b1 b2 b3 : UInt8) :
    ofWord32LE (word32LE b0 b1 b2 b3) = [b0, b1, b2, b3] := by
  have h0 := b0.toNat_lt
  have h1 := b1.toNat_lt
  have h2 := b2.toNat_lt
  have h3 := b3.toNat_lt
  simp only [ofWord32LE, List.cons.injEq, and_true, ← UInt8.toNat_inj, UInt32.toNat_toUInt8,
    UInt32.toNat_shiftRight, toNat_word32LE, Nat.shiftRight_eq_div_pow, UInt32.reduceToNat,
    Nat.reduceMod, Nat.reducePow]
  omega

end Bytes

/-! ## Rotations by one bit -/

namespace Word

/-- A rotation by one place to the left doubles, and brings the highest bit back in from below. -/
lemma toNat_rotateLeft32_one (x : UInt32) :
    (rotateLeft32 x 1).toNat = x.toNat * 2 % 2 ^ 32 + x.toNat / 2 ^ 31 := by
  have hx := x.toNat_lt
  have e : x.toNat <<< ((1 : UInt32).toNat % 32) % 2 ^ 32 = (x.toNat % 2 ^ 31) <<< 1 := by
    rw [show (1 : UInt32).toNat % 32 = 1 from rfl, Nat.shiftLeft_eq, Nat.shiftLeft_eq]
    omega
  have h : x.toNat / 2 ^ 31 < 2 ^ 1 := by omega
  rw [rotateLeft32, UInt32.toNat_or, UInt32.toNat_shiftLeft, UInt32.toNat_shiftRight, e,
    show ((32 - 1 : UInt32)).toNat % 32 = 31 from rfl, Nat.shiftRight_eq_div_pow,
    ← Nat.shiftLeft_add_eq_or_of_lt h, Nat.shiftLeft_eq]
  omega

/-- A rotation by one place to the right halves, and brings the lowest bit back in from above. -/
lemma toNat_rotateRight32_one (x : UInt32) :
    (rotateRight32 x 1).toNat = x.toNat / 2 + x.toNat % 2 * 2 ^ 31 := by
  have hx := x.toNat_lt
  have e : x.toNat <<< ((32 - 1 : UInt32).toNat % 32) % 2 ^ 32 = (x.toNat % 2) <<< 31 := by
    rw [show (32 - 1 : UInt32).toNat % 32 = 31 from rfl, Nat.shiftLeft_eq, Nat.shiftLeft_eq]
    omega
  have h : x.toNat / 2 ^ 1 < 2 ^ 31 := by omega
  rw [rotateRight32, UInt32.toNat_or, UInt32.toNat_shiftRight, UInt32.toNat_shiftLeft, e,
    show (1 : UInt32).toNat % 32 = 1 from rfl, Nat.shiftRight_eq_div_pow, Nat.or_comm,
    ← Nat.shiftLeft_add_eq_or_of_lt h, Nat.shiftLeft_eq]
  omega

/-- A rotation by one place to the right is undone by one to the left. -/
@[simp] lemma rotateLeft32_rotateRight32_one (x : UInt32) :
    rotateLeft32 (rotateRight32 x 1) 1 = x := by
  have hx := x.toNat_lt
  rw [← UInt32.toNat_inj, toNat_rotateLeft32_one, toNat_rotateRight32_one]
  -- the lowest bit goes to the top and back
  rcases Nat.mod_two_eq_zero_or_one x.toNat with h | h <;> rw [h] <;> omega

/-- A rotation by one place to the left is undone by one to the right. -/
@[simp] lemma rotateRight32_rotateLeft32_one (x : UInt32) :
    rotateRight32 (rotateLeft32 x 1) 1 = x := by
  have hx := x.toNat_lt
  rw [← UInt32.toNat_inj, toNat_rotateRight32_one, toNat_rotateLeft32_one]
  -- the highest bit goes to the bottom and back
  have h : x.toNat / 2 ^ 31 = 0 ∨ x.toNat / 2 ^ 31 = 1 := by omega
  rcases h with h | h <;> rw [h] <;> omega

end Word

end SymmetricCipher
