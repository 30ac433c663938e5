import Mathlib.Algebra.CharP.Two
import Mathlib.Algebra.Field.ZMod
import Mathlib.RingTheory.AdjoinRoot
import SymmetricCipher.Proofs.Cipher.Aes

/-!
# Bytes as polynomials

A byte is a polynomial over the field of two elements, whose coefficients are its bits, and stands
for the residue of this polynomial modulo another one, of degree eight. Every residue is that of a
single byte (`residue_injective`, `residue_surjective`).

Exclusive or is the sum of residues. A shift by one place is the product with the root, if the bit
that is shifted out is paid for with the lower part of the modulus (`residue_double`). Multiplication
as the ciphers do it, which shifts one factor and adds it up under the bits of the other, is
therefore the product of residues (`residue_product`).
-/

open Polynomial

namespace SymmetricCipher

namespace Bytes

/-! ## Bits -/

/-- Bit `i` of a byte. -/
def bit (b : UInt8) (i : ℕ) : ZMod 2 := if b.toNat.testBit i then 1 else 0

/-- The bits of a sum are the sums of the bits. -/
lemma bit_xor (a b : UInt8) (i : ℕ) : bit (a ^^^ b) i = bit a i + bit b i := by
  rw [bit, bit, bit, UInt8.toNat_xor, Nat.testBit_xor]
  cases a.toNat.testBit i <;> cases b.toNat.testBit i <;> decide

/-- There is no bit beyond the eighth. -/
lemma bit_of_le (b : UInt8) {i : ℕ} (h : 8 ≤ i) : bit b i = 0 := by
  have hb : b.toNat < 2 ^ i := b.toNat_lt.trans_le (Nat.pow_le_pow_right (by decide) h)
  rw [bit, Nat.testBit_lt_two_pow hb]
  rfl

/-- A byte is told by its bits. -/
lemma eq_of_bit_eq {a b : UInt8} (h : ∀ i, bit a i = bit b i) : a = b := by
  apply UInt8.toNat_inj.1
  apply Nat.eq_of_testBit_eq
  intro i
  have hi := h i
  rw [bit, bit] at hi
  cases ha : a.toNat.testBit i <;> cases hb : b.toNat.testBit i
  · rfl
  · rw [ha, hb] at hi
    exact absurd hi (by decide)
  · rw [ha, hb] at hi
    exact absurd hi (by decide)
  · rfl

/-- Doubling moves every bit one place up, and the last one out. -/
lemma testBit_shiftLeft_one (a : UInt8) (i : ℕ) :
    (a <<< 1).toNat.testBit i = (decide (i < 8) && (decide (1 ≤ i) && a.toNat.testBit (i - 1))) := by
  have e : (a <<< 1).toNat = a.toNat <<< 1 % 2 ^ 8 := UInt8.toNat_shiftLeft a 1
  rw [e, Nat.testBit_mod_two_pow, Nat.testBit_shiftLeft]

/-- Nothing comes in from below. -/
lemma bit_shiftLeft_zero (a : UInt8) : bit (a <<< 1) 0 = 0 := by
  rw [bit, testBit_shiftLeft_one]
  rfl

/-- A shift by one place drops the last bit. -/
lemma bit_shiftLeft_succ (a : UInt8) (i : ℕ) :
    bit (a <<< 1) (i + 1) = if i < 7 then bit a i else 0 := by
  rw [bit, testBit_shiftLeft_one, decide_eq_true (Nat.le_add_left 1 i), Bool.true_and]
  by_cases h : i < 7
  · rw [if_pos h, decide_eq_true (Nat.succ_lt_succ h), Bool.true_and]
    rfl
  · rw [if_neg h, decide_eq_false fun hi => h (Nat.lt_of_succ_lt_succ hi), Bool.false_and]
    rfl

/-! ## Polynomials -/

/-- The polynomial whose coefficients are the bits of a byte. -/
noncomputable def polynomial (b : UInt8) : (ZMod 2)[X] :=
  ∑ i ∈ Finset.range 8, C (bit b i) * X ^ i

/-- The coefficients of the polynomial of a byte are its bits. -/
lemma coeff_polynomial (b : UInt8) (i : ℕ) : (polynomial b).coeff i = bit b i := by
  simp only [polynomial, finsetSum_coeff, coeff_C_mul, coeff_X_pow, mul_ite, mul_one, mul_zero,
    Finset.sum_ite_eq, Finset.mem_range]
  split
  · rfl
  · rename_i h
    exact (bit_of_le b (Nat.le_of_not_lt h)).symm

/-- The polynomial of a byte is of a degree less than 8. -/
lemma degree_polynomial_lt (b : UInt8) : (polynomial b).degree < 8 := by
  refine (degree_lt_iff_coeff_zero _ _).2 fun i h => ?_
  rw [coeff_polynomial, bit_of_le b h]

/-- The sum of bytes is the sum of their polynomials. -/
lemma polynomial_xor (a b : UInt8) : polynomial (a ^^^ b) = polynomial a + polynomial b := by
  ext i
  rw [coeff_add, coeff_polynomial, coeff_polynomial, coeff_polynomial, bit_xor]

/-- Different bytes have different polynomials. -/
lemma polynomial_injective : Function.Injective polynomial := by
  intro a b h
  apply eq_of_bit_eq
  intro i
  rw [← coeff_polynomial, ← coeff_polynomial, h]

/-- The byte 0 is the polynomial 0. -/
lemma polynomial_zero : polynomial 0 = 0 := by
  ext i
  rw [coeff_polynomial, coeff_zero, bit, UInt8.toNat_zero, Nat.zero_testBit]
  rfl

/-- The byte 1 is the polynomial 1. -/
lemma polynomial_one : polynomial 1 = 1 := by
  ext i
  rw [coeff_polynomial, coeff_one, bit, UInt8.toNat_one]
  simp only [Nat.testBit_one_eq_true_iff_self_eq_zero]

/-- Behind a shift by one place the bit that it drops is missing. -/
lemma X_mul_polynomial (a : UInt8) :
    X * polynomial a = polynomial (a <<< 1) + C (bit a 7) * X ^ 8 := by
  ext i
  rw [coeff_add, coeff_polynomial, coeff_C_mul, coeff_X_pow]
  cases i with
  | zero => rw [coeff_X_mul_zero, bit_shiftLeft_zero, if_neg (by decide), mul_zero, add_zero]
  | succ i =>
    rw [coeff_X_mul, coeff_polynomial, bit_shiftLeft_succ]
    rcases Nat.lt_trichotomy i 7 with h | rfl | h
    · rw [if_pos h, if_neg (by omega), mul_zero, add_zero]
    · rw [if_neg (by decide), if_pos rfl, mul_one, zero_add]
    · rw [if_neg (by omega), if_neg (by omega), mul_zero, add_zero, bit_of_le a h]

/-! ## Residues -/

/-- The residue of a byte modulo a polynomial. -/
noncomputable def residue (f : (ZMod 2)[X]) (b : UInt8) : AdjoinRoot f :=
  AdjoinRoot.mk f (polynomial b)

section residue

variable {f : (ZMod 2)[X]} {low : UInt8}

/-- The sum of bytes is the sum of their residues. -/
lemma residue_xor (a b : UInt8) : residue f (a ^^^ b) = residue f a + residue f b := by
  rw [residue, polynomial_xor, map_add]
  rfl

/-- The byte 0 is the residue 0. -/
lemma residue_zero : residue f 0 = 0 := by
  rw [residue, polynomial_zero, map_zero]

/-- The byte 1 is the residue 1. -/
lemma residue_one : residue f 1 = 1 := by
  rw [residue, polynomial_one, map_one]

/-- The product of a byte with `X`, modulo a polynomial of degree eight whose lower coefficients are
those of another byte. -/
def double (low a : UInt8) : UInt8 := if a &&& 0x80 = 0 then a <<< 1 else (a <<< 1) ^^^ low

/-- The test for the highest bit reads that bit. -/
lemma bit_seven : ∀ a : UInt8, bit a 7 = if a &&& 0x80 = 0 then 0 else 1 := by
  decide +kernel

/-- The test for the lowest bit reads that bit. -/
lemma bit_zero : ∀ a : UInt8, bit a 0 = if a &&& 1 = 0 then 0 else 1 := by
  decide +kernel

/-- Modulo `X^8 + low`, the power `X^8` is `low`. -/
lemma mk_X_pow_eight (hf : f = X ^ 8 + polynomial low) :
    AdjoinRoot.mk f (X ^ 8) = residue f low := by
  rw [residue, AdjoinRoot.mk_eq_mk, sub_eq_add_neg, CharTwo.neg_eq, hf]

/-- Doubling a byte multiplies its residue by the root. -/
lemma residue_double (hf : f = X ^ 8 + polynomial low) (a : UInt8) :
    residue f (double low a) = AdjoinRoot.root f * residue f a := by
  have h : AdjoinRoot.root f * residue f a =
      residue f (a <<< 1) + AdjoinRoot.mk f (C (bit a 7)) * residue f low := by
    rw [residue, ← AdjoinRoot.mk_X, ← map_mul, X_mul_polynomial, map_add, map_mul,
      mk_X_pow_eight hf]
    rfl
  rw [h, double, bit_seven]
  split
  · rw [C_0, map_zero, zero_mul, add_zero]
  · rw [C_1, map_one, one_mul, residue_xor]

/-- Adds to `sum` the products of `a` with the `n` low bits of `b`. -/
def shiftAdd (low : UInt8) : ℕ → UInt8 → UInt8 → UInt8 → UInt8
  | 0, _, _, sum => sum
  | n + 1, a, b, sum =>
    shiftAdd low n (double low a) (b >>> 1) (if b &&& 1 = 0 then sum else sum ^^^ a)

/-- Halving moves every bit one place down. -/
lemma bit_shiftRight (b : UInt8) (i : ℕ) : bit (b >>> 1) i = bit b (i + 1) := by
  have e : (b >>> 1).toNat = b.toNat >>> 1 := UInt8.toNat_shiftRight b 1
  rw [bit, e, Nat.testBit_shiftRight, Nat.add_comm]
  rfl

/-- The bits of a byte are the lowest one and those of the byte shifted down. -/
lemma sum_bits_succ (b : UInt8) (n : ℕ) :
    ∑ i ∈ Finset.range (n + 1), C (bit b i) * X ^ i =
      X * ∑ i ∈ Finset.range n, C (bit (b >>> 1) i) * X ^ i + C (bit b 0) := by
  rw [Finset.sum_range_succ', Finset.mul_sum, pow_zero, mul_one]
  refine congrArg (· + C (bit b 0)) (Finset.sum_congr rfl fun i _ => ?_)
  rw [bit_shiftRight]
  ring

/-- Shift and add comes to the multiples by as many bits of the second factor, on top of the sum so
far. -/
lemma residue_shiftAdd (hf : f = X ^ 8 + polynomial low) (n : ℕ) (a b sum : UInt8) :
    residue f (shiftAdd low n a b sum) = residue f sum +
      residue f a * AdjoinRoot.mk f (∑ i ∈ Finset.range n, C (bit b i) * X ^ i) := by
  induction n generalizing a b sum with
  | zero => rw [Finset.range_zero, Finset.sum_empty, map_zero, mul_zero, add_zero, shiftAdd]
  | succ n ih =>
    have hsum : residue f (if b &&& 1 = 0 then sum else sum ^^^ a) =
        residue f sum + residue f a * AdjoinRoot.mk f (C (bit b 0)) := by
      rw [bit_zero]
      split
      · rw [C_0, map_zero, mul_zero, add_zero]
      · rw [C_1, map_one, mul_one, residue_xor]
    rw [shiftAdd, ih, residue_double hf, hsum, sum_bits_succ, map_add, map_mul, AdjoinRoot.mk_X]
    ring

/-- The product of two bytes modulo a polynomial of degree eight. -/
def product (low a b : UInt8) : UInt8 := shiftAdd low 8 a b 0

/-- The product of bytes is the product of their residues. -/
lemma residue_product (hf : f = X ^ 8 + polynomial low) (a b : UInt8) :
    residue f (product low a b) = residue f a * residue f b := by
  rw [product, residue_shiftAdd hf, residue_zero, zero_add]
  rfl

/-- The modulus is of degree 8. -/
lemma degree_modulus (hf : f = X ^ 8 + polynomial low) : f.degree = 8 := by
  have h : (X ^ 8 : (ZMod 2)[X]).degree = 8 := degree_X_pow 8
  rw [hf, degree_add_eq_left_of_degree_lt, h]
  exact (degree_polynomial_lt low).trans_eq h.symm

/-- Different bytes have different residues, as their polynomials are reduced already. -/
lemma residue_injective (hf : f = X ^ 8 + polynomial low) : Function.Injective (residue f) := by
  intro a b h
  rw [residue, residue, AdjoinRoot.mk_eq_mk] at h
  apply polynomial_injective
  apply sub_eq_zero.1
  refine eq_zero_of_dvd_of_degree_lt h ?_
  rw [degree_modulus hf]
  exact (degree_sub_le _ _).trans_lt (max_lt (degree_polynomial_lt a) (degree_polynomial_lt b))

/-- Sums and products with the root lead from the byte 1 to every residue. -/
lemma residue_surjective (hf : f = X ^ 8 + polynomial low) : Function.Surjective (residue f) := by
  intro r
  obtain ⟨p, rfl⟩ := AdjoinRoot.mk_surjective r
  induction p using Polynomial.induction_on with
  | C c =>
    obtain rfl | rfl : c = 0 ∨ c = 1 := by revert c; decide
    · exact ⟨0, by rw [residue_zero, C_0, map_zero]⟩
    · exact ⟨1, by rw [residue_one, C_1, map_one]⟩
  | add p q hp hq =>
    obtain ⟨a, ha⟩ := hp
    obtain ⟨b, hb⟩ := hq
    exact ⟨a ^^^ b, by rw [residue_xor, ha, hb, map_add]⟩
  | monomial n c h =>
    obtain ⟨a, ha⟩ := h
    refine ⟨double low a, ?_⟩
    rw [residue_double hf, ha, pow_succ, ← mul_assoc, map_mul _ (C c * X ^ n), AdjoinRoot.mk_X,
      mul_comm]

/-- The byte with a residue, modulo a polynomial of degree eight. -/
noncomputable def ofResidue (f : (ZMod 2)[X]) : AdjoinRoot f → UInt8 := Function.invFun (residue f)

/-- A byte is found again from its residue. -/
lemma ofResidue_residue (hf : f = X ^ 8 + polynomial low) (b : UInt8) :
    ofResidue f (residue f b) = b :=
  Function.leftInverse_invFun (residue_injective hf) b

end residue

end Bytes

end SymmetricCipher
