import Mathlib.LinearAlgebra.Matrix.Notation
import SymmetricCipher.Proofs.Cipher.Residue
import SymmetricCipher.Proofs.Cipher.Twofish

/-!
# The function `h` of Twofish

The textbook's `h`: every byte of a word goes through its permutations, masked by its bytes of the
key words on the way, and the four bytes are multiplied with the MDS matrix over the field modulo
`X^8 + X^6 + X^5 + X^3 + 1`. The words that condense the key come from another matrix, over the field
modulo `X^8 + X^6 + X^3 + X^2 + 1`. Words and bytes are numbers here, and products are products of
residues.

`mixWord_eq_h` and `condense_eq` say that this library computes them.
-/

open Polynomial

namespace SymmetricCipher.Twofish

namespace Textbook

/-- Byte `i` of a word, least significant first. -/
def byte (x : UInt32) (i : Fin 4) : UInt8 := UInt8.ofNat (x.toNat / 2 ^ (8 * (i : ℕ)) % 2 ^ 8)

/-- The word of four bytes, least significant first. -/
def word (b : Fin 4 → UInt8) : UInt32 := UInt32.ofNat (∑ i, (b i).toNat * 2 ^ (8 * (i : ℕ)))

/-- The two byte permutations. -/
def permute : Fin 2 → UInt8 → UInt8 := ![permuteByte nibbles0, permuteByte nibbles1]

/-- The permutation that a byte of a word goes through before it is masked by key word `i`. -/
def choice : ℕ → Fin 4 → Fin 2
  | 0 => ![0, 0, 1, 1]
  | 1 => ![0, 1, 0, 1]
  | 2 => ![1, 1, 0, 0]
  | _ => ![1, 0, 0, 1]

/-- What becomes of a byte under the key words from place `i` on, the last of which comes first. -/
def maskedByte (lane : Fin 4) (y : UInt8) : ℕ → List UInt32 → UInt8
  | _, [] => y
  | i, l :: words => permute (choice i lane) (maskedByte lane y (i + 1) words) ^^^ byte l lane

/-- The last permutation of each byte. -/
def lastChoice : Fin 4 → Fin 2 := ![1, 0, 1, 0]

/-- The product of a matrix and a column of bytes, over the residues modulo a polynomial. -/
noncomputable def product (f : (ZMod 2)[X]) {n : ℕ} (m : Matrix (Fin 4) (Fin n) UInt8)
    (y : Fin n → UInt8) (row : Fin 4) : UInt8 :=
  Bytes.ofResidue f (((m.map (Bytes.residue f)).mulVec fun j => Bytes.residue f (y j)) row)

/-- The polynomial under the MDS matrix. -/
noncomputable def mdsPolynomial : (ZMod 2)[X] := X ^ 8 + X ^ 6 + X ^ 5 + X ^ 3 + 1

/-- The MDS matrix. -/
def mds : Matrix (Fin 4) (Fin 4) UInt8 :=
  !![0x01, 0xEF, 0x5B, 0x5B;
    0x5B, 0xEF, 0xEF, 0x01;
    0xEF, 0x5B, 0x01, 0xEF;
    0xEF, 0x01, 0xEF, 0x5B]

/-- The function `h` of a word, under key words. -/
noncomputable def h (x : UInt32) (words : List UInt32) : UInt32 :=
  word (product mdsPolynomial mds fun lane =>
    permute (lastChoice lane) (maskedByte lane (byte x lane) 0 words))

/-- The polynomial under the Reed-Solomon matrix. -/
noncomputable def rsPolynomial : (ZMod 2)[X] := X ^ 8 + X ^ 6 + X ^ 3 + X ^ 2 + 1

/-- The Reed-Solomon matrix. -/
def rs : Matrix (Fin 4) (Fin 8) UInt8 :=
  !![0x01, 0xA4, 0x55, 0x87, 0x5A, 0x58, 0xDB, 0x9E;
    0xA4, 0x56, 0x82, 0xF3, 0x1E, 0xC6, 0x68, 0xE5;
    0x02, 0xA1, 0xFC, 0xC1, 0x47, 0xAE, 0x3D, 0x19;
    0xA4, 0x55, 0x87, 0x5A, 0x58, 0xDB, 0x9E, 0x03]

/-- The word that condenses eight bytes of a key. -/
noncomputable def rsWord (chunk : Fin 8 → UInt8) : UInt32 := word (product rsPolynomial rs chunk)

end Textbook

/-! ## Words and bytes -/

/-- The bytes of a word are those of its lanes. -/
lemma byte_eq_laneByte (x : UInt32) (lane : Lane) : Textbook.byte x lane = laneByte x lane := by
  rw [← UInt8.toNat_inj]
  fin_cases lane <;>
  simp [Textbook.byte, laneByte, Nat.shiftRight_eq_div_pow]

/-- A word is put together from its lowest byte on. -/
lemma word_eq_word32LE (b : Fin 4 → UInt8) :
    Textbook.word b = Bytes.word32LE (b 0) (b 1) (b 2) (b 3) := by
  have h0 := (b 0).toNat_lt
  have h1 := (b 1).toNat_lt
  have h2 := (b 2).toNat_lt
  have h3 := (b 3).toNat_lt
  rw [← UInt32.toNat_inj, Bytes.toNat_word32LE, Textbook.word, Fin.sum_univ_four]
  simp
  omega

/-- The bytes of a word are its lanes, the lowest one first. -/
lemma ofWord32LE_eq (x : UInt32) :
    Bytes.ofWord32LE x = [laneByte x 0, laneByte x 1, laneByte x 2, laneByte x 3] := by
  have h : laneByte x 0 = x.toUInt8 := congrArg UInt32.toUInt8 (UInt32.shiftRight_zero ..)
  rw [h]
  rfl

/-- The lanes of a word are the bytes that it is put together from. -/
lemma laneByte_word (b : Fin 4 → UInt8) (lane : Lane) : laneByte (Textbook.word b) lane = b lane := by
  have hbytes := Bytes.ofWord32LE_word32LE (b 0) (b 1) (b 2) (b 3)
  rw [← word_eq_word32LE, ofWord32LE_eq] at hbytes
  simp only [List.cons.injEq, and_true] at hbytes
  obtain ⟨h0, h1, h2, h3⟩ := hbytes
  fin_cases lane
  · exact h0
  · exact h1
  · exact h2
  · exact h3

/-- A word is put together from its own lanes. -/
lemma word_laneByte (x : UInt32) : Textbook.word (laneByte x) = x := by
  have hbytes := ofWord32LE_eq x
  simp only [Bytes.ofWord32LE, List.cons.injEq, and_true] at hbytes
  obtain ⟨h0, h1, h2, h3⟩ := hbytes
  rw [word_eq_word32LE, ← h0, ← h1, ← h2, ← h3]
  exact Bytes.word32LE_bytes x

/-- Four lanes are put together to a word. -/
lemma ofLanes_eq_word (b : ℕ → UInt8) : ofLanes b = Textbook.word fun i : Fin 4 => b i := by
  rw [word_eq_word32LE, ofLanes, Bytes.word32LE]
  simp [List.range, List.range.loop]

/-- The lanes of a sum are the sums of the lanes. -/
lemma laneByte_xor (x y : UInt32) (lane : Lane) :
    laneByte (x ^^^ y) lane = laneByte x lane ^^^ laneByte y lane := by
  simp [laneByte, UInt32.shiftRight_xor]

/-! ## Products -/

/-- The polynomial of the mixing matrix is `x⁸` and that of the byte which doubling subtracts. -/
lemma mdsPolynomial_eq : Textbook.mdsPolynomial = X ^ 8 + Bytes.polynomial 0x69 := by
  simp [Textbook.mdsPolynomial, Bytes.polynomial, Bytes.bit, Nat.testBit, Finset.sum_range_succ]
  ring

/-- The polynomial of the matrix that condenses a key is `x⁸` and that of the byte `0x4d`. -/
lemma rsPolynomial_eq : Textbook.rsPolynomial = X ^ 8 + Bytes.polynomial 0x4d := by
  simp [Textbook.rsPolynomial, Bytes.polynomial, Bytes.bit, Nat.testBit, Finset.sum_range_succ]
  ring

/-- A step of the multiplication, on sixteen bits, stays in the low eight bits. -/
def Doubles (modulus : UInt16) (low : UInt8) : Prop :=
  ∀ a : UInt8, (if (a.toUInt16 <<< 1) &&& 0x100 = 0 then a.toUInt16 <<< 1
    else (a.toUInt16 <<< 1) ^^^ modulus) = (Bytes.double low a).toUInt16

instance (modulus : UInt16) (low : UInt8) : Decidable (Doubles modulus low) :=
  inferInstanceAs (Decidable (∀ _ : UInt8, _))

/-- The modulus of the mixing matrix subtracts that byte. -/
lemma mdsModulus_doubles : Doubles mdsModulus 0x69 := by decide +kernel

/-- The modulus of the other matrix subtracts its own. -/
lemma rsModulus_doubles : Doubles rsModulus 0x4d := by decide +kernel

/-- Multiplication in words of 16 bits is shift and add on bytes. -/
lemma multiplyBits_eq_shiftAdd {modulus : UInt16} {low : UInt8} (h : Doubles modulus low) (n : ℕ)
    (a b sum : UInt8) :
    multiplyBits modulus n a.toUInt16 b sum.toUInt16 = (Bytes.shiftAdd low n a b sum).toUInt16 := by
  induction n generalizing a b sum with
  | zero => rfl
  | succ n ih =>
    have hsum : (if b &&& 1 = 0 then sum.toUInt16 else sum.toUInt16 ^^^ a.toUInt16) =
        (if b &&& 1 = 0 then sum else sum ^^^ a).toUInt16 := by
      split
      · rfl
      · rw [UInt8.toUInt16_xor]
    rw [multiplyBits, hsum]
    show multiplyBits modulus n (if (a.toUInt16 <<< 1) &&& 0x100 = 0 then a.toUInt16 <<< 1
      else (a.toUInt16 <<< 1) ^^^ modulus) _ _ = _
    rw [h a, ih, Bytes.shiftAdd]

/-- The product of bytes is the product of their residues by the polynomial. -/
lemma residue_multiply {f : (ZMod 2)[X]} {modulus : UInt16} {low : UInt8}
    (hf : f = X ^ 8 + Bytes.polynomial low) (h : Doubles modulus low) (a b : UInt8) :
    Bytes.residue f (multiply modulus a b) = Bytes.residue f a * Bytes.residue f b := by
  have hzero : (0 : UInt16) = (0 : UInt8).toUInt16 := rfl
  rw [multiply, hzero, multiplyBits_eq_shiftAdd h, UInt8.toUInt8_toUInt16]
  exact Bytes.residue_product hf a b

/-- A byte that is a sum of products is an entry of the product of a matrix and a column. -/
lemma eq_product {f : (ZMod 2)[X]} {low : UInt8} (hf : f = X ^ 8 + Bytes.polynomial low) {n : ℕ}
    {m : Matrix (Fin 4) (Fin n) UInt8} {y : Fin n → UInt8} {row : Fin 4} {b : UInt8}
    (hb : Bytes.residue f b = ∑ j, Bytes.residue f (m row j) * Bytes.residue f (y j)) :
    b = Textbook.product f m y row := by
  rw [← Bytes.ofResidue_residue hf b, hb]
  rfl

/-! ## Lanes -/

/-- A function of a byte, looked up in its table. -/
lemma get_ofFn_toFin {α : Type} (f : UInt8 → α) (x : UInt8) :
    (Vector.ofFn fun i : Fin 256 => f (UInt8.ofNat i)).get x.toFin = f x := by
  have h : (Vector.ofFn fun i : Fin 256 => f (UInt8.ofNat i)).get x.toFin =
      f (UInt8.ofNat x.toNat) := Vector.getElem_ofFn x.toNat_lt
  rw [h, UInt8.ofNat_toNat]

/-- The two permutations of the textbook are those of the tables. -/
lemma permute_eq : Textbook.permute = ![q0, q1] := by
  funext i x
  fin_cases i
  · exact (get_ofFn_toFin (permuteByte nibbles0) x).symm
  · exact (get_ofFn_toFin (permuteByte nibbles1) x).symm

/-- The permutations of a lane are those that the textbook chooses for it. -/
lemma stages_eq (lane : Lane) : stages lane =
    ⟨Textbook.permute (Textbook.choice 3 lane), Textbook.permute (Textbook.choice 2 lane),
      Textbook.permute (Textbook.choice 1 lane), Textbook.permute (Textbook.choice 0 lane),
      Textbook.permute (Textbook.lastChoice lane)⟩ := by
  rw [permute_eq]
  fin_cases lane <;> rfl

/-- The stages of a lane are the masked byte and the last permutation, for two to four key words. -/
lemma throughLane_eq (lane : Lane) (y : UInt8) {words : List UInt32}
    (h : words.length = 2 ∨ words.length = 3 ∨ words.length = 4) :
    throughLane lane y words =
      Textbook.permute (Textbook.lastChoice lane) (Textbook.maskedByte lane y 0 words) := by
  rw [throughLane, stages_eq]
  match words, h with
  | [l0, l1], _ =>
    simp only [Textbook.maskedByte, byte_eq_laneByte]
    rfl
  | [l0, l1, l2], _ =>
    simp only [Textbook.maskedByte, byte_eq_laneByte]
    rfl
  | [l0, l1, l2, l3], _ =>
    simp only [Textbook.maskedByte, byte_eq_laneByte]
    rfl

/-! ## Mixing -/

/-- A column of the mixing matrix holds the products of a byte with its entries. -/
lemma laneByte_mdsColumn (lane row : Lane) (y : UInt8) :
    laneByte (mdsColumn lane y) row = multiply mdsModulus (Textbook.mds row lane) y := by
  rw [mdsColumn, ofLanes_eq_word, laneByte_word]
  fin_cases lane <;> fin_cases row <;> rfl

/-- A mixed word is the sum of four columns, one for each lane. -/
lemma mixWord_eq_xor (x : UInt32) (words : List UInt32) :
    mixWord x words = mdsColumn 0 (throughLane 0 (laneByte x 0) words) ^^^
      mdsColumn 1 (throughLane 1 (laneByte x 1) words) ^^^
      mdsColumn 2 (throughLane 2 (laneByte x 2) words) ^^^
      mdsColumn 3 (throughLane 3 (laneByte x 3) words) := by
  show 0 ^^^ _ ^^^ _ ^^^ _ ^^^ _ = _
  rw [UInt32.zero_xor]
  rfl

/-- Mixing a word is the function `h`, for 2 to 4 words of the key. -/
lemma mixWord_eq_h (x : UInt32) {words : List UInt32}
    (h : words.length = 2 ∨ words.length = 3 ∨ words.length = 4) :
    mixWord x words = Textbook.h x words := by
  -- byte by byte, as exclusive ors of words are exclusive ors of their bytes
  rw [← word_laneByte (mixWord x words), Textbook.h]
  congr 1
  funext row
  apply eq_product mdsPolynomial_eq
  rw [Fin.sum_univ_four, mixWord_eq_xor]
  simp only [laneByte_xor, laneByte_mdsColumn, Bytes.residue_xor,
    residue_multiply mdsPolynomial_eq mdsModulus_doubles, throughLane_eq _ _ h, byte_eq_laneByte]

/-- The rows of the matrix that condenses a key are those of the textbook. -/
lemma rsMatrix_row (row : Fin 4) : rsMatrix.getD row [] =
    [Textbook.rs row 0, Textbook.rs row 1, Textbook.rs row 2, Textbook.rs row 3, Textbook.rs row 4,
      Textbook.rs row 5, Textbook.rs row 6, Textbook.rs row 7] := by
  fin_cases row <;> rfl

/-- Eight bytes of a key are condensed to the word of the textbook. -/
lemma condense_eq {chunk : Bytes} (h : chunk.length = 8) :
    condense chunk = Textbook.rsWord fun j => chunk.getD j 0 := by
  rw [condense, ofLanes_eq_word, Textbook.rsWord]
  congr 1
  funext row
  apply eq_product rsPolynomial_eq
  rw [Fin.sum_univ_eight, rsMatrix_row]
  match chunk, h with
  | [c0, c1, c2, c3, c4, c5, c6, c7], _ =>
    simp only [List.zip_cons_cons, List.zip_nil_left, List.foldl_cons, List.foldl_nil,
      Bytes.residue_xor, residue_multiply rsPolynomial_eq rsModulus_doubles, Bytes.residue_zero,
      zero_add]
    rfl

end SymmetricCipher.Twofish
