import SymmetricCipher.Proofs.Cipher.Residue

/-!
# The field of AES

The bytes of AES stand for the elements of the field of 256 elements, the residues modulo
`X^8 + X^4 + X^3 + X + 1`. That this polynomial is irreducible is seen from the substitution table,
which gives an inverse of every byte but zero.

Two steps of a round have a meaning in the field: the substitution of a byte is the affine transform
of the inverse (`element_substitute`), and the mixing of a column is the product with a fixed
polynomial over the field modulo `X^4 + 1` (`elements_mixColumn`).
-/

open Polynomial

namespace SymmetricCipher.Aes

/-- The field polynomial. -/
noncomputable def modulus : (ZMod 2)[X] := X ^ 8 + X ^ 4 + X ^ 3 + X + 1

/-- An element of the field, a polynomial over the field of two elements modulo the field
polynomial. -/
abbrev Element := AdjoinRoot modulus

/-- The element for which a byte stands. -/
noncomputable def element (b : UInt8) : Element := Bytes.residue modulus b

/-- The modulus is `x⁸` and the polynomial of the byte that doubling subtracts. -/
lemma modulus_eq : modulus = X ^ 8 + Bytes.polynomial 0x1b := by
  simp [modulus, Bytes.polynomial, Bytes.bit, Nat.testBit, Finset.sum_range_succ]
  ring

/-- The sum of bytes is the sum of field elements. -/
lemma element_xor (a b : UInt8) : element (a ^^^ b) = element a + element b := Bytes.residue_xor a b

/-- The byte 0 is the zero of the field. -/
lemma element_zero : element 0 = 0 := Bytes.residue_zero

/-- The byte 1 is the one of the field. -/
lemma element_one : element 1 = 1 := Bytes.residue_one

/-- In characteristic 2 every element is its own negative. -/
lemma neg_element (a : Element) : -a = a := by
  obtain ⟨b, rfl⟩ := Bytes.residue_surjective modulus_eq a
  rw [neg_eq_iff_add_eq_zero]
  calc element b + element b = element (b ^^^ b) := (element_xor b b).symm
    _ = 0 := by rw [UInt8.xor_self, element_zero]

/-- Different bytes are different elements. -/
lemma element_injective : Function.Injective element := Bytes.residue_injective modulus_eq

/-- Every element is that of a byte. -/
lemma element_surjective : Function.Surjective element := Bytes.residue_surjective modulus_eq

/-! ## Products -/

/-- Multiplication of bytes is shift and add with the modulus of AES. -/
lemma multiplyBits_eq_shiftAdd (n : ℕ) (a b sum : UInt8) :
    multiplyBits n a b sum = Bytes.shiftAdd 0x1b n a b sum := by
  induction n generalizing a b sum with
  | zero => rfl
  | succ n ih =>
    rw [multiplyBits, ih]
    rfl

/-- The product of bytes is the product in the field. -/
lemma element_multiply (a b : UInt8) : element (multiply a b) = element a * element b := by
  rw [multiply, multiplyBits_eq_shiftAdd]
  exact Bytes.residue_product modulus_eq a b

/-- The byte 2 is the root of the modulus. -/
lemma element_two : element 2 = AdjoinRoot.root modulus := by
  have h : element (Bytes.double 0x1b 1) = AdjoinRoot.root modulus * element 1 :=
    Bytes.residue_double modulus_eq 1
  rwa [element_one, mul_one] at h

/-- The byte 3 is the root and one. -/
lemma element_three : element 3 = AdjoinRoot.root modulus + 1 := by
  rw [← element_two, ← element_one, ← element_xor]
  rfl

/-! ## Inverses -/

/-- The affine transform of the substitution taken back. -/
def unaffine (b : UInt8) : UInt8 :=
  ((b <<< 1) ||| (b >>> 7)) ^^^ ((b <<< 3) ||| (b >>> 5)) ^^^ ((b <<< 6) ||| (b >>> 2)) ^^^ 0x05

/-- The byte that the substitution table holds before the affine transform. -/
def invert (b : UInt8) : UInt8 := unaffine (substitute b)

/-- Every byte but 0 has an inverse, as a look at all bytes shows. -/
lemma multiply_invert : ∀ b, b ≠ 0 → multiply b (invert b) = 1 := by
  decide +kernel

instance : Nontrivial Element := by
  refine ⟨0, 1, fun h => ?_⟩
  rw [← element_zero, ← element_one] at h
  exact absurd (element_injective h) (by decide)

/-- The residues of polynomials by the modulus are a field: their inverses are those of bytes. -/
lemma isField_element : IsField Element where
  exists_pair_ne := exists_pair_ne Element
  mul_comm := mul_comm
  mul_inv_cancel {a} ha := by
    -- every element is that of a byte, and all bytes but zero have an inverse
    obtain ⟨b, rfl⟩ := element_surjective a
    refine ⟨element (invert b), ?_⟩
    rw [← element_multiply, multiply_invert b, element_one]
    rintro rfl
    exact ha element_zero

instance irreducible_modulus : Fact (Irreducible modulus) := by
  -- a quotient that is a field is one by a maximal ideal, the generator of which is a prime
  have hmax : (Ideal.span {modulus}).IsMaximal := Ideal.Quotient.maximal_of_isField _ isField_element
  have hne : modulus ≠ 0 := by
    intro h
    have hdegree := Bytes.degree_modulus modulus_eq
    rw [h, degree_zero] at hdegree
    cases hdegree
  exact ⟨((Ideal.span_singleton_prime hne).1 hmax.isPrime).irreducible⟩

/-- The inverse of a byte is the inverse in the field. -/
lemma element_invert (b : UInt8) : element (invert b) = (element b)⁻¹ := by
  by_cases hb : b = 0
  · subst hb
    rw [show invert 0 = 0 by decide +kernel, element_zero, inv_zero]
  · apply eq_inv_of_mul_eq_one_right
    rw [← element_multiply, multiply_invert b hb, element_one]

/-! ## The substitution of a byte -/

/-- The modulus is monic, so that residues have coefficients. -/
lemma monic_modulus : modulus.Monic := by
  rw [modulus_eq]
  exact (monic_X_pow 8).add_of_left (by
    rw [degree_X_pow]
    exact Bytes.degree_polynomial_lt 0x1b)

/-- Coefficient `i` of the polynomial of degree less than eight that represents an element. -/
noncomputable def coefficient (a : Element) (i : Fin 8) : ZMod 2 :=
  (AdjoinRoot.modByMonicHom monic_modulus a).coeff i

/-- The constant of the affine transform, lowest coefficient first. -/
def affineConstant : Fin 8 → ZMod 2 := ![1, 1, 0, 0, 0, 1, 1, 0]

/-- An affine transform of the coefficients, the places of which are counted modulo eight. -/
def affine (c : Fin 8 → ZMod 2) (i : Fin 8) : ZMod 2 :=
  c i + c (i + 4) + c (i + 5) + c (i + 6) + c (i + 7) + affineConstant i

/-- The element with the given coefficients. -/
noncomputable def ofCoefficients (c : Fin 8 → ZMod 2) : Element :=
  AdjoinRoot.mk modulus (∑ i : Fin 8, C (c i) * X ^ (i : ℕ))

/-- The affine transform of the inverse, where zero stands for the inverse of zero. -/
noncomputable def substituteElement (a : Element) : Element :=
  ofCoefficients (affine (coefficient a⁻¹))

/-- The coefficients of an element are the bits of its byte. -/
lemma coefficient_element (b : UInt8) :
    coefficient (element b) = fun i : Fin 8 => Bytes.bit b i := by
  funext i
  have hlt : (Bytes.polynomial b).degree < modulus.degree := by
    rw [Bytes.degree_modulus modulus_eq]
    exact Bytes.degree_polynomial_lt b
  rw [coefficient, element, Bytes.residue, AdjoinRoot.modByMonicHom_mk,
    (modByMonic_eq_self_iff monic_modulus).2 hlt, Bytes.coeff_polynomial]

/-- An element is put together again from the bits of its byte. -/
lemma ofCoefficients_bit (b : UInt8) :
    ofCoefficients (fun i : Fin 8 => Bytes.bit b i) = element b := by
  rw [ofCoefficients, element, Bytes.residue, Bytes.polynomial, Finset.sum_range]

/-- The affine map on bits is undone by its inverse, as a look at all bytes shows. -/
lemma affine_bit_unaffine : ∀ b, ∀ i : Fin 8,
    affine (fun i : Fin 8 => Bytes.bit (unaffine b) i) i = Bytes.bit b i := by
  decide +kernel

/-- The substitution table holds the affine transforms of the inverses. -/
lemma element_substitute (b : UInt8) : element (substitute b) = substituteElement (element b) := by
  rw [substituteElement, ← element_invert, coefficient_element, ← ofCoefficients_bit]
  congr 1
  funext i
  exact (affine_bit_unaffine (substitute b) i).symm

/-! ## The mixing of a column -/

/-- Modulo `X^4 + 1` the coefficients from the fourth on come back with the opposite sign. -/
lemma mul_modByMonic {R : Type} [CommRing R] [Nontrivial R] (a0 a1 a2 a3 b0 b1 b2 b3 : R) :
    ((C a3 * X ^ 3 + C a2 * X ^ 2 + C a1 * X + C a0) *
        (C b3 * X ^ 3 + C b2 * X ^ 2 + C b1 * X + C b0)) %ₘ (X ^ 4 + 1) =
      C (a3 * b0 + a2 * b1 + a1 * b2 + a0 * b3) * X ^ 3 +
        C (a2 * b0 + a1 * b1 + a0 * b2 - a3 * b3) * X ^ 2 +
        C (a1 * b0 + a0 * b1 - a3 * b2 - a2 * b3) * X +
        C (a0 * b0 - a3 * b1 - a2 * b2 - a1 * b3) := by
  have hdegree : (X ^ 4 + 1 : R[X]).degree = 4 := degree_X_pow_add_C (by decide) (1 : R)
  have hmonic : (X ^ 4 + 1 : R[X]).Monic := monic_X_pow_add_C (1 : R) (by decide)
  refine (div_modByMonic_unique (C (a3 * b3) * X ^ 2 + C (a3 * b2 + a2 * b3) * X +
    C (a3 * b1 + a2 * b2 + a1 * b3)) _ hmonic ⟨?_, ?_⟩).2
  · simp only [C_add, C_sub, C_mul]
    ring
  · rw [hdegree]
    exact degree_cubic_lt

/-- The product of a column, taken as a polynomial, and `(x + 1)X^3 + X^2 + X + x` modulo
`X^4 + 1`. -/
noncomputable def mixElements (c : Fin 4 → Element) (row : Fin 4) : Element :=
  (((C (AdjoinRoot.root modulus + 1) * X ^ 3 + X ^ 2 + X + C (AdjoinRoot.root modulus)) *
    ∑ i : Fin 4, C (c i) * X ^ (i : ℕ)) %ₘ (X ^ 4 + 1)).coeff row

/-- The byte of a column in a row. -/
def Column.row (c : Column) : Fin 4 → UInt8 := ![c.b0, c.b1, c.b2, c.b3]

/-- The elements of a column. -/
noncomputable def Column.elements (c : Column) (i : Fin 4) : Element := element (c.row i)

/-- A cubic polynomial has the coefficients that it is written with. -/
lemma coeff_cubic {R : Type} [CommRing R] (a0 a1 a2 a3 : R) (i : Fin 4) :
    (C a3 * X ^ 3 + C a2 * X ^ 2 + C a1 * X + C a0).coeff i = ![a0, a1, a2, a3] i := by
  simp only [coeff_add, coeff_C_mul, coeff_X_pow, coeff_X, coeff_C]
  fin_cases i <;> simp

/-- The product of a column with the fixed polynomial, worked out coefficient by coefficient. -/
lemma mixElements_eq (c : Fin 4 → Element) : mixElements c = ![
    AdjoinRoot.root modulus * c 0 + (AdjoinRoot.root modulus + 1) * c 1 + c 2 + c 3,
    c 0 + AdjoinRoot.root modulus * c 1 + (AdjoinRoot.root modulus + 1) * c 2 + c 3,
    c 0 + c 1 + AdjoinRoot.root modulus * c 2 + (AdjoinRoot.root modulus + 1) * c 3,
    (AdjoinRoot.root modulus + 1) * c 0 + c 1 + c 2 + AdjoinRoot.root modulus * c 3] := by
  have hfactor : C (AdjoinRoot.root modulus + 1) * X ^ 3 + X ^ 2 + X + C (AdjoinRoot.root modulus) =
      C (AdjoinRoot.root modulus + 1) * X ^ 3 + C 1 * X ^ 2 + C 1 * X +
        C (AdjoinRoot.root modulus) := by
    rw [C_1, one_mul, one_mul]
  have hcolumn : ∑ i : Fin 4, C (c i) * X ^ (i : ℕ) =
      C (c 3) * X ^ 3 + C (c 2) * X ^ 2 + C (c 1) * X + C (c 0) := by
    rw [Fin.sum_univ_four]
    show C (c 0) * X ^ 0 + C (c 1) * X ^ 1 + C (c 2) * X ^ 2 + C (c 3) * X ^ 3 = _
    ring
  funext row
  rw [mixElements, hfactor, hcolumn, mul_modByMonic, coeff_cubic]
  -- signs do not matter in this field
  simp only [sub_eq_add_neg, neg_element, one_mul]

/-- The mixing of a column is a product modulo `X^4 + 1`. -/
lemma elements_mixColumn (c : Column) : (mixColumn c).elements = mixElements c.elements := by
  have hdot (m0 m1 m2 m3 : UInt8) : element (dot m0 m1 m2 m3 c) = element m0 * element c.b0 +
      element m1 * element c.b1 + element m2 * element c.b2 + element m3 * element c.b3 := by
    simp only [dot, element_xor, element_multiply]
  rw [mixElements_eq]
  funext i
  fin_cases i
  all_goals
    refine (hdot ..).trans ?_
    rw [element_one, element_two, element_three]
    simp only [one_mul]
    rfl

end SymmetricCipher.Aes
