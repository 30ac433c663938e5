import Mathlib.Data.Fintype.EquivFin
import SymmetricCipher.Cipher.Aes.Basic
import SymmetricCipher.Proofs.Cipher.Invertible

/-!
# AES can be undone

Decryption undoes encryption and the other way round, for any list of round keys: `Aes.invertible`.
Every step of a round has its inverse. For the substitution this is a look at all bytes, for the
rows it holds by their places. The mixing of columns is linear over the field, so that columns with
a single byte decide it.
-/

namespace SymmetricCipher

/-- What is asked of all bytes can be settled by trying each of them. -/
instance Bytes.decidableForallByte (p : UInt8 → Prop) [DecidablePred p] : Decidable (∀ b, p b) :=
  decidable_of_iff (∀ i : Fin 256, p (.ofFin i)) ⟨fun h b => h b.toFin, fun h i => h (.ofFin i)⟩

namespace Bytes

/-- As there are finitely many bytes, a function on them that loses nothing reaches all of them. -/
lemma bijective_of_injective {f : UInt8 → UInt8} (h : Function.Injective f) :
    Function.Bijective f := by
  have hfin : Finite UInt8 := .of_injective UInt8.toFin fun _ _ => UInt8.toFin_inj.1
  exact Finite.injective_iff_bijective.1 h

/-- The bytes with at most one bit. -/
def unitBytes : List UInt8 := [0, 1, 2, 4, 8, 16, 32, 64, 128]

/-- A byte is the sum of its bits, each of them a byte with at most one bit. -/
lemma eq_xor_units : ∀ b : UInt8,
    (b &&& 1 ∈ unitBytes ∧ b &&& 2 ∈ unitBytes ∧ b &&& 4 ∈ unitBytes ∧ b &&& 8 ∈ unitBytes) ∧
      (b &&& 16 ∈ unitBytes ∧ b &&& 32 ∈ unitBytes ∧ b &&& 64 ∈ unitBytes ∧
        b &&& 128 ∈ unitBytes) ∧
      b = (((b &&& 1) ^^^ (b &&& 2)) ^^^ ((b &&& 4) ^^^ (b &&& 8))) ^^^
        (((b &&& 16) ^^^ (b &&& 32)) ^^^ ((b &&& 64) ^^^ (b &&& 128))) := by
  decide +kernel

/-- What holds of bytes with at most one bit, and of sums, holds of all bytes. -/
lemma byte_induction {P : UInt8 → Prop} (unit : ∀ b ∈ unitBytes, P b)
    (xor : ∀ b c, P b → P c → P (b ^^^ c)) (b : UInt8) : P b := by
  obtain ⟨⟨h0, h1, h2, h3⟩, ⟨h4, h5, h6, h7⟩, hb⟩ := eq_xor_units b
  rw [hb]
  exact xor _ _
    (xor _ _ (xor _ _ (unit _ h0) (unit _ h1)) (xor _ _ (unit _ h2) (unit _ h3)))
    (xor _ _ (xor _ _ (unit _ h4) (unit _ h5)) (xor _ _ (unit _ h6) (unit _ h7)))

end Bytes

namespace Aes

/-! ## Substitution -/

/-- The inverse table undoes the substitution, as a look at all bytes shows. -/
lemma unsubstitute_substitute : ∀ byte, Aes.unsubstitute (Aes.substitute byte) = byte := by
  decide +kernel

/-- The other order needs no second look at all bytes. -/
lemma substitute_unsubstitute (byte : UInt8) : Aes.substitute (Aes.unsubstitute byte) = byte := by
  have h : Function.LeftInverse Aes.unsubstitute Aes.substitute := unsubstitute_substitute
  exact h.rightInverse_of_surjective (Bytes.bijective_of_injective h.injective).surjective byte

/-! ## Mixing of columns -/

/-- The last bit of a byte is zero or one. -/
lemma and_one_eq : ∀ byte : UInt8, byte &&& 1 = 0 ∨ byte &&& 1 = 1 := by
  decide +kernel

/-- The last bit of a sum is the sum of the last bits. -/
lemma xor_and_one (b c : UInt8) : (b ^^^ c) &&& 1 = (b &&& 1) ^^^ (c &&& 1) := by
  apply UInt8.eq_of_toBitVec_eq
  ext i
  simp [Bool.and_xor_distrib_right]

/-- What the low bit of a byte adds to a sum of products. -/
lemma multiplyBits_step_xor (a b c sum sum' : UInt8) :
    (if (b ^^^ c) &&& 1 = 0 then sum ^^^ sum' else (sum ^^^ sum') ^^^ a) =
      (if b &&& 1 = 0 then sum else sum ^^^ a) ^^^ (if c &&& 1 = 0 then sum' else sum' ^^^ a) := by
  rw [xor_and_one]
  rcases and_one_eq b with hb | hb <;> rcases and_one_eq c with hc | hc <;> rw [hb, hc]
  · rfl
  · show sum ^^^ sum' ^^^ a = sum ^^^ (sum' ^^^ a)
    ac_rfl
  · show sum ^^^ sum' ^^^ a = sum ^^^ a ^^^ sum'
    ac_rfl
  · -- the two summands cancel out
    show sum ^^^ sum' = sum ^^^ a ^^^ (sum' ^^^ a)
    calc sum ^^^ sum' = sum ^^^ sum' ^^^ (a ^^^ a) := by rw [UInt8.xor_self, UInt8.xor_zero]
      _ = sum ^^^ a ^^^ (sum' ^^^ a) := by ac_rfl

/-- Shift and add is linear in the second factor, sums being carried along. -/
lemma multiplyBits_xor (n : Nat) (a b c sum sum' : UInt8) :
    multiplyBits n a (b ^^^ c) (sum ^^^ sum') =
      multiplyBits n a b sum ^^^ multiplyBits n a c sum' := by
  induction n generalizing a b c sum sum' with
  | zero => rfl
  | succ n ih => rw [multiplyBits, UInt8.shiftRight_xor, multiplyBits_step_xor, ih]; rfl

/-- Multiplication distributes over sums in the second factor. -/
lemma multiply_xor (a b c : UInt8) : multiply a (b ^^^ c) = multiply a b ^^^ multiply a c :=
  multiplyBits_xor 8 a b c 0 0

/-- The product of a row with a column distributes over sums of columns. -/
lemma dot_xor (m0 m1 m2 m3 : UInt8) (c d : Column) :
    dot m0 m1 m2 m3 (c.xor d) = dot m0 m1 m2 m3 c ^^^ dot m0 m1 m2 m3 d := by
  simp only [dot, Column.xor, multiply_xor]
  ac_rfl

/-- The mixing of columns is linear. -/
lemma mixColumn_xor (c d : Column) : mixColumn (c.xor d) = (mixColumn c).xor (mixColumn d) := by
  simp only [mixColumn, dot_xor]
  rfl

/-- The inverse mixing of columns is linear. -/
lemma unmixColumn_xor (c d : Column) :
    unmixColumn (c.xor d) = (unmixColumn c).xor (unmixColumn d) := by
  simp only [unmixColumn, dot_xor]
  rfl

namespace Column

/-- A function keeps the columns that have a single bit, or none. -/
def FixesUnits (f : Column → Column) : Prop :=
  ∀ b ∈ Bytes.unitBytes, f ⟨b, 0, 0, 0⟩ = ⟨b, 0, 0, 0⟩ ∧ f ⟨0, b, 0, 0⟩ = ⟨0, b, 0, 0⟩ ∧
    f ⟨0, 0, b, 0⟩ = ⟨0, 0, b, 0⟩ ∧ f ⟨0, 0, 0, b⟩ = ⟨0, 0, 0, b⟩

instance (f : Column → Column) : Decidable (FixesUnits f) :=
  inferInstanceAs (Decidable (∀ b ∈ Bytes.unitBytes, _))

/-- Every column is a sum of four that have a single byte. -/
lemma eq_xor_singles (c : Column) : c =
    ((⟨c.b0, 0, 0, 0⟩ : Column).xor ⟨0, c.b1, 0, 0⟩).xor
      ((⟨0, 0, c.b2, 0⟩ : Column).xor ⟨0, 0, 0, c.b3⟩) := by
  simp only [xor, UInt8.xor_zero, UInt8.zero_xor]

/-- A linear function that keeps the columns with a single bit keeps every column. -/
lemma eq_of_fixesUnits {f : Column → Column} (hf : ∀ c d, f (c.xor d) = (f c).xor (f d))
    (h : FixesUnits f) (c : Column) : f c = c := by
  -- a byte is a sum of its bits, wherever it stands in the column
  have single (column : UInt8 → Column)
      (hc : ∀ b b', column (b ^^^ b') = (column b).xor (column b'))
      (hu : ∀ b ∈ Bytes.unitBytes, f (column b) = column b) (b : UInt8) :
      f (column b) = column b := by
    refine Bytes.byte_induction hu (fun b b' hb hb' => ?_) b
    rw [hc, hf, hb, hb']
  rw [eq_xor_singles c, hf, hf, hf, single (⟨·, 0, 0, 0⟩) ?_ fun b hb => (h b hb).1,
    single (⟨0, ·, 0, 0⟩) ?_ fun b hb => (h b hb).2.1,
    single (⟨0, 0, ·, 0⟩) ?_ fun b hb => (h b hb).2.2.1,
    single (⟨0, 0, 0, ·⟩) ?_ fun b hb => (h b hb).2.2.2]
  all_goals
    intro b b'
    simp only [xor, UInt8.xor_self]

end Column

/-- Mixing is undone: by linearity the columns with a single bit decide it. -/
lemma unmixColumn_mixColumn (c : Column) : unmixColumn (mixColumn c) = c := by
  have h : Column.FixesUnits (fun c => unmixColumn (mixColumn c)) := by decide +kernel
  exact Column.eq_of_fixesUnits (fun c d => by rw [mixColumn_xor, unmixColumn_xor]) h c

/-- In the other order, too. -/
lemma mixColumn_unmixColumn (c : Column) : mixColumn (unmixColumn c) = c := by
  have h : Column.FixesUnits (fun c => mixColumn (unmixColumn c)) := by decide +kernel
  exact Column.eq_of_fixesUnits (fun c d => by rw [unmixColumn_xor, mixColumn_xor]) h c

/-! ## Steps of a round -/

namespace Column

/-- A column that is added twice is gone. -/
lemma xor_xor (c d : Column) : (c.xor d).xor d = c := by
  simp only [xor, UInt8.xor_assoc, UInt8.xor_self, UInt8.xor_zero]

/-- What is undone on bytes is undone on columns. -/
lemma map_map {f g : UInt8 → UInt8} (h : ∀ b, g (f b) = b) (c : Column) : (c.map f).map g = c := by
  simp only [map, h]

end Column

namespace State

/-- What is undone on columns is undone on states. -/
lemma map_map {f g : Column → Column} (h : ∀ c, g (f c) = c) (s : State) : (s.map f).map g = s := by
  simp only [map, h]

/-- A round key that is added twice is gone. -/
@[simp] lemma addKey_addKey (key s : State) : addKey key (addKey key s) = s := by
  simp only [addKey, Column.xor_xor]

/-- The substitution of a state is undone by the inverse substitution. -/
@[simp] lemma unsubstitute_substitute (s : State) : s.substitute.unsubstitute = s :=
  map_map (Column.map_map Aes.unsubstitute_substitute) s

/-- The inverse substitution of a state is undone by the substitution. -/
@[simp] lemma substitute_unsubstitute (s : State) : s.unsubstitute.substitute = s :=
  map_map (Column.map_map Aes.substitute_unsubstitute) s

/-- Rows that are shifted are shifted back. -/
@[simp] lemma unshiftRows_shiftRows (s : State) : s.shiftRows.unshiftRows = s := rfl

/-- Rows that are shifted back are shifted again. -/
@[simp] lemma shiftRows_unshiftRows (s : State) : s.unshiftRows.shiftRows = s := rfl

/-- The mixing of a state is undone by the inverse mixing. -/
@[simp] lemma unmixColumns_mixColumns (s : State) : s.mixColumns.unmixColumns = s :=
  map_map unmixColumn_mixColumn s

/-- The inverse mixing of a state is undone by the mixing. -/
@[simp] lemma mixColumns_unmixColumns (s : State) : s.unmixColumns.mixColumns = s :=
  map_map mixColumn_unmixColumn s

/-- A state is read back from its bytes. -/
@[simp] lemma ofBytes_toBytes (s : State) : ofBytes s.toBytes = s := rfl

/-- A block of 16 bytes is read back from its state. -/
lemma toBytes_ofBytes {block : Bytes} (h : block.length = 16) :
    (ofBytes block).toBytes = block := by
  match block, h with
  | [_, _, _, _, _, _, _, _, _, _, _, _, _, _, _, _], _ => rfl

end State

/-! ## Rounds -/

/-- Rounds are undone in the opposite order of their keys. -/
lemma undoRounds_runRounds (keys : List State) (s : State) :
    undoRounds keys (runRounds keys s) = s := by
  induction keys generalizing s with
  | nil => rfl
  | cons key keys ih =>
    cases keys with
    | nil => simp [runRounds, undoRounds]
    | cons next keys => simp [runRounds, undoRounds, ih]

/-- Rounds that were undone can be run again. -/
lemma runRounds_undoRounds (keys : List State) (s : State) :
    runRounds keys (undoRounds keys s) = s := by
  induction keys generalizing s with
  | nil => rfl
  | cons key keys ih =>
    cases keys with
    | nil => simp [runRounds, undoRounds]
    | cons next keys => simp [runRounds, undoRounds, ih]

/-- Decryption of a state undoes its encryption, under any round keys. -/
lemma decryptState_encryptState (keys : List State) (s : State) :
    decryptState keys (encryptState keys s) = s := by
  cases keys with
  | nil => rfl
  | cons key keys => rw [encryptState, decryptState, undoRounds_runRounds, State.addKey_addKey]

/-- Encryption of a state undoes its decryption, under any round keys. -/
lemma encryptState_decryptState (keys : List State) (s : State) :
    encryptState keys (decryptState keys s) = s := by
  cases keys with
  | nil => rfl
  | cons key keys => rw [decryptState, encryptState, State.addKey_addKey, runRounds_undoRounds]

/-- Under any list of round keys AES is invertible in both orders. -/
lemma invertible (keys : List State) : (cipherOf keys).Invertible where
  decrypt_encrypt {block} h := by
    show (decryptState keys (.ofBytes (State.toBytes _))).toBytes = block
    rw [State.ofBytes_toBytes, decryptState_encryptState, State.toBytes_ofBytes h]
  encrypt_decrypt {block} h := by
    show (encryptState keys (.ofBytes (State.toBytes _))).toBytes = block
    rw [State.ofBytes_toBytes, encryptState_decryptState, State.toBytes_ofBytes h]

end Aes

end SymmetricCipher
