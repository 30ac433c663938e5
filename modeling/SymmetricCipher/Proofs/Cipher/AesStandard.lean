import SymmetricCipher.Proofs.Cipher.AesField

/-!
# AES as a cipher over its field

The cipher of the standard, written over the field of 256 elements: a state is a square of elements,
substitution and mixing are what they are in the field, round constants are powers of the root, and
the expanded key is a recurrence on words. `exists_cipher_eq_standard` says that the tables, the
layout of the state and the key expansion of this library give this cipher, for all keys and blocks.

The words of the expanded key are compared one after the other (`represents_expandStep`), the state
step by step of a round, and the rounds by induction on their number.
-/

namespace SymmetricCipher.Aes

/-! ## The cipher -/

namespace Standard

/-- A column of the state or a word of the key. -/
abbrev Word := Fin 4 → Element

/-- Four columns of the state, or four words of the key. -/
abbrev Square := Fin 4 → Word

/-- Substitutes every element of a word. -/
noncomputable def substituteWord (w : Word) : Word := fun row => substituteElement (w row)

/-- Moves every element up by one row, the first to the end. -/
def rotateWord (w : Word) : Word := fun row => w (finRotate 4 row)

/-- Round constant `i`, `x` to the power `i - 1`. -/
noncomputable def roundConstant (i : ℕ) : Word := ![AdjoinRoot.root modulus ^ (i - 1), 0, 0, 0]

/-- What masks word `i` of the expanded key of `nk` words, made of the word before it. -/
noncomputable def mask (nk i : ℕ) (last : Word) : Word :=
  if i % nk = 0 then substituteWord (rotateWord last) + roundConstant (i / nk)
  else if 6 < nk ∧ i % nk = 4 then substituteWord last
  else last

/-- Word `i` of the expanded key, for a key of `nk` words. -/
noncomputable def expandedKey (nk : ℕ) (key : ℕ → Word) (i : ℕ) : Word :=
  if i < nk ∨ nk = 0 then key i
  else expandedKey nk key (i - nk) + mask nk i (expandedKey nk key (i - 1))
termination_by i
decreasing_by all_goals omega

/-- The words of the expanded key that make round key `r`. -/
noncomputable def roundKey (nk : ℕ) (key : ℕ → Word) (r : ℕ) : Square :=
  fun column => expandedKey nk key (4 * r + column)

/-- Substitutes every element of the state. -/
noncomputable def substituteSquare (s : Square) : Square := fun column => substituteWord (s column)

/-- Moves row `r` to the left by `r` columns. -/
def shiftRows (s : Square) : Square := fun column row => s (column + row) row

/-- Mixes every column. -/
noncomputable def mixColumns (s : Square) : Square := fun column => mixElements (s column)

/-- The state after `r` full rounds. -/
noncomputable def afterRounds (keys : ℕ → Square) (s : Square) : ℕ → Square
  | 0 => s + keys 0
  | r + 1 => mixColumns (shiftRows (substituteSquare (afterRounds keys s r))) + keys (r + 1)

/-- The state after all rounds, the last of which does not mix columns. -/
noncomputable def encrypt (keys : ℕ → Square) (rounds : ℕ) (s : Square) : Square :=
  shiftRows (substituteSquare (afterRounds keys s (rounds - 1))) + keys rounds

/-- The square that a block fills, column by column. -/
noncomputable def ofBlock (block : Bytes) : Square :=
  fun column row => element (block.getD (row + 4 * column) 0)

/-- The block that fills a square. -/
noncomputable def toBlock (s : Square) : Bytes :=
  List.ofFn fun i : Fin (4 * 4) => Bytes.ofResidue modulus (s i.divNat i.modNat)

/-- Word `i` of a key. -/
noncomputable def keyWord (key : Bytes) (i : ℕ) : Word :=
  fun row => element (key.getD (4 * i + row) 0)

/-- Encrypts a block under a key of `nk` words in `nk + 6` rounds. -/
noncomputable def encryptBlock (key block : Bytes) : Bytes :=
  let nk := key.length / 4
  toBlock (encrypt (roundKey nk (keyWord key)) (nk + 6) (ofBlock block))

end Standard

/-! ## Words -/

namespace Column

/-- The sum of columns is the sum of words of field elements. -/
lemma elements_xor (c d : Column) : (c.xor d).elements = c.elements + d.elements := by
  funext i
  have h : (c.xor d).row i = c.row i ^^^ d.row i := by fin_cases i <;> rfl
  rw [elements, h, element_xor]
  rfl

/-- The table substitutes the bytes of a column as the standard does. -/
lemma elements_substitute (c : Column) :
    (c.map substitute).elements = Standard.substituteWord c.elements := by
  funext i
  have h : (c.map substitute).row i = substitute (c.row i) := by fin_cases i <;> rfl
  rw [elements, h, element_substitute]
  rfl

/-- A column is rotated as the word of its elements. -/
lemma elements_rotate (c : Column) : c.rotate.elements = Standard.rotateWord c.elements := by
  funext i
  have h : c.rotate.row i = c.row (finRotate 4 i) := by fin_cases i <;> rfl
  rw [elements, h]
  rfl

end Column

/-! ## The expanded key -/

/-- Every round constant is the double of the one before. -/
lemma roundConstants_succ : ∀ i < 9,
    roundConstants.getD (i + 1) 0 = Bytes.double 0x1b (roundConstants.getD i 0) := by
  decide

/-- The round constants are the powers of the root. -/
lemma element_roundConstants {i : ℕ} (h : i < 10) :
    element (roundConstants.getD i 0) = AdjoinRoot.root modulus ^ i := by
  induction i with
  | zero => exact element_one.trans (pow_zero _).symm
  | succ i ih =>
    rw [roundConstants_succ i (Nat.lt_of_succ_lt_succ h), pow_succ', ← ih (Nat.lt_of_succ_lt h)]
    exact Bytes.residue_double modulus_eq _

/-- The first byte of a column is masked as if the others were masked by zero. -/
lemma elements_mask (c : Column) (b : UInt8) :
    ({ c with b0 := c.b0 ^^^ b } : Column).elements = c.elements + ![element b, 0, 0, 0] := by
  have hxor : ({ c with b0 := c.b0 ^^^ b } : Column) = c.xor ⟨b, 0, 0, 0⟩ := by
    simp only [Column.xor, UInt8.xor_zero]
  have hmask : (⟨b, 0, 0, 0⟩ : Column).elements = ![element b, 0, 0, 0] := by
    funext i
    fin_cases i
    · rfl
    all_goals exact element_zero
  rw [hxor, Column.elements_xor, hmask]

/-- A column that is rotated, substituted and has a constant added to it, in the words of the
standard. -/
lemma elements_scramble {i : ℕ} (h : i - 1 < 10) (last : Column) :
    ({ last.rotate.map substitute with
        b0 := (last.rotate.map substitute).b0 ^^^ roundConstants.getD (i - 1) 0 } : Column).elements =
      Standard.substituteWord (Standard.rotateWord last.elements) + Standard.roundConstant i := by
  rw [elements_mask, Column.elements_substitute, Column.elements_rotate, element_roundConstants h]
  rfl

/-- Words that are those of the expanded key up to place `n`. -/
structure Represents (nk : ℕ) (key : ℕ → Standard.Word) (n : ℕ) (words : Array Column) : Prop where
  size : words.size = n
  elements : ∀ i < n, (words.getD i .zero).elements = Standard.expandedKey nk key i

section expand

variable {nk : ℕ} {key : ℕ → Standard.Word} {words : Array Column}

/-- The first words of the expanded key are the key. -/
lemma expandedKey_of_lt {i : ℕ} (h : i < nk) : Standard.expandedKey nk key i = key i := by
  rw [Standard.expandedKey, if_pos (.inl h)]

/-- Every later word is the one a key length before it, masked by the word just before. -/
lemma expandedKey_of_le {i : ℕ} (hpos : 0 < nk) (h : nk ≤ i) :
    Standard.expandedKey nk key i = Standard.expandedKey nk key (i - nk) +
      Standard.mask nk i (Standard.expandedKey nk key (i - 1)) := by
  rw [Standard.expandedKey, if_neg (by omega)]

/-- Words represent an expanded key further on with the next word behind them. -/
lemma Represents.push {n : ℕ} {c : Column} (h : Represents nk key n words)
    (hc : c.elements = Standard.expandedKey nk key n) : Represents nk key (n + 1) (words.push c) := by
  refine ⟨?_, fun i hi => ?_⟩
  · rw [Array.size_push, h.size]
  · rw [Array.getD_eq_getD_getElem?, Array.getElem?_push, h.size]
    by_cases he : i = n
    · rw [if_pos he, Option.getD_some, hc, he]
    · rw [if_neg he, ← Array.getD_eq_getD_getElem?]
      exact h.elements i (by omega)

/-- A step of the expansion adds the next word. -/
lemma represents_expandStep {i : ℕ} (hpos : 0 < nk) (hi : nk ≤ i) (hround : i / nk - 1 < 10)
    (h : Represents nk key i words) : Represents nk key (i + 1) (expandStep nk words i) := by
  have hlast := h.elements (i - 1) (by omega)
  have hback := h.elements (i - nk) (by omega)
  rw [expandStep]
  refine h.push ?_
  rw [Column.elements_xor, expandedKey_of_le hpos hi, hback, Standard.mask, ← hlast]
  -- both masks ask the same questions about the place
  refine congrArg (_ + ·) ?_
  split
  · exact elements_scramble hround _
  · split
    · exact Column.elements_substitute _
    · rfl

/-- By induction, so many steps add so many words. -/
lemma represents_foldl {n : ℕ} (hpos : 0 < nk) (hrounds : ∀ i < nk + n, i / nk - 1 < 10)
    (h : Represents nk key nk words) :
    Represents nk key (nk + n) ((List.range' nk n).foldl (expandStep nk) words) := by
  induction n with
  | zero => exact h
  | succ n ih =>
    rw [List.range'_1_concat, List.foldl_append]
    exact represents_expandStep hpos (Nat.le_add_right nk n) (hrounds _ (Nat.lt_succ_self _))
      (ih fun i hi => hrounds i (Nat.lt_succ_of_lt hi))

end expand

/-! ## Squares -/

namespace State

/-- A column of the state. -/
def column (s : State) : Fin 4 → Column := ![s.c0, s.c1, s.c2, s.c3]

/-- The elements of a state. -/
noncomputable def elements (s : State) (i : Fin 4) : Standard.Word := (s.column i).elements

/-- A round key is added as the square of its elements. -/
lemma elements_addKey (key s : State) : (addKey key s).elements = s.elements + key.elements := by
  funext i
  have h : (addKey key s).column i = (s.column i).xor (key.column i) := by fin_cases i <;> rfl
  rw [elements, h, Column.elements_xor]
  rfl

/-- The substitution of a state is that of the standard. -/
lemma elements_substitute (s : State) :
    s.substitute.elements = Standard.substituteSquare s.elements := by
  funext i
  have h : s.substitute.column i = (s.column i).map Aes.substitute := by fin_cases i <;> rfl
  rw [elements, h, Column.elements_substitute]
  rfl

/-- The rows of a state are shifted as in the standard. -/
lemma elements_shiftRows (s : State) : s.shiftRows.elements = Standard.shiftRows s.elements := by
  funext i row
  have h : (s.shiftRows.column i).row row = (s.column (i + row)).row row := by
    fin_cases i <;> fin_cases row <;> rfl
  rw [elements, Column.elements, h]
  rfl

/-- The columns of a state are mixed as in the standard. -/
lemma elements_mixColumns (s : State) : s.mixColumns.elements = Standard.mixColumns s.elements := by
  funext i
  have h : s.mixColumns.column i = mixColumn (s.column i) := by fin_cases i <;> rfl
  rw [elements, h, elements_mixColumn]
  rfl

/-- A block is read as the square of the standard. -/
lemma elements_ofBytes (block : Bytes) : (ofBytes block).elements = Standard.ofBlock block := by
  funext i row
  have h : ((ofBytes block).column i).row row = block.getD (row + 4 * i) 0 := by
    fin_cases i <;> fin_cases row <;> rfl
  rw [elements, Column.elements, h]
  rfl

/-- The square of the standard is written as the block. -/
lemma toBlock_elements (s : State) : Standard.toBlock s.elements = s.toBytes := by
  have h (i : Fin (4 * 4)) : Bytes.ofResidue modulus (s.elements i.divNat i.modNat) =
      (s.column i.divNat).row i.modNat := Bytes.ofResidue_residue modulus_eq _
  simp only [Standard.toBlock, h]
  rfl

end State

/-! ## Rounds -/

/-- The rounds after the first `a`, of which the last one is without mixing. -/
lemma elements_runRounds {keys : ℕ → State} {squares : ℕ → Standard.Square} {start : Standard.Square}
    {n a : ℕ} (hkeys : ∀ r ≤ a + n + 1, (keys r).elements = squares r) {s : State}
    (hs : s.elements = Standard.afterRounds squares start a) :
    (runRounds ((List.range' (a + 1) (n + 1)).map keys) s).elements =
      Standard.encrypt squares (a + n + 1) start := by
  -- on the full rounds that are left, `a` of them being done
  induction n generalizing a s with
  | zero =>
    show (State.addKey (keys (a + 1)) s.substitute.shiftRows).elements = _
    rw [State.elements_addKey, State.elements_shiftRows, State.elements_substitute, hs,
      hkeys _ (Nat.le_refl _)]
    rfl
  | succ n ih =>
    have hround : (State.addKey (keys (a + 1)) s.substitute.shiftRows.mixColumns).elements =
        Standard.afterRounds squares start (a + 1) := by
      rw [State.elements_addKey, State.elements_mixColumns, State.elements_shiftRows,
        State.elements_substitute, hs, hkeys _ (by omega)]
      rfl
    have h := ih (fun r hr => hkeys r (by omega)) hround
    rw [show a + 1 + n = a + (n + 1) by omega] at h
    exact h

/-- Encryption of a state under round keys is that of the standard under the same keys. -/
lemma elements_encryptState {keys : ℕ → State} {squares : ℕ → Standard.Square} {n : ℕ}
    (hkeys : ∀ r ≤ n + 1, (keys r).elements = squares r) (s : State) :
    (encryptState ((List.range (n + 2)).map keys) s).elements =
      Standard.encrypt squares (n + 1) s.elements := by
  have hstart : (State.addKey (keys 0) s).elements =
      Standard.afterRounds squares s.elements 0 := by
    rw [State.elements_addKey, hkeys 0 (Nat.zero_le _)]
    rfl
  have h := elements_runRounds (by rwa [Nat.zero_add]) hstart
  rw [Nat.zero_add n] at h
  rw [List.range_eq_range', List.range'_succ, List.map_cons, encryptState]
  exact h

/-! ## Keys -/

section keys

variable {key : Bytes} {nk : ℕ}

/-- The columns of a key are the words of the standard. -/
lemma elements_ofBytes_key (key : Bytes) (i : ℕ) :
    (Column.ofBytes key (4 * i)).elements = Standard.keyWord key i := by
  funext row
  have h : (Column.ofBytes key (4 * i)).row row = key.getD (4 * i + row) 0 := by
    fin_cases row <;> rfl
  rw [Column.elements, h]
  rfl

/-- The key words represent the expanded key as far as the key goes. -/
lemma represents_keyWords (hlen : key.length = 4 * nk) :
    Represents nk (Standard.keyWord key) nk (keyWords key) := by
  have hdiv : key.length / 4 = nk := by omega
  rw [keyWords, hdiv]
  refine ⟨?_, fun i hi => ?_⟩
  · rw [List.size_toArray, List.length_map, List.length_range]
  · rw [expandedKey_of_lt hi, ← elements_ofBytes_key, Array.getD_eq_getD_getElem?,
      List.getElem?_toArray, List.getElem?_map, List.getElem?_range hi]
    rfl

/-- The expansion gives all words of the expanded key, for each of the three key lengths. -/
lemma represents_expand (hlen : key.length = 4 * nk) (hnk : nk = 4 ∨ nk = 6 ∨ nk = 8) :
    Represents nk (Standard.keyWord key) (4 * (nk + 7)) (expand nk (keyWords key)) := by
  have hpos : 0 < nk := by omega
  have hsum : nk + (4 * (nk + 7) - nk) = 4 * (nk + 7) := by omega
  have h := represents_foldl hpos (n := 4 * (nk + 7) - nk) ?_ (represents_keyWords hlen)
  · rwa [hsum] at h
  · -- there are constants for ten turns of the key, and no place is behind the tenth
    intro i hi
    have hlt : i < 11 * nk := by omega
    have hdiv : i / nk < 11 := (Nat.div_lt_iff_lt_mul hpos).2 hlt
    omega

/-- Four words of the expanded key are a round key of the standard. -/
lemma elements_keyState {words : Array Column} {n r : ℕ} {first : ℕ → Standard.Word}
    (h : Represents nk first n words) (hr : 4 * r + 3 < n) :
    (keyState words r).elements = Standard.roundKey nk first r := by
  funext i
  have hcolumn : (keyState words r).column i = words.getD (4 * r + i) .zero := by
    fin_cases i <;> rfl
  rw [State.elements, hcolumn]
  exact h.elements _ (by omega)

end keys

/-- Under a key of 16, 24 or 32 bytes, blocks are encrypted as the standard says. -/
theorem exists_cipher_eq_standard {key : Bytes}
    (h : key.length = 16 ∨ key.length = 24 ∨ key.length = 32) :
    ∃ cipher, Aes.cipher key = .ok cipher ∧ cipher.blockSize = 16 ∧
      ∀ block, block.length = 16 → cipher.encryptBlock block = Standard.encryptBlock key block := by
  refine ⟨_, if_pos h, rfl, fun block _ => ?_⟩
  obtain ⟨nk, hlen, hnk⟩ : ∃ nk, key.length = 4 * nk ∧ (nk = 4 ∨ nk = 6 ∨ nk = 8) :=
    ⟨key.length / 4, by omega, by omega⟩
  have hdiv : key.length / 4 = nk := by omega
  have hwords := represents_expand hlen hnk
  have hkeys : roundKeys key =
      (List.range (nk + 5 + 2)).map (keyState (expand nk (keyWords key))) := by
    rw [roundKeys, hdiv]
  show (encryptState (roundKeys key) (.ofBytes block)).toBytes = _
  rw [hkeys, ← State.toBlock_elements, elements_encryptState fun r hr =>
    elements_keyState hwords (by omega), State.elements_ofBytes, Standard.encryptBlock, hdiv]

/-- A key of 32 bytes, whose expansion substitutes halfway between. -/
theorem exists_cipher_eq_standard_counting :
    ((List.range 32).map UInt8.ofNat).length = 32 ∧
      Standard.encryptBlock ((List.range 32).map UInt8.ofNat)
        ((List.range 16).map fun i => UInt8.ofNat (17 * i)) =
          [0x8e, 0xa2, 0xb7, 0xca, 0x51, 0x67, 0x45, 0xbf, 0xea, 0xfc, 0x49, 0x90, 0x4b, 0x49, 0x60,
            0x89] := by
  obtain ⟨cipher, hc, -, hstandard⟩ :=
    @exists_cipher_eq_standard ((List.range 32).map UInt8.ofNat) (.inr (.inr rfl))
  refine ⟨rfl, ?_⟩
  rw [← hstandard _ rfl]
  cases hc
  decide +kernel

end SymmetricCipher.Aes
