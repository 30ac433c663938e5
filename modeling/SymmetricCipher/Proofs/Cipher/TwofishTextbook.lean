import SymmetricCipher.Proofs.Cipher.TwofishMixing
import SymmetricCipher.Proofs.Key

/-!
# Twofish as the textbook has it

Sixteen single rounds, each of which swaps the halves, with the function `g` evaluated byte by byte
and the forty subkeys as the textbook numbers them. `exists_cipher_eq_textbook` says that the tables
of this library, and its rounds taken two at a time, give this cipher for all keys and blocks.

A table holds `g` on a lane (`apply_ofWords`), a pair of rounds leaves the halves where they were
(`doubleRound_eq`), and the lists of key words that the schedule cuts out of a key are the
textbook's (`everySecond_words32LE`, `condensedKey_eq`).
-/

namespace SymmetricCipher.Twofish

/-! ## The cipher -/

namespace Textbook

/-- Rotates a word to the left. -/
def rotl (x : UInt32) (n : ℕ) : UInt32 := .ofBitVec (x.toBitVec.rotateLeft n)

/-- Rotates a word to the right. -/
def rotr (x : UInt32) (n : ℕ) : UInt32 := .ofBitVec (x.toBitVec.rotateRight n)

/-- Word `i` of a byte string, least significant byte first. -/
def wordAt (data : Bytes) (i : ℕ) : UInt32 := word fun j => data.getD (4 * i + j) 0

/-- The words of a key at even places. -/
def evenWords (key : Bytes) : List UInt32 :=
  (List.range (key.length / 8)).map fun i => wordAt key (2 * i)

/-- The words of a key at odd places. -/
def oddWords (key : Bytes) : List UInt32 :=
  (List.range (key.length / 8)).map fun i => wordAt key (2 * i + 1)

/-- The Reed-Solomon words of a key, the last one first. -/
noncomputable def rsWords (key : Bytes) : List UInt32 :=
  ((List.range (key.length / 8)).map fun i => rsWord fun j => key.getD (8 * i + j) 0).reverse

/-- A byte 1 in each place. -/
def rho : ℕ := 2 ^ 24 + 2 ^ 16 + 2 ^ 8 + 2 ^ 0

/-- The part of two subkeys that the words at even places give. -/
noncomputable def evenPart (key : Bytes) (i : ℕ) : UInt32 :=
  h (UInt32.ofNat (2 * i * rho)) (evenWords key)

/-- The part of two subkeys that the words at odd places give. -/
noncomputable def oddPart (key : Bytes) (i : ℕ) : UInt32 :=
  rotl (h (UInt32.ofNat ((2 * i + 1) * rho)) (oddWords key)) 8

/-- Subkey `j`. -/
noncomputable def subkey (key : Bytes) (j : ℕ) : UInt32 :=
  if j % 2 = 0 then evenPart key (j / 2) + oddPart key (j / 2)
  else rotl (evenPart key (j / 2) + 2 * oddPart key (j / 2)) 9

/-- The function `g` of a round. -/
noncomputable def g (key : Bytes) (x : UInt32) : UInt32 := h x (rsWords key)

/-- Round `r`: the second half is masked by a function of the first, and the halves are swapped. -/
noncomputable def round (key : Bytes) (r : ℕ) (x : Quad) : Quad :=
  let t0 := g key x.a
  let t1 := g key (rotl x.b 8)
  let f0 := t0 + t1 + subkey key (2 * r + 8)
  let f1 := t0 + 2 * t1 + subkey key (2 * r + 9)
  ⟨rotr (x.c ^^^ f0) 1, rotl x.d 1 ^^^ f1, x.a, x.b⟩

/-- The words after the first `r` rounds. -/
noncomputable def afterRounds (key : Bytes) (x : Quad) : ℕ → Quad
  | 0 => x
  | r + 1 => round key r (afterRounds key x r)

/-- Masks the words of a block before the rounds. -/
noncomputable def whitenInput (key : Bytes) (x : Quad) : Quad :=
  ⟨x.a ^^^ subkey key 0, x.b ^^^ subkey key 1, x.c ^^^ subkey key 2, x.d ^^^ subkey key 3⟩

/-- Undoes the swap of the last round and masks the words. -/
noncomputable def whitenOutput (key : Bytes) (x : Quad) : Quad :=
  ⟨x.c ^^^ subkey key 4, x.d ^^^ subkey key 5, x.a ^^^ subkey key 6, x.b ^^^ subkey key 7⟩

/-- Encrypts four words in sixteen rounds. -/
noncomputable def encrypt (key : Bytes) (x : Quad) : Quad :=
  whitenOutput key (afterRounds key (whitenInput key x) 16)

/-- Encrypts a block under a key of 16, 24 or 32 bytes. -/
noncomputable def encryptBlock (key block : Bytes) : Bytes :=
  let x := encrypt key ⟨wordAt block 0, wordAt block 1, wordAt block 2, wordAt block 3⟩
  [x.a, x.b, x.c, x.d].flatMap fun w => List.ofFn (byte w)

end Textbook

/-! ## Rotations -/

/-- A rotation to the left is that of the textbook. -/
lemma rotateLeft32_eq (x n : UInt32) (hpos : 0 < n.toNat) (hlt : n.toNat < 32) :
    Word.rotateLeft32 x n = Textbook.rotl x n.toNat := by
  apply UInt32.eq_of_toBitVec_eq
  have h : (4294967296 - n.toNat) % 32 = 32 - n.toNat := by omega
  simp [Word.rotateLeft32, Textbook.rotl, BitVec.rotateLeft_def, Nat.mod_eq_of_lt hlt, h]

/-- A rotation to the right is that of the textbook. -/
lemma rotateRight32_eq (x n : UInt32) (hpos : 0 < n.toNat) (hlt : n.toNat < 32) :
    Word.rotateRight32 x n = Textbook.rotr x n.toNat := by
  apply UInt32.eq_of_toBitVec_eq
  have h : (4294967296 - n.toNat) % 32 = 32 - n.toNat := by omega
  simp [Word.rotateRight32, Textbook.rotr, BitVec.rotateRight_def, Nat.mod_eq_of_lt hlt, h]

/-! ## Key words -/

/-- The words of a text are those at each fourth byte. -/
lemma words32LE_eq {n : ℕ} {data : Bytes} (h : data.length = 4 * n) :
    Bytes.words32LE data = (List.range n).map (Textbook.wordAt data) := by
  induction n generalizing data with
  | zero =>
    rw [List.eq_nil_of_length_eq_zero h]
    rfl
  | succ n ih =>
    match data, h with
    | b0 :: b1 :: b2 :: b3 :: rest, h =>
      have hrest : rest.length = 4 * n := by
        simp only [List.length_cons] at h
        omega
      have hhead : Textbook.wordAt (b0 :: b1 :: b2 :: b3 :: rest) 0 = Bytes.word32LE b0 b1 b2 b3 :=
        word_eq_word32LE _
      have htail (i : ℕ) : Textbook.wordAt (b0 :: b1 :: b2 :: b3 :: rest) (i + 1) =
          Textbook.wordAt rest i := by
        have hplace (j : Fin 4) : 4 * (i + 1) + (j : ℕ) = 4 * i + j + 4 := by omega
        simp only [Textbook.wordAt, hplace]
        rfl
      rw [Bytes.words32LE, ih hrest, List.range_succ_eq_map, List.map_cons, List.map_map, hhead]
      refine congrArg _ (List.map_congr_left fun i _ => ?_)
      exact (htail i).symm

/-- Every second element of a list is its first one, and every second one behind the next. -/
lemma everySecond_cons {α : Type} (x : α) (xs : List α) :
    everySecond (x :: xs) = x :: everySecond xs.tail := by
  cases xs with
  | nil => rfl
  | cons y ys => rfl

/-- Twice as many numbers are two, and the others moved up by two. -/
lemma map_range_two {α : Type} (f : ℕ → α) (n : ℕ) :
    (List.range (2 * (n + 1))).map f =
      f 0 :: f 1 :: (List.range (2 * n)).map fun i => f (i + 2) := by
  rw [Nat.mul_succ, List.range_succ_eq_map, List.range_succ_eq_map, List.map_cons, List.map_cons,
    List.map_cons, List.map_map, List.map_map]
  rfl

/-- Of twice as many numbers, every second one is even or odd, as the first one is. -/
lemma everySecond_map_range {α : Type} (f : ℕ → α) (n : ℕ) :
    everySecond ((List.range (2 * n)).map f) = (List.range n).map (fun i => f (2 * i)) ∧
      everySecond ((List.range (2 * n)).map f).tail = (List.range n).map fun i => f (2 * i + 1) := by
  induction n generalizing f with
  | zero => exact ⟨rfl, rfl⟩
  | succ n ih =>
    obtain ⟨heven, hodd⟩ := ih fun i => f (i + 2)
    rw [map_range_two, List.range_succ_eq_map, List.map_cons, List.map_cons, List.map_map,
      List.map_map]
    refine ⟨?_, ?_⟩
    · rw [everySecond_cons, List.tail_cons, heven]
      rfl
    · rw [List.tail_cons, everySecond_cons, hodd]
      rfl

/-- The first blocks of a text, by their places. -/
lemma firstBlocks_eq_map (n k : ℕ) (data : Bytes) :
    Bytes.firstBlocks n k data = (List.range k).map fun i => (data.drop (i * n)).take n := by
  induction k generalizing data with
  | zero => rfl
  | succ k ih =>
    rw [Bytes.firstBlocks, ih, List.range_succ_eq_map, List.map_cons, List.map_map, Nat.zero_mul,
      List.drop_zero]
    refine congrArg _ (List.map_congr_left fun i _ => ?_)
    rw [List.drop_drop, Function.comp_apply, Nat.succ_mul, Nat.add_comm]

section key

variable {key : Bytes}

/-- Every second word of a key is an even or an odd one of the textbook. -/
lemma everySecond_words32LE (h : key.length % 8 = 0) :
    everySecond (Bytes.words32LE key) = Textbook.evenWords key ∧
      everySecond (Bytes.words32LE key).tail = Textbook.oddWords key := by
  have hlen : key.length = 4 * (2 * (key.length / 8)) := by omega
  rw [words32LE_eq hlen]
  exact everySecond_map_range _ _

/-- A key is condensed to the words of the textbook. -/
lemma condensedKey_eq (h : key.length % 8 = 0) : condensedKey key = Textbook.rsWords key := by
  rw [condensedKey, Bytes.wholeBlocks, firstBlocks_eq_map, List.map_map, Textbook.rsWords]
  refine congrArg _ (List.map_congr_left fun i hi => ?_)
  rw [List.mem_range] at hi
  have hlen : ((key.drop (i * 8)).take 8).length = 8 := by
    rw [List.length_take, List.length_drop]
    omega
  rw [Function.comp_apply, condense_eq hlen]
  congr 1
  funext j
  rw [List.getD_eq_getElem?_getD, List.getElem?_take_of_lt j.isLt, List.getElem?_drop,
    ← List.getD_eq_getElem?_getD, Nat.mul_comm]

variable (hkey : key.length = 16 ∨ key.length = 24 ∨ key.length = 32)

/-- An even subkey is the sum of both parts. -/
lemma subkey_even (key : Bytes) (i : ℕ) :
    Textbook.subkey key (2 * i) = Textbook.evenPart key i + Textbook.oddPart key i := by
  rw [Textbook.subkey, if_pos (Nat.mul_mod_right 2 i), Nat.mul_div_cancel_left i (by decide)]

/-- An odd subkey is that sum with the second part once more, rotated. -/
lemma subkey_odd (key : Bytes) (i : ℕ) : Textbook.subkey key (2 * i + 1) =
    Textbook.rotl (Textbook.evenPart key i + 2 * Textbook.oddPart key i) 9 := by
  have hdiv : (2 * i + 1) / 2 = i := by omega
  rw [Textbook.subkey, if_neg (by omega), hdiv]

include hkey in
/-- The subkeys come in pairs, an even one and an odd one. -/
lemma subkeyPair_eq (i : ℕ) : subkeyPair (Textbook.evenWords key) (Textbook.oddWords key) i =
    (Textbook.subkey key (2 * i), Textbook.subkey key (2 * i + 1)) := by
  have heven : (Textbook.evenWords key).length = key.length / 8 := by
    rw [Textbook.evenWords, List.length_map, List.length_range]
  have hodd : (Textbook.oddWords key).length = key.length / 8 := by
    rw [Textbook.oddWords, List.length_map, List.length_range]
  have ha : mixWord (2 * UInt32.ofNat i * 0x01010101) (Textbook.evenWords key) =
      Textbook.evenPart key i := by
    rw [mixWord_eq_h _ (by omega), Textbook.evenPart, UInt32.ofNat_mul, UInt32.ofNat_mul]
    rfl
  have hb : Word.rotateLeft32
      (mixWord ((2 * UInt32.ofNat i + 1) * 0x01010101) (Textbook.oddWords key)) 8 =
        Textbook.oddPart key i := by
    rw [mixWord_eq_h _ (by omega), rotateLeft32_eq _ 8 (by decide) (by decide), Textbook.oddPart,
      UInt32.ofNat_mul, UInt32.ofNat_add, UInt32.ofNat_mul]
    rfl
  rw [subkey_even, subkey_odd, subkeyPair, ha, hb, rotateLeft32_eq _ 9 (by decide) (by decide),
    UInt32.mul_comm _ 2]
  rfl

/-! ## Rounds -/

include hkey in
/-- The tables of a key compute the function `g`. -/
lemma apply_ofWords (x : UInt32) :
    (Tables.ofWords (Textbook.rsWords key)).apply x = Textbook.g key x := by
  have hlen : (Textbook.rsWords key).length = key.length / 8 := by
    rw [Textbook.rsWords, List.length_reverse, List.length_map, List.length_range]
  have hlane (lane : Lane) : (tabulateLane lane (Textbook.rsWords key)).get (laneByte x lane).toFin =
      mdsColumn lane (throughLane lane (laneByte x lane) (Textbook.rsWords key)) :=
    get_ofFn_toFin (fun y => mdsColumn lane (throughLane lane y (Textbook.rsWords key))) _
  -- the tables are those of the four columns of `h`
  rw [Textbook.g, ← mixWord_eq_h x (by omega), mixWord_eq_xor, Tables.apply]
  simp only [Tables.ofWords, hlane]

end key

section rounds

variable {key : Bytes} {t : Tables} (ht : ∀ x, t.apply x = Textbook.g key x)

include ht in
/-- A round of the textbook, with the words that the tables give. -/
lemma round_eq (x : Quad) (r : ℕ) : Textbook.round key r x =
    ⟨Word.rotateRight32 (x.c ^^^ (t.roundWords x.a x.b (Textbook.subkey key (2 * r + 8))
        (Textbook.subkey key (2 * r + 9))).1) 1,
      Word.rotateLeft32 x.d 1 ^^^ (t.roundWords x.a x.b (Textbook.subkey key (2 * r + 8))
        (Textbook.subkey key (2 * r + 9))).2, x.a, x.b⟩ := by
  rw [rotateRight32_eq _ 1 (by decide) (by decide), rotateLeft32_eq _ 1 (by decide) (by decide),
    Tables.roundWords, ht, ht, rotateLeft32_eq _ 8 (by decide) (by decide), UInt32.mul_comm _ 2]
  rfl

/-- Four subkeys, from place `j` on. -/
noncomputable def subkeys (key : Bytes) (j : ℕ) : Quad :=
  ⟨Textbook.subkey key j, Textbook.subkey key (j + 1), Textbook.subkey key (j + 2),
    Textbook.subkey key (j + 3)⟩

include ht in
/-- Two rounds at once are two rounds, after which the halves are where they were. -/
lemma doubleRound_eq (x : Quad) (r : ℕ) : doubleRound t x (subkeys key (4 * r + 8)) =
    Textbook.round key (2 * r + 1) (Textbook.round key (2 * r) x) := by
  have h0 : 2 * (2 * r) + 8 = 4 * r + 8 := by omega
  have h1 : 2 * (2 * r) + 9 = 4 * r + 8 + 1 := by omega
  have h2 : 2 * (2 * r + 1) + 8 = 4 * r + 8 + 2 := by omega
  have h3 : 2 * (2 * r + 1) + 9 = 4 * r + 8 + 3 := by omega
  -- the second round finds its halves swapped and swaps them back
  rw [round_eq ht, round_eq ht, h0, h1, h2, h3]
  rfl

include ht in
/-- So many double rounds are twice as many rounds. -/
lemma foldl_doubleRound (x : Quad) (n : ℕ) :
    ((List.range n).map fun r => subkeys key (4 * r + 8)).foldl (doubleRound t) x =
      Textbook.afterRounds key x (2 * n) := by
  induction n with
  | zero => rfl
  | succ n ih =>
    rw [List.range_succ, List.map_append, List.foldl_append, List.map_singleton, List.foldl_cons,
      List.foldl_nil, doubleRound_eq ht, ih]
    rfl

end rounds

/-- The schedule of a key holds the subkeys and the words of the textbook. -/
lemma schedule_eq {key : Bytes} (hkey : key.length = 16 ∨ key.length = 24 ∨ key.length = 32) :
    schedule key = ⟨subkeys key 0, subkeys key 4,
      (List.range 8).map fun r => subkeys key (4 * r + 8),
      Tables.ofWords (Textbook.rsWords key)⟩ := by
  obtain ⟨heven, hodd⟩ := everySecond_words32LE (show key.length % 8 = 0 by omega)
  rw [schedule, heven, hodd, condensedKey_eq (by omega)]
  have hquad (i : ℕ) : (⟨Textbook.subkey key (2 * (2 * i)), Textbook.subkey key (2 * (2 * i) + 1),
      Textbook.subkey key (2 * (2 * i + 1)), Textbook.subkey key (2 * (2 * i + 1) + 1)⟩ : Quad) =
        subkeys key (4 * i) := by
    have h0 : 2 * (2 * i) = 4 * i := by omega
    have h2 : 2 * (2 * i + 1) = 4 * i + 2 := by omega
    rw [h0, h2]
    rfl
  simp only [subkeyPair_eq hkey, hquad]
  rfl

/-- A quad is encrypted as in the textbook. -/
lemma encryptQuad_eq {key : Bytes}
    (hkey : key.length = 16 ∨ key.length = 24 ∨ key.length = 32) (x : Quad) :
    encryptQuad (schedule key) x = Textbook.encrypt key x := by
  rw [schedule_eq hkey, encryptQuad, foldl_doubleRound (apply_ofWords hkey)]
  rfl

/-! ## Blocks -/

/-- A block is read as the four words of the textbook. -/
lemma ofBytes_eq (block : Bytes) : Quad.ofBytes block =
    ⟨Textbook.wordAt block 0, Textbook.wordAt block 1, Textbook.wordAt block 2,
      Textbook.wordAt block 3⟩ := by
  simp only [Textbook.wordAt, word_eq_word32LE]
  rfl

/-- Four words are written as the bytes of the textbook. -/
lemma toBytes_eq (x : Quad) :
    x.toBytes = [x.a, x.b, x.c, x.d].flatMap fun w => List.ofFn (Textbook.byte w) := by
  have hword (w : UInt32) : Bytes.ofWord32LE w = List.ofFn (Textbook.byte w) := by
    rw [ofWord32LE_eq, funext (byte_eq_laneByte w)]
    rfl
  simp only [Quad.toBytes, hword, List.flatMap_cons, List.flatMap_nil, List.append_nil,
    List.append_assoc]

/-- Under every key but the empty one, blocks are encrypted as the textbook says, once the key is
filled up or cut. -/
theorem exists_cipher_eq_textbook {key : Bytes} (h : key ≠ []) :
    ∃ normal cipher, normalizeKey key = .ok normal ∧
      (normal.length = 16 ∨ normal.length = 24 ∨ normal.length = 32) ∧
      Twofish.cipher key = .ok cipher ∧ cipher.blockSize = 16 ∧
      ∀ block, block.length = 16 →
        cipher.encryptBlock block = Textbook.encryptBlock normal block := by
  obtain ⟨normal, hn⟩ := normalizeKey_ok (mt List.eq_nil_of_length_eq_zero h)
  have hlen : normal.length = 16 ∨ normal.length = 24 ∨ normal.length = 32 :=
    Algorithm.IsKey.length_twofish ⟨key, hn⟩
  refine ⟨normal, cipherOf (schedule normal), hn, hlen, ?_, rfl, fun block _ => ?_⟩
  · rw [Twofish.cipher, hn]
  · show (encryptQuad (schedule normal) (.ofBytes block)).toBytes = _
    rw [toBytes_eq, encryptQuad_eq hlen, ofBytes_eq]
    rfl

/-- A key of five bytes is the key of sixteen that it is filled up to. -/
theorem exists_cipher_eq_textbook_short :
    ([1, 2, 3, 4, 5] : Bytes) ≠ [] ∧
      ∃ cipher, Twofish.cipher [1, 2, 3, 4, 5] = .ok cipher ∧ cipher.blockSize = 16 ∧
        cipher.encryptBlock (List.replicate 16 7) =
          Textbook.encryptBlock [1, 2, 3, 4, 5, 0, 0, 0, 0, 0, 0, 0, 0, 0, 0, 0]
            (List.replicate 16 7) := by
  have hne : ([1, 2, 3, 4, 5] : Bytes) ≠ [] := List.cons_ne_nil _ _
  obtain ⟨normal, cipher, hn, -, hc, hsize, htextbook⟩ := exists_cipher_eq_textbook hne
  have hfilled : normalizeKey [1, 2, 3, 4, 5] =
      .ok [1, 2, 3, 4, 5, 0, 0, 0, 0, 0, 0, 0, 0, 0, 0, 0] := rfl
  rw [hfilled] at hn
  cases hn
  exact ⟨hne, cipher, hc, hsize, htextbook _ List.length_replicate⟩

end SymmetricCipher.Twofish
