import Mathlib.Data.Set.Prod
import SymmetricCipher.Proofs.Cipher.TwofishMixing
import SymmetricCipher.Proofs.Key

/-!
# The tables of Twofish lose nothing

A byte permutation of Twofish works on the two four-bit halves of a byte. It mixes them, looks both
up and does this once more, and it is a permutation because mixing can be undone and each of the
four tables holds the sixteen four-bit numbers (`permuteByte_injective`). A lane goes through such
permutations and is masked in between, so it is a permutation under any key words
(`maskedByte_injective`).

A product with an entry of the mixing matrix can be taken back, because every entry has an inverse
modulo `0x169` (`multiply_mds_injective`). So each of the four bytes of the words in a table takes
all 256 values, and the words themselves all differ.
-/

namespace SymmetricCipher.Twofish

/-! ## Four-bit numbers -/

/-- The four-bit numbers. -/
def nibbles : List UInt8 := (List.range 16).map UInt8.ofNat

/-- Pairs of four-bit numbers. -/
def nibblePairs : Set (UInt8 × UInt8) := {p | p.1 ∈ nibbles ∧ p.2 ∈ nibbles}

/-- Each of the tables is a permutation of the four-bit numbers. -/
structure NibbleTables.Valid (t : NibbleTables) : Prop where
  t0 : t.t0.Perm nibbles
  t1 : t.t1.Perm nibbles
  t2 : t.t2.Perm nibbles
  t3 : t.t3.Perm nibbles

/-- The four tables of the first permutation hold every nibble once. -/
lemma nibbles0_valid : nibbles0.Valid := ⟨by decide, by decide, by decide, by decide⟩

/-- The four tables of the second permutation hold every nibble once. -/
lemma nibbles1_valid : nibbles1.Valid := ⟨by decide, by decide, by decide, by decide⟩

/-- What holds of all pairs of four-bit numbers is found out by going through the list of them, and
not through all pairs of bytes. -/
lemma forall_nibbles {P : UInt8 → UInt8 → Prop} [∀ a b, Decidable (P a b)]
    (h : nibbles.all fun a => nibbles.all fun b => P a b) : ∀ a ∈ nibbles, ∀ b ∈ nibbles, P a b := by
  intro a ha b hb
  exact of_decide_eq_true (List.all_eq_true.1 (List.all_eq_true.1 h a ha) b hb)

/-- A nibble is less than 16. -/
lemma toNat_lt_of_mem_nibbles {a : UInt8} (h : a ∈ nibbles) : a.toNat < 16 := by
  obtain ⟨n, hn, rfl⟩ := List.mem_map.1 h
  exact (Nat.mod_le n 256).trans_lt (List.mem_range.1 hn)

section table

variable {table : List UInt8} (h : table.Perm nibbles) {a b : UInt8}
include h

/-- A nibble is within the range of a table. -/
lemma getD_eq_getElem (ha : a ∈ nibbles) :
    ∃ hlt : a.toNat < table.length, table.getD a.toNat 0 = table[a.toNat] := by
  have hlt : a.toNat < table.length := by
    rw [h.length_eq]
    exact toNat_lt_of_mem_nibbles ha
  exact ⟨hlt, (List.getElem_eq_getD 0).symm⟩

/-- A table takes nibbles to nibbles. -/
lemma getD_mem_nibbles (ha : a ∈ nibbles) : table.getD a.toNat 0 ∈ nibbles := by
  obtain ⟨hlt, e⟩ := getD_eq_getElem h ha
  rw [e]
  exact h.mem_iff.1 (List.getElem_mem hlt)

/-- A table takes different nibbles to different ones. -/
lemma getD_inj (ha : a ∈ nibbles) (hb : b ∈ nibbles)
    (e : table.getD a.toNat 0 = table.getD b.toNat 0) : a = b := by
  have hnodup : table.Nodup := h.nodup_iff.2 (by decide)
  obtain ⟨hlt, ea⟩ := getD_eq_getElem h ha
  obtain ⟨hlt', eb⟩ := getD_eq_getElem h hb
  rw [ea, eb, hnodup.getElem_inj_iff] at e
  exact UInt8.toNat_inj.1 e

end table

/-! ## Byte permutations -/

/-- The high and the low half of a byte. -/
def halves (x : UInt8) : UInt8 × UInt8 := (x >>> 4, x &&& 0x0f)

/-- What `mixNibbles` mixes, from what it makes of it. -/
def unmixNibbles (a b : UInt8) : UInt8 × UInt8 :=
  let folded := b ^^^ rotateNibble a
  let folded := folded ^^^ (folded >>> 1)
  let first := folded ^^^ (folded >>> 2)
  (first, a ^^^ first)

/-- Two nibbles are mixed to two nibbles. -/
lemma mixNibbles_mem : ∀ a ∈ nibbles, ∀ b ∈ nibbles,
    (mixNibbles a b).1 ∈ nibbles ∧ (mixNibbles a b).2 ∈ nibbles :=
  forall_nibbles (by decide +kernel)

/-- Two nibbles can be told from what they are mixed to. -/
lemma unmixNibbles_mixNibbles : ∀ a ∈ nibbles, ∀ b ∈ nibbles,
    unmixNibbles (mixNibbles a b).1 (mixNibbles a b).2 = (a, b) :=
  forall_nibbles (by decide +kernel)

/-- Mixes a pair and looks it up in two tables. -/
def mixAndLookUp (s t : List UInt8) (p : UInt8 × UInt8) : UInt8 × UInt8 :=
  (s.getD (mixNibbles p.1 p.2).1.toNat 0, t.getD (mixNibbles p.1 p.2).2.toNat 0)

section mixAndLookUp

variable {s t : List UInt8} (hs : s.Perm nibbles) (ht : t.Perm nibbles)
include hs ht

/-- A half of a permutation takes pairs of nibbles to pairs of nibbles. -/
lemma mapsTo_mixAndLookUp : Set.MapsTo (mixAndLookUp s t) nibblePairs nibblePairs := by
  rintro ⟨a, b⟩ ⟨ha, hb⟩
  obtain ⟨hfirst, hsecond⟩ := mixNibbles_mem a ha b hb
  exact ⟨getD_mem_nibbles hs hfirst, getD_mem_nibbles ht hsecond⟩

/-- A half of a permutation takes different pairs to different ones. -/
lemma injOn_mixAndLookUp : Set.InjOn (mixAndLookUp s t) nibblePairs := by
  rintro ⟨a, b⟩ ⟨ha, hb⟩ ⟨a', b'⟩ ⟨ha', hb'⟩ e
  obtain ⟨hfirst, hsecond⟩ := mixNibbles_mem a ha b hb
  obtain ⟨hfirst', hsecond'⟩ := mixNibbles_mem a' ha' b' hb'
  obtain ⟨e0, e1⟩ := Prod.mk.inj e
  have hmixed : mixNibbles a b = mixNibbles a' b' :=
    Prod.ext (getD_inj hs hfirst hfirst' e0) (getD_inj ht hsecond hsecond' e1)
  rw [← unmixNibbles_mixNibbles a ha b hb, hmixed, unmixNibbles_mixNibbles a' ha' b' hb']

end mixAndLookUp

/-- The halves of a byte are nibbles. -/
lemma halves_mem : ∀ x, halves x ∈ nibblePairs := by
  have h : ∀ x : UInt8, x >>> 4 ∈ nibbles ∧ x &&& 0x0f ∈ nibbles := by decide +kernel
  exact h

/-- A byte is told by its halves. -/
lemma halves_injective : Function.Injective halves := by
  have h : ∀ x : UInt8, ((halves x).1 <<< 4) ||| (halves x).2 = x := by decide +kernel
  intro x y e
  rw [← h x, e, h]

/-- The halves of two joined nibbles are these nibbles. -/
lemma halves_join : ∀ a ∈ nibbles, ∀ b ∈ nibbles, halves ((b <<< 4) ||| a) = (b, a) :=
  forall_nibbles (by decide +kernel)

/-- Different pairs of nibbles are joined to different bytes. -/
lemma injOn_join : Set.InjOn (fun p : UInt8 × UInt8 => (p.2 <<< 4) ||| p.1) nibblePairs := by
  rintro ⟨a, b⟩ ⟨ha, hb⟩ ⟨a', b'⟩ ⟨ha', hb'⟩ e
  have hhalves := congrArg halves e
  simp only [halves_join a ha b hb, halves_join a' ha' b' hb', Prod.mk.injEq] at hhalves
  exact Prod.ext hhalves.2 hhalves.1

/-- Four permutations of four-bit numbers make a permutation of bytes. -/
lemma permuteByte_injective {t : NibbleTables} (h : t.Valid) :
    Function.Injective (permuteByte t) := by
  intro x y e
  have hfirst := mapsTo_mixAndLookUp h.t0 h.t1
  have hsecond := mapsTo_mixAndLookUp h.t2 h.t3
  apply halves_injective
  apply injOn_mixAndLookUp h.t0 h.t1 (halves_mem x) (halves_mem y)
  apply injOn_mixAndLookUp h.t2 h.t3 (hfirst (halves_mem x)) (hfirst (halves_mem y))
  exact injOn_join (hsecond (hfirst (halves_mem x))) (hsecond (hfirst (halves_mem y))) e

/-- Both permutations take different bytes to different ones: every step of theirs does. -/
lemma permute_injective (i : Fin 2) : Function.Injective (Textbook.permute i) := by
  match i with
  | 0 => exact permuteByte_injective nibbles0_valid
  | 1 => exact permuteByte_injective nibbles1_valid

/-! ## Lanes -/

/-- Under any key words, a lane takes no two bytes to the same one. -/
lemma maskedByte_injective (lane : Lane) (i : ℕ) (words : List UInt32) :
    Function.Injective fun y => Textbook.maskedByte lane y i words := by
  induction words generalizing i with
  | nil => exact Function.injective_id
  | cons word words ih =>
    intro x y e
    exact ih (i + 1) (permute_injective _ ((UInt8.xor_left_inj _).1 e))

/-- A lane takes no two bytes to the same one, for 2 to 4 words of any value. -/
lemma throughLane_injective (lane : Lane) {words : List UInt32}
    (h : words.length = 2 ∨ words.length = 3 ∨ words.length = 4) :
    Function.Injective fun y => throughLane lane y words := by
  intro x y e
  apply maskedByte_injective lane 0 words
  apply permute_injective (Textbook.lastChoice lane)
  simpa only [throughLane_eq lane _ h] using e

/-! ## Products -/

/-- Every entry of the mixing matrix has an inverse. -/
lemma exists_multiply_mds_eq_one (row lane : Lane) :
    ∃ inverse, multiply mdsModulus inverse (Textbook.mds row lane) = 1 := by
  have hinverses : ∀ row lane : Lane, ([0x01, 0x49, 0x89] : Bytes).any fun inverse =>
      multiply mdsModulus inverse (Textbook.mds row lane) = 1 := by
    decide +kernel
  obtain ⟨inverse, -, h⟩ := List.any_eq_true.1 (hinverses row lane)
  exact ⟨inverse, of_decide_eq_true h⟩

/-- The product with an entry of the mixing matrix is taken back by its inverse. -/
lemma multiply_mds_injective (row lane : Lane) :
    Function.Injective (multiply mdsModulus (Textbook.mds row lane)) := by
  obtain ⟨inverse, hinverse⟩ := exists_multiply_mds_eq_one row lane
  have hback (y : UInt8) : Bytes.residue Textbook.mdsPolynomial y =
      Bytes.residue _ inverse * Bytes.residue _ (multiply mdsModulus (Textbook.mds row lane) y) := by
    rw [residue_multiply mdsPolynomial_eq mdsModulus_doubles, ← mul_assoc,
      ← residue_multiply mdsPolynomial_eq mdsModulus_doubles, hinverse, Bytes.residue_one, one_mul]
  intro x y e
  apply Bytes.residue_injective mdsPolynomial_eq
  rw [hback x, e, ← hback y]

/-! ## Tables -/

/-- The tables of the lanes, in their order. -/
def Tables.toList (t : Tables) : List (Vector UInt32 256) := [t.t0, t.t1, t.t2, t.t3]

/-- The 256 numbers below 256 are different bytes. -/
lemma ofNat_injective : Function.Injective fun i : Fin 256 => UInt8.ofNat i := by
  intro i j e
  have hvalue := congrArg UInt8.toNat e
  rw [UInt8.toNat_ofNat_of_lt' i.isLt, UInt8.toNat_ofNat_of_lt' j.isLt] at hvalue
  exact Fin.ext hvalue

/-- In the table of a lane no byte is found twice at the same place of a word. -/
lemma nodup_map_laneByte_tabulateLane (lane row : Lane) {words : List UInt32}
    (h : words.length = 2 ∨ words.length = 3 ∨ words.length = 4) :
    ((tabulateLane lane words).toList.map (laneByte · row)).Nodup := by
  rw [tabulateLane, Vector.toList_ofFn, List.map_ofFn, List.nodup_ofFn]
  intro i j e
  simp only [Function.comp_apply, laneByte_mdsColumn] at e
  exact ofNat_injective (throughLane_injective lane h (multiply_mds_injective row lane e))

/-- There is one word for every eight bytes of a key. -/
lemma length_condensedKey (key : Bytes) : (condensedKey key).length = key.length / 8 := by
  rw [condensedKey, List.length_reverse, List.length_map, Bytes.length_wholeBlocks]

/-- Every lane permutes the bytes, whatever two to four key words it has. Hence in each of the four
tables of any key but the empty one, no byte comes twice at the same place of a word, and so no word
comes twice. -/
theorem lanes_permute_tables_differ :
    (∀ words : List UInt32, words.length = 2 ∨ words.length = 3 ∨ words.length = 4 →
      ∀ lane : Lane, Function.Bijective fun y => throughLane lane y words) ∧
    ∀ key : Bytes, key ≠ [] → ∃ normal, normalizeKey key = .ok normal ∧
      Twofish.cipher key = .ok (cipherOf (schedule normal)) ∧
      ∀ table ∈ (schedule normal).tables.toList,
        table.toList.Nodup ∧ ∀ row : Lane, (table.toList.map (laneByte · row)).Nodup := by
  refine ⟨fun words h lane => Bytes.bijective_of_injective (throughLane_injective lane h),
    fun key h => ?_⟩
  obtain ⟨normal, hn⟩ := normalizeKey_ok (mt List.eq_nil_of_length_eq_zero h)
  have hlen : normal.length = 16 ∨ normal.length = 24 ∨ normal.length = 32 :=
    Algorithm.IsKey.length_twofish ⟨key, hn⟩
  refine ⟨normal, hn, by rw [Twofish.cipher, hn], fun table htable => ?_⟩
  have hrows (row : Lane) : (table.toList.map (laneByte · row)).Nodup := by
    have hwords := length_condensedKey normal
    obtain ⟨lane, rfl⟩ : ∃ lane, table = tabulateLane lane (condensedKey normal) := by
      simpa [Tables.toList, schedule, Tables.ofWords, Fin.exists_fin_succ] using htable
    exact nodup_map_laneByte_tabulateLane lane row (by omega)
  exact ⟨(hrows 0).of_map, hrows⟩

/-- A lane under three key words, and the tables of a key of five bytes, which is filled up. -/
theorem lanes_permute_tables_differ_short :
    let words : List UInt32 := [0x01020304, 0xfffefdfc, 0x80000001]
    let key : Bytes := [1, 2, 3, 4, 5]
    let filled : Bytes := [1, 2, 3, 4, 5, 0, 0, 0, 0, 0, 0, 0, 0, 0, 0, 0]
    (words.length = 2 ∨ words.length = 3 ∨ words.length = 4) ∧
      (Function.Bijective fun y => throughLane 2 y words) ∧
      key ≠ [] ∧ Twofish.cipher key = .ok (cipherOf (schedule filled)) ∧
      ∀ table ∈ (schedule filled).tables.toList, table.toList.Nodup := by
  intro words key filled
  have hwords : words.length = 2 ∨ words.length = 3 ∨ words.length = 4 := .inr (.inl rfl)
  have hne : key ≠ [] := List.cons_ne_nil _ _
  obtain ⟨hlanes, htables⟩ := lanes_permute_tables_differ
  obtain ⟨normal, hn, hcipher, hdiffer⟩ := htables key hne
  have hfilled : normalizeKey key = .ok filled := rfl
  rw [hfilled] at hn
  cases hn
  exact ⟨hwords, hlanes words hwords 2, hne, hcipher, fun table h => (hdiffer table h).1⟩

end SymmetricCipher.Twofish
