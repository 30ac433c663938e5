import SymmetricCipher.Proofs.Cipher.Des

/-!
# The key bits of DES

Of the 64 bits of a key, DES uses the 56 that are not the last bit of their byte, and every one of
them: two keys have the same round keys exactly if they agree there.

Both choices of bits are read bit by bit (`permute_eq_iff`). The first one leaves out the last bits
of the bytes and nothing else (`bit_keyMask`). Before a round, the two halves of the chosen bits have
turned by the sum of all rotations so far (`roundKeys_eq_map`), so each bit of a round key is a bit
of the chosen ones, at a place that the tables tell (`bit_turned`). The places of all sixteen rounds
together are all 56 (`every_bit_in_a_round`).
-/

namespace SymmetricCipher

open Word

namespace Des

/-! ## Choices of bits -/

/-- Two words give the same choice of bits exactly if they agree at the places that the table
has. -/
lemma permute_eq_iff {x y : UInt64} {width : Nat} {table : List Nat} (hlen : table.length ≤ 64)
    (hplaces : ∀ place ∈ table, width - place < 64) :
    permute x width table = permute y width table ↔
      ∀ place ∈ table, bit x (width - place) = bit y (width - place) := by
  have hbit (z : UInt64) {i place : Nat} (hi : table.reverse[i]? = some place) :
      bit (permute z width table) i = bit z (width - place) := by
    have hlt := (List.getElem?_eq_some_iff.1 hi).1
    rw [List.length_reverse] at hlt
    have hplace := hplaces place (List.mem_reverse.1 (List.mem_of_getElem? hi))
    exact getLsbD_permute (by omega) hplace hi
  constructor
  · intro h place hplace
    obtain ⟨i, hi⟩ := List.mem_iff_getElem?.1 (List.mem_reverse.2 hplace)
    rw [← hbit x hi, h, hbit y hi]
  · intro h
    apply (fitsIn_permute x width table).eq_of_bit_eq (fitsIn_permute y width table)
    intro i hi
    have hlt : i < table.reverse.length := by rwa [List.length_reverse]
    have hget := List.getElem?_eq_getElem hlt
    rw [hbit x hget, hbit y hget]
    exact h _ (List.mem_reverse.1 (List.getElem_mem hlt))

/-! ## Rotations -/

/-- A half of the chosen bits, turned by `t` places in all. -/
def turn (half : UInt64) (t : Nat) : UInt64 := rotate28 half (.ofNat t)

/-- How far the halves have turned in all before each of the remaining rounds. -/
def turnsFrom : Nat → List UInt64 → List Nat
  | _, [] => []
  | t, n :: rotations => (t + n.toNat) :: turnsFrom (t + n.toNat) rotations

/-- How far the halves have turned in all before each round. -/
def turns : List Nat := turnsFrom 0 rotations

section turn

variable {c d n : UInt64} {i t : Nat}

/-- A bit of a rotated half comes from as many places below, around the 28. -/
lemma bit_rotate28 (hc : FitsIn 28 c) (hn : n.toNat ≤ 28) (hi : i < 28) :
    bit (rotate28 c n) i = bit c ((i + (28 - n.toNat)) % 28) := by
  have hback : (28 - n).toNat = 28 - n.toNat := UInt64.toNat_sub_of_le 28 n hn
  rw [rotate28, mask_eq_ones, bit_and_ones (by decide) hi, bit_or,
    bit_shiftLeft c (by omega) (by omega), bit_shiftRight c (by omega), hback]
  by_cases hle : n.toNat ≤ i
  · -- the bit comes from below, and nothing was above the half
    have hplace : (i + (28 - n.toNat)) % 28 = i - n.toNat := by omega
    rw [hplace, hc (28 - n.toNat + i) (by omega), decide_eq_true hle, Bool.true_and, Bool.or_false]
  · -- the bit comes back in from the top
    have hplace : (i + (28 - n.toNat)) % 28 = 28 - n.toNat + i := by omega
    rw [hplace, decide_eq_false hle, Bool.false_and, Bool.false_or]

/-- A bit of a half that has turned comes from as many places below, around the 28. -/
lemma bit_turn (hc : FitsIn 28 c) (ht : t ≤ 28) (hi : i < 28) :
    bit (turn c t) i = bit c ((i + (28 - t)) % 28) := by
  have htoNat : (UInt64.ofNat t).toNat = t := Nat.mod_eq_of_lt (by omega)
  rw [turn, bit_rotate28 hc (by omega) hi, htoNat]

/-- A half that has turned is one of 28 bits. -/
lemma fitsIn_turn (half : UInt64) (t : Nat) : FitsIn 28 (turn half t) := fitsIn_rotate28 half _

/-- A half that has not turned is as it was. -/
lemma turn_zero (hc : FitsIn 28 c) : turn c 0 = c := by
  apply (fitsIn_turn c 0).eq_of_bit_eq hc
  intro i hi
  rw [bit_turn hc (by decide) hi, Nat.sub_zero, Nat.add_mod_right, Nat.mod_eq_of_lt hi]

/-- Two turns add up. -/
lemma rotate28_turn (hc : FitsIn 28 c) (h : t + n.toNat ≤ 28) :
    rotate28 (turn c t) n = turn c (t + n.toNat) := by
  apply (fitsIn_rotate28 _ n).eq_of_bit_eq (fitsIn_turn c _)
  intro i hi
  rw [bit_rotate28 (fitsIn_turn c t) (by omega) hi, bit_turn hc (by omega) (by omega),
    bit_turn hc h hi]
  congr 1
  omega

/-- All the rotations before a round come to one turn from where the halves started. -/
lemma roundKeysFrom_turn (hc : FitsIn 28 c) (hd : FitsIn 28 d) {rotations : List UInt64}
    (h : ∀ s ∈ turnsFrom t rotations, s ≤ 28) :
    roundKeysFrom rotations (turn c t) (turn d t) =
      (turnsFrom t rotations).map fun s =>
        permute ((turn c s <<< 28) ||| turn d s) 56 roundKeyChoice := by
  induction rotations generalizing t with
  | nil => rfl
  | cons n rotations ih =>
    have hsum : t + n.toNat ≤ 28 := h _ List.mem_cons_self
    rw [roundKeysFrom, rotate28_turn hc hsum, rotate28_turn hd hsum,
      ih fun s hs => h s (List.mem_cons_of_mem _ hs)]
    rfl

end turn

/-- No half turns more than once around. -/
lemma le_of_mem_turns : ∀ t ∈ turns, t ≤ 28 := by decide

/-- The 56 bits that are chosen from a key. -/
def chosenBits (key : Bytes) : UInt64 := permute (Bytes.toWord64BE key) 64 keyChoice

/-- The two halves of the chosen bits, turned and put together again. -/
def turned (chosen : UInt64) (t : Nat) : UInt64 :=
  (turn (chosen >>> 28) t <<< 28) ||| turn (chosen &&& 0x0fffffff) t

/-- The chosen bits of a key are 56. -/
lemma fitsIn_chosenBits (key : Bytes) : FitsIn 56 (chosenBits key) :=
  fitsIn_permute (Bytes.toWord64BE key) 64 keyChoice

/-- A round key is chosen from the chosen bits of the key, turned as far as its round says. -/
lemma roundKeys_eq_map (key : Bytes) :
    roundKeys key = turns.map fun t => permute (turned (chosenBits key) t) 56 roundKeyChoice := by
  have hc : FitsIn 28 (chosenBits key >>> 28) :=
    (fitsIn_chosenBits key).shiftRight (by decide) (by decide)
  have hd : FitsIn 28 (chosenBits key &&& 0x0fffffff) := fitsIn_and_ones _ 28
  have h := roundKeysFrom_turn hc hd le_of_mem_turns
  rw [turn_zero hc, turn_zero hd] at h
  exact h

/-! ## Every bit comes through -/

/-- Where a bit of the turned halves comes from. -/
def origin (t i : Nat) : Nat := i / 28 * 28 + (i % 28 + (28 - t)) % 28

/-- A bit of the turned halves is a bit of the chosen ones, at its origin. -/
lemma bit_turned {chosen : UInt64} (hchosen : FitsIn 56 chosen) {t i : Nat} (ht : t ≤ 28)
    (hi : i < 56) : bit (turned chosen t) i = bit chosen (origin t i) := by
  have hc : FitsIn 28 (chosen >>> 28) := hchosen.shiftRight (by decide) (by decide)
  have hd : FitsIn 28 (chosen &&& ones 28) := fitsIn_and_ones _ 28
  have h28 : (28 : UInt64).toNat = 28 := rfl
  rw [turned, mask_eq_ones, bit_or, bit_shiftLeft _ (by decide) (by omega), h28, origin]
  by_cases hlow : i < 28
  · have hplace : i / 28 * 28 + (i % 28 + (28 - t)) % 28 = (i + (28 - t)) % 28 := by omega
    rw [decide_eq_false (Nat.not_le.2 hlow), Bool.false_and, Bool.false_or, bit_turn hd ht hlow,
      hplace, bit_and_ones (by decide) (Nat.mod_lt _ (by decide))]
  · have hplace : i / 28 * 28 + (i % 28 + (28 - t)) % 28 = 28 + (i - 28 + (28 - t)) % 28 := by
      omega
    rw [decide_eq_true (Nat.le_of_not_lt hlow), Bool.true_and, bit_turn hc ht (by omega),
      bit_shiftRight _ (by decide), h28, fitsIn_turn _ t i (Nat.le_of_not_lt hlow), Bool.or_false,
      hplace]

/-- Every place that a round key is chosen from is one of the 56. -/
lemma lt_of_mem_roundKeyChoice : ∀ place ∈ roundKeyChoice, 56 - place < 56 := by decide

/-- The rounds together use all bits. -/
lemma every_bit_in_a_round :
    ∀ i < 56, ∃ t ∈ turns, ∃ place ∈ roundKeyChoice, origin t (56 - place) = i := by
  decide +kernel

/-- Two keys have the same round keys exactly if the same bits are chosen from them. -/
lemma roundKeys_eq_iff_chosenBits (key key' : Bytes) :
    roundKeys key = roundKeys key' ↔ chosenBits key = chosenBits key' := by
  constructor
  · intro h
    rw [roundKeys_eq_map, roundKeys_eq_map, List.map_inj_left] at h
    apply (fitsIn_chosenBits key).eq_of_bit_eq (fitsIn_chosenBits key')
    intro i hi
    obtain ⟨t, ht, place, hplace, rfl⟩ := every_bit_in_a_round i hi
    have hlt := lt_of_mem_roundKeyChoice place hplace
    have hround := (permute_eq_iff (by decide) fun place hplace =>
      Nat.lt_trans (lt_of_mem_roundKeyChoice place hplace) (by decide)).1 (h t ht) place hplace
    have hturn := le_of_mem_turns t ht
    rwa [bit_turned (fitsIn_chosenBits key) hturn hlt,
      bit_turned (fitsIn_chosenBits key') hturn hlt] at hround
  · intro h
    rw [roundKeys_eq_map, roundKeys_eq_map, h]

/-! ## Bytes of a key -/

/-- All bits of a key but the last one of each byte. -/
def keyMask : UInt64 := 0xfefefefefefefefe

/-- The bits that are chosen from a key are those of the mask. -/
lemma bit_keyMask : ∀ i < 64, bit keyMask i = decide (64 - i ∈ keyChoice) := by decide +kernel

/-- Every place that is chosen from a key is one of the 64. -/
lemma place_of_mem_keyChoice :
    ∀ place ∈ keyChoice, 64 - (64 - place) = place ∧ 64 - place < 64 := by
  decide +kernel

/-- The same bits are chosen from two words exactly if they agree on the mask. -/
lemma permute_keyChoice_eq_iff (x y : UInt64) :
    permute x 64 keyChoice = permute y 64 keyChoice ↔ x &&& keyMask = y &&& keyMask := by
  rw [permute_eq_iff (by decide) fun place hplace => (place_of_mem_keyChoice place hplace).2]
  constructor
  · intro h
    apply eq_of_bit_eq
    intro i hi
    rw [bit_and, bit_and, bit_keyMask i hi]
    by_cases hplace : 64 - i ∈ keyChoice
    · have hbit := h _ hplace
      rw [show 64 - (64 - i) = i by omega] at hbit
      rw [hbit]
    · rw [decide_eq_false hplace, Bool.and_false, Bool.and_false]
  · intro h place hplace
    obtain ⟨hback, hlt⟩ := place_of_mem_keyChoice place hplace
    have hbit := congrArg (bit · (64 - place)) h
    simpa [bit_keyMask _ hlt, hback, hplace] using hbit

/-- On bytes the mask takes off the last bit of each. -/
lemma ofWord64BE_and_keyMask (w : UInt64) :
    Bytes.ofWord64BE (w &&& keyMask) = (Bytes.ofWord64BE w).map (· &&& 0xfe) := by
  have hbyte (k : UInt64) (h : (keyMask >>> k).toUInt8 = 0xfe) :
      ((w &&& keyMask) >>> k).toUInt8 = (w >>> k).toUInt8 &&& 0xfe := by
    rw [UInt64.shiftRight_and, UInt64.toUInt8_and, h]
  have hlast : (w &&& keyMask).toUInt8 = w.toUInt8 &&& 0xfe := UInt64.toUInt8_and ..
  simp (disch := decide) only [Bytes.ofWord64BE, List.map, hbyte, hlast]

/-- Two keys agree on the mask exactly if their bytes agree but for the last bits. -/
lemma toWord64BE_and_keyMask_eq_iff {key key' : Bytes} (h : key.length = 8)
    (h' : key'.length = 8) :
    Bytes.toWord64BE key &&& keyMask = Bytes.toWord64BE key' &&& keyMask ↔
      key.map (· &&& 0xfe) = key'.map (· &&& 0xfe) := by
  constructor
  · intro e
    rw [← Bytes.ofWord64BE_toWord64BE h, ← Bytes.ofWord64BE_toWord64BE h',
      ← ofWord64BE_and_keyMask, e, ofWord64BE_and_keyMask]
  · intro e
    apply Function.LeftInverse.injective Bytes.toWord64BE_ofWord64BE
    rw [ofWord64BE_and_keyMask, ofWord64BE_and_keyMask, Bytes.ofWord64BE_toWord64BE h,
      Bytes.ofWord64BE_toWord64BE h', e]

/-- Two keys have the same sixteen round keys, of 48 bits each, exactly if they agree on all bits
but the last one of each byte. -/
theorem roundKeys_eq_iff {key key' : Bytes} (h : key.length = 8) (h' : key'.length = 8) :
    Des.cipher key = .ok (cipherOf (roundKeys key)) ∧
    (roundKeys key).length = 16 ∧ (∀ k ∈ roundKeys key, k.toNat < 2 ^ 48) ∧
    (roundKeys key = roundKeys key' ↔ key.map (· &&& 0xfe) = key'.map (· &&& 0xfe)) := by
  refine ⟨if_pos h, ?_, ?_, ?_⟩
  · rw [roundKeys_eq_map, List.length_map]
    rfl
  · intro k hk
    rw [roundKeys_eq_map, List.mem_map] at hk
    obtain ⟨t, -, rfl⟩ := hk
    exact (fitsIn_permute _ 56 roundKeyChoice).toNat_lt
  · rw [roundKeys_eq_iff_chosenBits, chosenBits, chosenBits, permute_keyChoice_eq_iff,
      toWord64BE_and_keyMask_eq_iff h h']

/-- The textbook key has the round keys of the same key with its last bits changed, but no longer
once the bit before one of these changes. -/
theorem roundKeys_eq_iff_textbook :
    let key : Bytes := [0x13, 0x34, 0x57, 0x79, 0x9b, 0xbc, 0xdf, 0xf1]
    let same : Bytes := [0x12, 0x35, 0x56, 0x78, 0x9a, 0xbd, 0xde, 0xf0]
    let other : Bytes := [0x13, 0x34, 0x57, 0x79, 0x9b, 0xbc, 0xdf, 0xf3]
    key.length = 8 ∧ same.length = 8 ∧ other.length = 8 ∧
      (roundKeys key).length = 16 ∧ roundKeys key = roundKeys same ∧
      roundKeys key ≠ roundKeys other := by
  intro key same other
  have hkey : key.length = 8 := rfl
  have hsame : same.length = 8 := rfl
  have hother : other.length = 8 := rfl
  obtain ⟨-, hlen, -, hiff⟩ := roundKeys_eq_iff hkey hsame
  obtain ⟨-, -, -, hiff'⟩ := roundKeys_eq_iff hkey hother
  exact ⟨hkey, hsame, hother, hlen, hiff.2 (by decide), mt hiff'.1 (by decide)⟩

end Des

end SymmetricCipher
