import Mathlib.Data.List.FinRange
import Mathlib.Data.List.Induction
import SymmetricCipher.Cipher.Rc4
import SymmetricCipher.Proofs.Chaining

/-!
# The states of RC4

RC4 only ever swaps its 256 bytes, when the key shuffles them and again for every byte of the
keystream, so they are a permutation in every state (`isPermutation_shuffle`,
`isPermutation_after`). A state moves on without a look at the data: `after` is the state behind so
many bytes of data, whatever they are, and `keystream` the mask at each place of a stream.

A second place right behind the first one, with a 1 on it, makes both places walk over the bytes
side by side and drag the 1 along (`ShortCycle`). That is so in a state exactly if it is so in the next
one (`shortCycle_next`), and a stream starts with both places at 0, so that it never gets there.
-/

namespace SymmetricCipher.Rc4

variable {bytes : Vector UInt8 256} {s : Rc4}

/-! ## Swaps -/

/-- Each of the bytes 0 to 255 stands at exactly one of the places. -/
def IsPermutation (bytes : Vector UInt8 256) : Prop :=
  bytes.toList.Perm ((List.range 256).map UInt8.ofNat)

/-- After a swap the byte of the first place stands at the second one. -/
lemma get_swap_right (bytes : Vector UInt8 256) (i j : UInt8) :
    (swap bytes i j).get j.toFin = bytes.get i.toFin :=
  Vector.getElem_swap_right ..

/-- A swap keeps a permutation. -/
lemma IsPermutation.swap (h : IsPermutation bytes) (i j : UInt8) :
    IsPermutation (swap bytes i j) :=
  (Vector.swap_perm ..).toList.trans h

/-- The bytes in their natural order are a permutation. -/
lemma isPermutation_identity : IsPermutation identity := by
  rw [IsPermutation, identity, Vector.toList_ofFn, List.ofFn_eq_map, ← List.map_coe_finRange_eq_range,
    List.map_map]
  exact .refl _

/-- Shuffling is a run of swaps, and keeps a permutation, too. -/
lemma isPermutation_foldl (key : Array UInt8) (places : List Nat) {s : Vector UInt8 256 × UInt8}
    (h : IsPermutation s.1) : IsPermutation (places.foldl (shuffleStep key) s).1 := by
  induction places generalizing s with
  | nil => exact h
  | cons place places ih => exact ih (h.swap _ _)

/-- Every key shuffles the bytes to a permutation. -/
lemma isPermutation_shuffle (key : Bytes) : IsPermutation (shuffle key) :=
  isPermutation_foldl key.toArray (List.range 256) isPermutation_identity

/-! ## Moving on -/

/-- The state behind `n` bytes of data. -/
def after (s : Rc4) (n : Nat) : Rc4 := (fun s => s.next.2)^[n] s

/-- The byte that masks byte `k` of the data from a state on. -/
def keystream (s : Rc4) (k : Nat) : UInt8 := (s.after k).next.1

/-- A state further on is the next one of the state before. -/
lemma after_succ (s : Rc4) (n : Nat) : s.after (n + 1) = (s.after n).next.2 :=
  Function.iterate_succ_apply' ..

/-- Data is masked byte by byte with the keystream, and leaves the state behind as many bytes. -/
lemma apply_eq (s : Rc4) (data : Bytes) :
    s.apply data = (data.mapIdx fun k byte => byte ^^^ s.keystream k, s.after data.length) := by
  rw [apply]
  induction data using List.reverseRecOn with
  | nil => rfl
  | append_singleton data byte ih =>
    rw [mapState_append, ih, mapState_cons, mapState_nil, List.mapIdx_concat, List.length_append,
      List.length_singleton, after_succ]
    rfl

/-- The bytes are a permutation in every later state. -/
lemma isPermutation_after (h : IsPermutation s.bytes) (n : Nat) :
    IsPermutation (s.after n).bytes := by
  induction n with
  | zero => exact h
  | succ n ih =>
    rw [after_succ]
    exact ih.swap _ _

/-- The first place counts the bytes of data, around the 256. -/
lemma toNat_i_after (s : Rc4) (n : Nat) : (s.after n).i.toNat = (s.i.toNat + n) % 256 := by
  induction n with
  | zero => exact (Nat.mod_eq_of_lt s.i.toNat_lt).symm
  | succ n ih =>
    have hnext : (s.after (n + 1)).i.toNat = ((s.after n).i.toNat + 1) % 256 := by
      rw [after_succ]
      exact UInt8.toNat_add _ _
    rw [hnext, ih, Nat.mod_add_mod, Nat.add_assoc]

/-! ## The short cycle -/

/-- The second place is right behind the first one, and a 1 stands there. -/
structure ShortCycle (s : Rc4) : Prop where
  adjacent : s.j = s.i + 1
  one : s.bytes.get s.j.toFin = 1

/-- There are such states, with the bytes in their natural order. -/
example : ShortCycle ⟨identity, 0, 1⟩ := ⟨rfl, by decide +kernel⟩

/-- The next state is in the cycle exactly if this one is: the 1 moves to the place that the second
place moves to, which is one further on. -/
lemma shortCycle_next : s.next.2.ShortCycle ↔ s.ShortCycle := by
  have hbyte : s.next.2.bytes.get s.next.2.j.toFin = s.bytes.get (s.i + 1).toFin :=
    get_swap_right ..
  have hj : s.next.2.j = s.j + s.bytes.get (s.i + 1).toFin := rfl
  constructor
  · rintro ⟨hadjacent, hone⟩
    rw [hbyte] at hone
    -- the second place has moved on by one, from behind the first place to behind the next one
    have hbefore : s.j = s.i + 1 := by
      rw [hj, hone] at hadjacent
      exact (UInt8.add_left_inj _).1 hadjacent
    exact ⟨hbefore, by rw [hbefore, hone]⟩
  · rintro ⟨hadjacent, hone⟩
    rw [hadjacent] at hone
    refine ⟨?_, hbyte.trans hone⟩
    rw [hj, hone, hadjacent]
    rfl

/-- A state is in the short cycle exactly if any later one is. -/
lemma shortCycle_after (n : Nat) : (s.after n).ShortCycle ↔ s.ShortCycle := by
  induction n with
  | zero => rfl
  | succ n ih => rw [after_succ, shortCycle_next, ih]

/-! ## Streams -/

/-- However the data is cut into calls, it is masked by the keystream, place by place. -/
lemma mapState_apply_eq (s : Rc4) (calls : List Bytes) :
    (mapState apply s calls).1.flatten =
        calls.flatten.mapIdx (fun k byte => byte ^^^ s.keystream k) ∧
      (mapState apply s calls).2 = s.after calls.flatten.length := by
  have hcalls := mapState_flatten step s calls
  have hdata := apply_eq s calls.flatten
  rw [apply, hcalls] at hdata
  exact Prod.mk.inj hdata

/-- The state at the start of the stream of a key. -/
def start (key : Bytes) : Rc4 := ⟨shuffle key, 0, 0⟩

variable {key : Bytes}

/-- Every key of 1 to 256 bytes gives the state that a stream starts in. -/
lemma ofKey_eq_ok (hpos : 1 ≤ key.length) (hle : key.length ≤ 256) :
    ofKey key = .ok (start key) := by
  rw [ofKey, if_neg (by omega), start]

/-- A stream starts with a permutation. -/
lemma isPermutation_start : IsPermutation (start key).bytes := isPermutation_shuffle key

/-- A stream does not start in the short cycle, since both places are the same. -/
lemma not_shortCycle_start : ¬(start key).ShortCycle := by
  rintro ⟨hplaces, -⟩
  have hzero : (0 : UInt8) = 0 + 1 := hplaces
  exact absurd hzero (by decide)

/-- From the start of a stream on, however the data is cut into calls, the bytes are a permutation,
the first place counts the data, and the data is masked by bytes that the key alone decides. -/
theorem ofKey_permutes_and_masks (hpos : 1 ≤ key.length) (hle : key.length ≤ 256) :
    ∃ start, ofKey key = .ok start ∧ ∃ mask : Nat → UInt8, ∀ calls : List Bytes,
      IsPermutation (mapState apply start calls).2.bytes ∧
      (mapState apply start calls).2.i.toNat = calls.flatten.length % 256 ∧
      (mapState apply start calls).1.map List.length = calls.map List.length ∧
      (mapState apply start calls).1.flatten =
        calls.flatten.mapIdx fun k byte => byte ^^^ mask k := by
  refine ⟨start key, ofKey_eq_ok hpos hle, (start key).keystream, fun calls => ?_⟩
  obtain ⟨hout, hstate⟩ := mapState_apply_eq (start key) calls
  refine ⟨?_, ?_, map_length_mapState step _ calls, hout⟩
  · rw [hstate]
    exact isPermutation_after isPermutation_start _
  · rw [hstate, toNat_i_after, start, UInt8.toNat_zero, Nat.zero_add]

/-- A text that is cut in the middle, with an empty call in between, is masked as in one call. -/
theorem ofKey_permutes_and_masks_cut :
    let key : Bytes := [0x53, 0x65, 0x63, 0x72, 0x65, 0x74]
    let front : Bytes := [0x41, 0x74, 0x74, 0x61, 0x63, 0x6b, 0x20]
    let back : Bytes := [0x61, 0x74, 0x20, 0x64, 0x61, 0x77, 0x6e]
    1 ≤ key.length ∧ key.length ≤ 256 ∧ ∃ start, ofKey key = .ok start ∧
      IsPermutation (mapState apply start [front, [], back]).2.bytes ∧
      (mapState apply start [front, [], back]).2.i.toNat = 14 ∧
      (mapState apply start [front, [], back]).1.map List.length = [7, 0, 7] ∧
      (mapState apply start [front, [], back]).1.flatten =
        (mapState apply start [front ++ back]).1.flatten := by
  intro key front back
  have hpos : 1 ≤ key.length := by decide
  have hle : key.length ≤ 256 := by decide
  obtain ⟨start, hstart, mask, hrun⟩ := ofKey_permutes_and_masks hpos hle
  obtain ⟨hperm, hi, hlengths, hcut⟩ := hrun [front, [], back]
  obtain ⟨-, -, -, hwhole⟩ := hrun [front ++ back]
  refine ⟨hpos, hle, start, hstart, hperm, hi, hlengths, ?_⟩
  rw [hcut, hwhole]
  rfl

/-- No stream of any key ever gets into the short cycle. -/
theorem ofKey_never_shortCycle (hpos : 1 ≤ key.length) (hle : key.length ≤ 256) :
    ∃ start, ofKey key = .ok start ∧
      ∀ calls : List Bytes, ¬(mapState apply start calls).2.ShortCycle := by
  refine ⟨start key, ofKey_eq_ok hpos hle, fun calls => ?_⟩
  rw [(mapState_apply_eq _ calls).2, shortCycle_after]
  exact not_shortCycle_start

/-- The longest keys are no exception. -/
theorem ofKey_never_shortCycle_longest :
    let key : Bytes := List.replicate 256 0xff
    1 ≤ key.length ∧ key.length ≤ 256 ∧ ∃ start, ofKey key = .ok start ∧
      ¬(mapState apply start [List.replicate 300 0, [1, 2, 3]]).2.ShortCycle := by
  intro key
  have hlen : key.length = 256 := List.length_replicate
  have hpos : 1 ≤ key.length := by omega
  obtain ⟨start, hstart, hnever⟩ := ofKey_never_shortCycle hpos hlen.le
  exact ⟨hpos, hlen.le, start, hstart, hnever _⟩

end SymmetricCipher.Rc4
