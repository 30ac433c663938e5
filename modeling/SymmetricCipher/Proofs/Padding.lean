import Mathlib.Data.List.DropRight
import Mathlib.Tactic.Lemma
import SymmetricCipher.Padding

/-!
# Padding and taking it off

Padding puts a count behind the data, in as many bytes as it says (`add_spec`). Taking it off goes by
the last byte, and fails only if that cannot be such a count (`remove_eq_ok_iff`). So padding comes
off again if a byte can hold the count, and of data in whole blocks only the last block matters to
whether anything comes off. What stands in front of whole blocks is neither padded nor taken off.
-/

namespace SymmetricCipher.Padding

variable {n : Nat} {data out x y : Bytes}

/-! ## What is added -/

/-- At least one byte and at most a block is added, up to whole blocks. -/
lemma add_spec (hn : 0 < n) (data : Bytes) :
    ∃ count, 1 ≤ count ∧ count ≤ n ∧
      add n data = data ++ List.replicate count (UInt8.ofNat count) ∧
      data.length + count = (data.length / n + 1) * n := by
  have hlt := Nat.mod_lt data.length hn
  have hdiv := Nat.div_add_mod data.length n
  refine ⟨n - data.length % n, by omega, by omega, rfl, ?_⟩
  rw [Nat.succ_mul, Nat.mul_comm]
  omega

/-- Padding fills the data up to the next larger number of whole blocks. -/
lemma length_add (hn : 0 < n) (data : Bytes) :
    (add n data).length = (data.length / n + 1) * n := by
  obtain ⟨count, -, -, hadd, hlength⟩ := add_spec hn data
  rw [hadd, List.length_append, List.length_replicate, hlength]

/-- Padding stands behind the last block, and whole blocks in front stay as they are. -/
lemma add_append (hx : x.length % n = 0) (y : Bytes) : add n (x ++ y) = x ++ add n y := by
  have hmod : (x ++ y).length % n = y.length % n := by
    rw [List.length_append, Nat.add_mod, hx, Nat.zero_add, Nat.mod_mod]
  rw [add, hmod, List.append_assoc, add]

/-! ## What is taken off -/

/-- The last byte says how much is taken off, if it is a number of bytes that there are, and that
fits into a block. -/
lemma remove_eq_ok_iff :
    remove n data = .ok out ↔
      ∃ last, data.getLast? = some last ∧ 1 ≤ last.toNat ∧ last.toNat ≤ min n data.length ∧
        out = data.rdrop last.toNat := by
  rw [remove]
  cases data.getLast? with
  | none => exact ⟨nofun, fun ⟨_, h, _⟩ => nomatch h⟩
  | some last =>
    dsimp only
    split
    · rename_i hbad
      refine ⟨nofun, fun ⟨_, h, hone, hle, _⟩ => ?_⟩
      cases h
      omega
    · rename_i hgood
      constructor
      · rintro ⟨⟩
        exact ⟨last, rfl, by omega, by omega, rfl⟩
      · rintro ⟨_, ⟨⟩, -, -, rfl⟩
        rfl

/-- Padding is refused as a whole. -/
lemma remove_error {e : CipherError} (h : remove n data = .error e) : e = .invalidPadding := by
  rw [remove] at h
  split at h
  · cases h
    rfl
  · dsimp only at h
    split at h
    · cases h
      rfl
    · cases h

/-- Padding is taken off again, in blocks of a size that a byte can count. -/
theorem remove_add (hn : 0 < n) (hbyte : n < 256) (data : Bytes) :
    remove n (add n data) = .ok data := by
  obtain ⟨count, hone, hle, hadd, -⟩ := add_spec hn data
  have hcount : (UInt8.ofNat count).toNat = count := UInt8.toNat_ofNat_of_lt' (by
    show count < 256
    omega)
  have hlast : (add n data).getLast? = some (UInt8.ofNat count) := by
    rw [hadd, List.getLast?_append, List.getLast?_replicate, if_neg (by omega)]
    rfl
  have hlength : (add n data).length = data.length + count := by
    rw [hadd, List.length_append, List.length_replicate]
  refine remove_eq_ok_iff.2 ⟨_, hlast, by omega, by omega, ?_⟩
  rw [hcount, List.rdrop, hlength, Nat.add_sub_cancel, hadd, List.take_left]

/-- Removal looks at the blocks behind, and not at what stands in front. -/
lemma remove_append (x : Bytes) (hy : y.length % n = 0) (hne : y ≠ []) :
    remove n (x ++ y) = (remove n y).map (x ++ ·) := by
  have hn : n ≤ y.length :=
    Nat.le_of_dvd (List.length_pos_iff.2 hne) (Nat.dvd_of_mod_eq_zero hy)
  cases hlast : y.getLast? with
  | none => exact absurd (List.getLast?_eq_none_iff.1 hlast) hne
  | some last =>
    have hlast' : (x ++ y).getLast? = some last := by
      rw [List.getLast?_append, hlast]
      rfl
    rw [remove, remove, hlast, hlast']
    dsimp only
    by_cases hbad : last.toNat = 0 ∨ n < last.toNat
    · rw [if_pos (by omega), if_pos (by omega)]
      rfl
    · have hlen : (x ++ y).length - last.toNat = x.length + (y.length - last.toNat) := by
        rw [List.length_append]
        omega
      rw [if_neg (by rw [List.length_append]; omega), if_neg (by omega), hlen,
        List.take_length_add_append]
      rfl

/-- Of data in whole blocks something is taken off if the last byte counts at most a block. -/
lemma exists_remove_eq_ok_iff (hne : x ≠ []) (hx : x.length % n = 0) :
    (∃ out, remove n x = .ok out) ↔
      ∃ last, (x.rtake n).getLast? = some last ∧ 1 ≤ last.toNat ∧ last.toNat ≤ n := by
  have hpos : 0 < x.length := List.length_pos_iff.2 hne
  have hle : n ≤ x.length := Nat.le_of_dvd hpos (Nat.dvd_of_mod_eq_zero hx)
  have hlast (hn : 0 < n) : (x.rtake n).getLast? = x.getLast? := by
    rw [List.rtake, List.getLast?_drop, if_neg (by omega)]
  constructor
  · rintro ⟨out, h⟩
    obtain ⟨last, h, hone, hmin, -⟩ := remove_eq_ok_iff.1 h
    exact ⟨last, (hlast (by omega)).trans h, hone, by omega⟩
  · rintro ⟨last, h, hone, hn⟩
    exact ⟨_, remove_eq_ok_iff.2 ⟨last, (hlast (by omega)).symm.trans h, hone, by omega, rfl⟩⟩

/-! ## Main result -/

/-- Padding in blocks of up to 255 bytes adds a number of bytes, from one to a block, that all hold
this number, and makes whole blocks; it is taken off again. Whatever the data and the blocks are,
what is taken off is the number of bytes that the last byte says, if it is at least one and no more
than there are and than a block has; otherwise all is refused. So the last block decides whether
something is taken off whole blocks. -/
theorem add_remove_outcomes :
    (∀ n, 1 ≤ n → n ≤ 255 → ∀ data, ∃ count pad, 1 ≤ count ∧ count ≤ n ∧
      add n data = data ++ pad ∧ pad.length = count ∧ (∀ byte ∈ pad, byte.toNat = count) ∧
      (add n data).length % n = 0 ∧ remove n (add n data) = .ok data) ∧
    (∀ n data out, remove n data = .ok out ↔ ∃ last, data.getLast? = some last ∧
      1 ≤ last.toNat ∧ last.toNat ≤ min n data.length ∧ out = data.rdrop last.toNat) ∧
    ∀ n x y, x ≠ [] → y ≠ [] → x.length % n = 0 → y.length % n = 0 → x.rtake n = y.rtake n →
      ((∃ out, remove n x = .ok out) ↔ ∃ out, remove n y = .ok out) := by
  refine ⟨fun n hone hbyte data => ?_, fun _ _ _ => remove_eq_ok_iff,
    fun n x y hx hy hxn hyn hlast => ?_⟩
  · obtain ⟨count, hcount, hle, hadd, -⟩ := add_spec hone data
    refine ⟨count, List.replicate count (UInt8.ofNat count), hcount, hle, hadd,
      List.length_replicate, fun byte hmem => ?_, ?_, remove_add hone (by omega) data⟩
    · rw [(List.mem_replicate.1 hmem).2, UInt8.toNat_ofNat']
      omega
    · rw [length_add hone]
      exact Nat.mul_mod_left _ n
  · rw [exists_remove_eq_ok_iff hx hxn, exists_remove_eq_ok_iff hy hyn, hlast]

/-- Three bytes in a block of eight; and two blocks of two bytes, of which the last one decides. -/
theorem add_remove_outcomes_blocks :
    add 8 [1, 2, 3] = [1, 2, 3, 5, 5, 5, 5, 5] ∧
    (∃ pad, add 8 [1, 2, 3] = [1, 2, 3] ++ pad ∧ ∀ byte ∈ pad, byte.toNat = pad.length) ∧
    remove 8 (add 8 [1, 2, 3]) = .ok [1, 2, 3] ∧
    remove 2 [7, 7, 3, 2] = .ok [7, 7] ∧
    ∃ out, remove 2 [9, 9, 9, 9, 3, 2] = .ok out := by
  obtain ⟨hadd, hremove, hlast⟩ := add_remove_outcomes
  obtain ⟨count, pad, -, -, hpad, hlength, hbytes, -, hback⟩ :=
    hadd 8 (by decide) (by decide) [1, 2, 3]
  have htwo : remove 2 [7, 7, 3, 2] = .ok [7, 7] :=
    (hremove 2 _ _).2 ⟨2, rfl, by decide, by decide, rfl⟩
  refine ⟨rfl, ⟨pad, hpad, hlength ▸ hbytes⟩, hback, htwo, ?_⟩
  exact (hlast 2 [7, 7, 3, 2] [9, 9, 9, 9, 3, 2] (by decide) (by decide) rfl rfl rfl).1 ⟨_, htwo⟩

end SymmetricCipher.Padding
