import Mathlib.Data.List.DropRight
import Mathlib.Data.List.GetD
import SymmetricCipher.Cipher.Des.Basic
import SymmetricCipher.Proofs.Inversion

/-!
# Ciphertext feedback

What CFB and CFB8 make of data of any length. In CFB, ciphertext block `i` is plaintext block `i`
masked by the encryption of the ciphertext block before it, and the last block is as short as the
data asks. In CFB8, byte `k` is masked by the first byte of the encryption of the last bytes of the
initialization vector and the ciphertext up to there.

CFB lays the ciphertext over its keystream: once `front` bytes of a block are through, the register
holds their ciphertext and behind it the rest of the keystream. `cfbStep_front` says that a step
keeps this, so a block comes out as a whole (`cfb_chunk`). Data is then taken block by block.
-/

namespace SymmetricCipher

namespace Bytes

/-- Block `i` of data that is cut into blocks of `n` bytes, as far as the data reaches. -/
def block (n : Nat) (data : Bytes) (i : Nat) : Bytes := (data.drop (i * n)).take n

/-- The first block is what data begins with. -/
lemma block_zero (n : Nat) (data : Bytes) : block n data 0 = data.take n := by
  rw [block, Nat.zero_mul, List.drop_zero]

/-- The first block of data is the block that it was put behind. -/
lemma block_append_zero {n : Nat} {front : Bytes} (h : front.length = n) (data : Bytes) :
    block n (front ++ data) 0 = front := by
  rw [block_zero, ← h, List.take_left]

/-- The other blocks are moved up by one. -/
lemma block_append_succ {n : Nat} {front : Bytes} (h : front.length = n) (data : Bytes) (i : Nat) :
    block n (front ++ data) (i + 1) = block n data i := by
  have e : (i + 1) * n = front.length + i * n := by
    rw [Nat.succ_mul, h, Nat.add_comm]
  rw [block, e, List.drop_length_add_append]
  rfl

/-- Beyond the end of the data blocks are empty. -/
lemma block_of_length_le {n : Nat} {data : Bytes} {i : Nat} (h : data.length ≤ i * n) :
    block n data i = [] := by
  rw [block, List.drop_of_length_le h, List.take_nil]

/-- What holds of data shorter than a block, and of a block in front of data of which it holds,
holds of all data. -/
lemma block_induction {n : Nat} (hn : 0 < n) {P : Bytes → Prop}
    (short : ∀ data : Bytes, data.length < n → P data)
    (append : ∀ front data : Bytes, front.length = n → P data → P (front ++ data))
    (data : Bytes) : P data := by
  induction hlen : data.length using Nat.strong_induction_on generalizing data with
  | h m ih =>
    by_cases h : data.length < n
    · exact short data h
    · rw [← List.take_append_drop n data]
      refine append _ _ (List.length_take_of_le (Nat.le_of_not_lt h)) (ih _ ?_ _ rfl)
      rw [List.length_drop]
      omega

/-- One byte more is masked by the next byte of the mask. -/
lemma xor_concat {front mask : Bytes} (h : front.length < mask.length) (byte : UInt8) :
    xor (front ++ [byte]) mask = xor front mask ++ [byte ^^^ mask.getD front.length 0] := by
  induction front generalizing mask with
  | nil =>
    cases mask with
    | nil => cases h
    | cons m mask => rfl
  | cons b front ih =>
    cases mask with
    | nil => cases h
    | cons m mask =>
      have hlt : front.length < mask.length := Nat.lt_of_succ_lt_succ h
      show (b ^^^ m) :: xor (front ++ [byte]) mask = _
      rw [ih hlt]
      rfl

end Bytes

/-! ## CFB -/

/-- The ciphertext block before block `i`; the initialization vector stands before the first one. -/
def feedback (n : Nat) (iv out : Bytes) : Nat → Bytes
  | 0 => iv
  | i + 1 => Bytes.block n out i

/-- Behind a block of output, the feedback goes on from that block. -/
lemma feedback_append {n : Nat} {front : Bytes} (h : front.length = n) (iv out : Bytes) (i : Nat) :
    feedback n iv (front ++ out) (i + 1) = feedback n front out i := by
  cases i with
  | zero => exact Bytes.block_append_zero h out
  | succ i => exact Bytes.block_append_succ h out i

/-- Data encrypted in CFB from the start of a stream, and the state that this leaves: the register
holds the last ciphertext block, or the ciphertext of a block that is not complete and the rest of
its keystream. -/
structure CfbEncrypted (cipher : BlockCipher) (iv data : Bytes) (result : Bytes × ChainState) :
    Prop where
  length : result.1.length = data.length
  block : ∀ i, Bytes.block cipher.blockSize result.1 i =
    Bytes.xor (Bytes.block cipher.blockSize data i)
      (cipher.encryptBlock (feedback cipher.blockSize iv result.1 i))
  position : result.2.position = data.length % cipher.blockSize
  register_whole : data.length % cipher.blockSize = 0 →
    result.2.register = feedback cipher.blockSize iv result.1 (data.length / cipher.blockSize)
  register_partial : data.length % cipher.blockSize ≠ 0 →
    result.2.register = Bytes.partialBlock cipher.blockSize result.1 ++
      (cipher.encryptBlock
        (feedback cipher.blockSize iv result.1 (data.length / cipher.blockSize))).drop
          (data.length % cipher.blockSize)

/-- No data has no output and leaves the state, at the start of a block. -/
lemma cfbEncrypted_nil {cipher : BlockCipher} {s : ChainState} (hs : s.position = 0) :
    CfbEncrypted cipher s.register [] ([], s) := by
  refine ⟨rfl, fun i => ?_, ?_, fun _ => ?_, fun h => absurd (Nat.zero_mod _) h⟩
  · rw [Bytes.block_of_length_le (Nat.zero_le _), Bytes.xor, List.zipWith_nil_left]
  · rw [List.length_nil, Nat.zero_mod]
    exact hs
  · rw [List.length_nil, Nat.zero_div]
    rfl

/-- Less than a block of data is masked by the beginning of the first mask. -/
lemma cfbEncrypted_short {cipher : BlockCipher} {iv data : Bytes} {s : ChainState}
    (hiv : iv.length = cipher.blockSize) (hne : data ≠ []) (hlt : data.length < cipher.blockSize)
    (hp : s.position = data.length)
    (hr : s.register = Bytes.xor data (cipher.encryptBlock iv) ++
      (cipher.encryptBlock iv).drop data.length) :
    CfbEncrypted cipher iv data (Bytes.xor data (cipher.encryptBlock iv), s) := by
  have hdiv : data.length / cipher.blockSize = 0 := Nat.div_eq_of_lt hlt
  have hmod : data.length % cipher.blockSize = data.length := Nat.mod_eq_of_lt hlt
  have hlen : (Bytes.xor data (cipher.encryptBlock iv)).length = data.length := by
    rw [Bytes.length_xor, cipher.length_encryptBlock iv hiv, Nat.min_eq_left (Nat.le_of_lt hlt)]
  refine ⟨hlen, fun i => ?_, hp.trans hmod.symm, fun h => ?_, fun _ => ?_⟩
  · cases i with
    | zero =>
      rw [Bytes.block_zero, Bytes.block_zero, List.take_of_length_le (Nat.le_of_lt hlt),
        List.take_of_length_le (Nat.le_of_lt (hlen.trans_lt hlt))]
      rfl
    | succ i =>
      have hle : data.length ≤ (i + 1) * cipher.blockSize := by
        rw [Nat.succ_mul]
        omega
      rw [Bytes.block_of_length_le (hlen.trans_le hle), Bytes.block_of_length_le hle, Bytes.xor,
        List.zipWith_nil_left]
  · exact absurd (List.eq_nil_of_length_eq_zero (hmod.symm.trans h)) hne
  · rw [hdiv, hmod, (Bytes.partialBlock_of_lt (hlen.trans_lt hlt)).2]
    exact hr

/-- A whole block in front, to which the rest is chained. -/
lemma CfbEncrypted.append {cipher : BlockCipher} {iv front out data : Bytes}
    {result : Bytes × ChainState} (hfront : front.length = cipher.blockSize)
    (hout : out.length = cipher.blockSize) (h : out = Bytes.xor front (cipher.encryptBlock iv))
    (hdata : CfbEncrypted cipher out data result) :
    CfbEncrypted cipher iv (front ++ data) (out ++ result.1, result.2) := by
  have hpos := cipher.blockSize_pos
  have hdiv : (front ++ data).length / cipher.blockSize = data.length / cipher.blockSize + 1 := by
    rw [List.length_append, hfront, Nat.add_div_left _ hpos]
  have hmod : (front ++ data).length % cipher.blockSize = data.length % cipher.blockSize := by
    rw [List.length_append, hfront, Nat.add_mod_left]
  refine ⟨?_, fun i => ?_, ?_, fun hw => ?_, fun hw => ?_⟩
  · rw [List.length_append, List.length_append, hdata.length, hout, hfront]
  · cases i with
    | zero =>
      rw [Bytes.block_append_zero hout, Bytes.block_append_zero hfront]
      exact h
    | succ i =>
      rw [Bytes.block_append_succ hout, Bytes.block_append_succ hfront, feedback_append hout]
      exact hdata.block i
  · rw [hmod]
    exact hdata.position
  · rw [hdiv, feedback_append hout]
    rw [hmod] at hw
    exact hdata.register_whole hw
  · rw [hdiv, feedback_append hout, hmod,
      Bytes.partialBlock_append hpos (by rw [hout, Nat.mod_self])]
    rw [hmod] at hw
    exact hdata.register_partial hw

section cfb

variable {cipher : BlockCipher} {s : ChainState} {mask front : Bytes}

/-- A byte behind the ciphertext of `front` takes its mask from the keystream and leaves its own
ciphertext there. -/
lemma cfbStep_front (hr : cfbRegister cipher s = Bytes.xor front mask ++ mask.drop front.length)
    (hp : s.position = front.length) (hlt : front.length < mask.length) (byte : UInt8) :
    cfbStep cipher .encrypt s byte =
      (byte ^^^ mask.getD front.length 0,
        { s with
          register := Bytes.xor (front ++ [byte]) mask ++ mask.drop (front.length + 1)
          position := (front.length + 1) % cipher.blockSize }) := by
  have hlen : (Bytes.xor front mask).length = front.length := by
    rw [Bytes.length_xor, Nat.min_eq_left (Nat.le_of_lt hlt)]
  have hdrop : mask.drop front.length = mask.getD front.length 0 :: mask.drop (front.length + 1) := by
    rw [List.drop_eq_getElem_cons hlt, List.getElem_eq_getD 0]
  have hget : (cfbRegister cipher s).getD front.length 0 = mask.getD front.length 0 := by
    rw [hr, List.getD_append_right _ _ _ _ (Nat.le_of_eq hlen), hlen, Nat.sub_self, hdrop]
    rfl
  have hset (c : UInt8) : (cfbRegister cipher s).set front.length c =
      Bytes.xor front mask ++ [c] ++ mask.drop (front.length + 1) := by
    rw [hr, List.set_append_right _ _ (Nat.le_of_eq hlen), hlen, Nat.sub_self, hdrop, List.set_cons_zero,
      List.append_assoc, List.singleton_append]
  rw [cfbStep, hp, hget, hset, Bytes.xor_concat hlt]

variable (front) in
/-- Within a block, the register holds the ciphertext so far and the rest of the keystream. -/
lemma cfb_front (hs : s.position = 0) (hmask : cipher.encryptBlock s.register = mask)
    (hn : mask.length = cipher.blockSize) (hlt : front.length < mask.length) :
    (cfb cipher .encrypt s front).1 = Bytes.xor front mask ∧
      cfbRegister cipher (cfb cipher .encrypt s front).2 =
        Bytes.xor front mask ++ mask.drop front.length ∧
      (cfb cipher .encrypt s front).2.position = front.length := by
  induction front using List.reverseRecOn with
  | nil =>
    refine ⟨rfl, ?_, hs⟩
    show cfbRegister cipher s = mask
    rw [cfbRegister, if_pos hs, hmask]
  | append_singleton front byte ih =>
    rw [List.length_append, List.length_singleton] at hlt ⊢
    obtain ⟨hout, hr, hp⟩ := ih (by omega)
    rw [cfb] at hout hr hp ⊢
    rw [mapState_append, mapState_cons, cfbStep_front hr hp (by omega), hout, mapState_nil]
    have hposition : (front.length + 1) % cipher.blockSize = front.length + 1 :=
      Nat.mod_eq_of_lt (by omega)
    refine ⟨(Bytes.xor_concat (by omega) byte).symm, ?_, hposition⟩
    rw [cfbRegister, if_neg]
    rw [hposition]
    exact Nat.succ_ne_zero _

/-- A block, or what there is of it, is masked by the encrypted register. -/
lemma cfb_chunk (hs : s.position = 0) (hmask : cipher.encryptBlock s.register = mask)
    (hn : mask.length = cipher.blockSize) {chunk : Bytes} (hne : chunk ≠ [])
    (hle : chunk.length ≤ mask.length) :
    (cfb cipher .encrypt s chunk).1 = Bytes.xor chunk mask ∧
      (cfb cipher .encrypt s chunk).2.register =
        Bytes.xor chunk mask ++ mask.drop chunk.length ∧
      (cfb cipher .encrypt s chunk).2.position = chunk.length % cipher.blockSize := by
  obtain ⟨front, byte, rfl⟩ := (List.eq_nil_or_concat' chunk).resolve_left hne
  rw [List.length_append, List.length_singleton] at hle ⊢
  obtain ⟨hout, hr, hp⟩ := cfb_front front hs hmask hn (by omega)
  rw [cfb] at hout hr hp ⊢
  rw [mapState_append, mapState_cons, cfbStep_front hr hp (by omega), hout, mapState_nil]
  exact ⟨(Bytes.xor_concat (by omega) byte).symm, rfl, rfl⟩

/-- What is encrypted from the start of a block on is chained to what stands in the register. -/
lemma cfbEncrypted_cfb (hs : s.position = 0) (hn : s.register.length = cipher.blockSize)
    (data : Bytes) : CfbEncrypted cipher s.register data (cfb cipher .encrypt s data) := by
  induction data using Bytes.block_induction cipher.blockSize_pos generalizing s with
  | short data hlt =>
    by_cases hdata : data = []
    · subst hdata
      exact cfbEncrypted_nil hs
    · have hmask := cipher.length_encryptBlock _ hn
      obtain ⟨hout, hr, hp⟩ := cfb_chunk hs rfl hmask hdata (by omega)
      rw [Nat.mod_eq_of_lt hlt] at hp
      have h := cfbEncrypted_short hn hdata hlt hp hr
      rwa [← hout] at h
  | append front data hfront ih =>
    have hmask := cipher.length_encryptBlock _ hn
    have hne : front ≠ [] :=
      List.ne_nil_of_length_pos (hfront.symm ▸ cipher.blockSize_pos)
    obtain ⟨hout, hr, hp⟩ := cfb_chunk hs rfl hmask hne (by omega)
    have hlen : (cfb cipher .encrypt s front).1.length = cipher.blockSize :=
      (length_mapState ..).trans hfront
    have hregister : (cfb cipher .encrypt s front).2.register =
        (cfb cipher .encrypt s front).1 := by
      rw [hr, hout, List.drop_of_length_le (by omega), List.append_nil]
    have hrest := ih (hp.trans (by rw [hfront, Nat.mod_self])) (by rw [hregister, hlen])
    rw [hregister] at hrest
    rw [cfb, mapState_append]
    exact hrest.append hfront hlen hout

end cfb

/-! ## CFB8 -/

/-- Data encrypted in CFB8 from the start of a stream, and the state that this leaves. What is
encrypted for a mask is a window on the initialization vector and the ciphertext behind it. -/
structure Cfb8Encrypted (cipher : BlockCipher) (iv data : Bytes) (result : Bytes × ChainState) :
    Prop where
  length : result.1.length = data.length
  byte : ∀ k, result.1[k]? = data[k]?.map fun byte =>
    byte ^^^ (cipher.encryptBlock ((iv ++ result.1.take k).rtake cipher.blockSize)).headD 0
  register : result.2.register = (iv ++ result.1).rtake cipher.blockSize

/-- With a byte more at the end, the last ones lose their first. -/
lemma rtake_concat {α : Type} {n : Nat} (hn : 0 < n) {xs : List α} (h : n ≤ xs.length) (x : α) :
    (xs ++ [x]).rtake n = (xs.rtake n).drop 1 ++ [x] := by
  rw [List.rtake, List.rtake, List.drop_drop, List.length_append, List.length_singleton,
    show xs.length + 1 - n = xs.length - n + 1 by omega,
    List.drop_append_of_le_length (by omega)]

/-- A step adds a byte to the data and to the output. -/
lemma Cfb8Encrypted.concat {cipher : BlockCipher} {iv data out : Bytes} {s : ChainState}
    (hiv : iv.length = cipher.blockSize) (h : Cfb8Encrypted cipher iv data (out, s))
    (byte : UInt8) :
    Cfb8Encrypted cipher iv (data ++ [byte])
      (out ++ [(cfb8Step cipher .encrypt s byte).1], (cfb8Step cipher .encrypt s byte).2) := by
  obtain ⟨hlen, hbyte, hregister⟩ := h
  refine ⟨?_, fun k => ?_, ?_⟩
  · rw [List.length_append, List.length_append, hlen]
    rfl
  · -- byte `k` is an earlier one, the new one, or none
    rcases Nat.lt_trichotomy k data.length with hlt | heq | hgt
    · have hle : k ≤ out.length := (Nat.le_of_lt hlt).trans_eq hlen.symm
      rw [List.getElem?_append_left (hlt.trans_eq hlen.symm), List.getElem?_append_left hlt,
        List.take_append_of_le_length hle]
      exact hbyte k
    · have hk : k = out.length := heq.trans hlen.symm
      rw [hk, List.getElem?_concat_length, List.take_left, ← hregister, ← hk, heq,
        List.getElem?_concat_length]
      rfl
    · rw [List.getElem?_eq_none, List.getElem?_eq_none]
      · rfl
      · rw [List.length_append, List.length_singleton]
        exact hgt
      · rw [List.length_append, List.length_singleton, hlen]
        exact hgt
  · have hle : cipher.blockSize ≤ (iv ++ out).length := by
      rw [List.length_append, hiv]
      exact Nat.le_add_right _ _
    rw [← List.append_assoc, rtake_concat cipher.blockSize_pos hle, ← hregister]
    rfl

/-- By induction over the bytes, encryption in CFB8 satisfies its equations. -/
lemma cfb8Encrypted_cfb8 {cipher : BlockCipher} {s : ChainState}
    (hn : s.register.length = cipher.blockSize) (data : Bytes) :
    Cfb8Encrypted cipher s.register data (cfb8 cipher .encrypt s data) := by
  induction data using List.reverseRecOn with
  | nil =>
    refine ⟨rfl, fun k => rfl, ?_⟩
    show s.register = (s.register ++ []).rtake _
    rw [List.append_nil, List.rtake, hn, Nat.sub_self, List.drop_zero]
  | append_singleton data byte ih =>
    rw [cfb8, mapState_append, mapState_cons, mapState_nil]
    exact ih.concat hn byte

/-! ## The two modes -/

/-- From the start of a stream, CFB chains the data block by block and CFB8 byte by byte. In both,
the ciphertext decrypts to the data and leaves the state that its encryption leaves. -/
theorem cfb_and_cfb8_encrypted (cipher : BlockCipher) {iv : Bytes}
    (hiv : iv.length = cipher.blockSize) (data : Bytes) :
    (CfbEncrypted cipher iv data (cfb cipher .encrypt (.start iv) data) ∧
      cfb cipher .decrypt (.start iv) (cfb cipher .encrypt (.start iv) data).1 =
        (data, (cfb cipher .encrypt (.start iv) data).2)) ∧
    Cfb8Encrypted cipher iv data (cfb8 cipher .encrypt (.start iv) data) ∧
      cfb8 cipher .decrypt (.start iv) (cfb8 cipher .encrypt (.start iv) data).1 =
        (data, (cfb8 cipher .encrypt (.start iv) data).2) := by
  have hcfb (s : ChainState) (byte : UInt8) :
      cfbStep cipher .decrypt s (cfbStep cipher .encrypt s byte).1 =
        (byte, (cfbStep cipher .encrypt s byte).2) :=
    cfbStep_opposite byte
  have hcfb8 (s : ChainState) (byte : UInt8) :
      cfb8Step cipher .decrypt s (cfb8Step cipher .encrypt s byte).1 =
        (byte, (cfb8Step cipher .encrypt s byte).2) :=
    cfb8Step_opposite byte
  have hregister : (ChainState.start iv).register.length = cipher.blockSize := hiv
  exact ⟨⟨cfbEncrypted_cfb rfl hregister data, mapState_undone hcfb (.start iv) data⟩,
    cfb8Encrypted_cfb8 hregister data, mapState_undone hcfb8 (.start iv) data⟩

/-- Two bytes into the third block, CFB has their ciphertext in front of the rest of the keystream,
and CFB8 has the last eight bytes of the ciphertext. -/
theorem cfb_and_cfb8_encrypted_des :
    let cipher := Des.cipherOf (Des.roundKeys [1, 2, 3, 4, 5, 6, 7, 8])
    let iv : Bytes := List.replicate 8 255
    let data : Bytes := List.replicate 18 7
    let result := cfb cipher .encrypt (.start iv) data
    let result8 := cfb8 cipher .encrypt (.start iv) data
    iv.length = cipher.blockSize ∧ result.2.position = 2 ∧
      result.2.register =
        result.1.drop 16 ++ (cipher.encryptBlock ((result.1.drop 8).take 8)).drop 2 ∧
      cfb cipher .decrypt (.start iv) result.1 = (data, result.2) ∧
      result8.2.register = result8.1.drop 10 ∧
      cfb8 cipher .decrypt (.start iv) result8.1 = (data, result8.2) := by
  intro cipher iv data result result8
  have hiv : iv.length = cipher.blockSize := rfl
  obtain ⟨⟨hcfb, hback⟩, hcfb8, hback8⟩ := cfb_and_cfb8_encrypted cipher hiv data
  have hblock : cipher.blockSize = 8 := rfl
  have hlen : data.length = 18 := List.length_replicate
  refine ⟨hiv, ?_, ?_, hback, ?_, hback8⟩
  · rw [hcfb.position, hlen, hblock]
  · rw [hcfb.register_partial (by rw [hlen, hblock]; decide), Bytes.partialBlock, hcfb.length, hlen,
      hblock]
    rfl
  · rw [hcfb8.register, List.rtake, List.length_append, hcfb8.length, hlen, hiv, hblock]
    exact @List.drop_length_add_append _ iv result8.1 10

end SymmetricCipher
