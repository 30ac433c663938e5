import SymmetricCipher.Proofs.Build
import SymmetricCipher.Proofs.Cipher.Aes
import SymmetricCipher.Proofs.Cipher.Des
import SymmetricCipher.Proofs.Cipher.Twofish

/-!
# Modes of operation undone

What a mode does to data in one direction, it undoes in the opposite one from the same state, and it
ends in the same state. ECB and CBC need an invertible cipher for that. The other modes run
encryption only: they mask every byte by something that the state and the ciphertext determine, and
a mask undoes itself.

From the steps of the modes it goes to whole modes, from there to `Algorithm.oneShot_opposite`: what
a single pass makes of data in one direction, a single pass in the opposite direction makes the data
again.
-/

namespace SymmetricCipher

/-! ## Masks and blocks -/

/-- A mask that is applied twice is gone. -/
lemma xor_mask_cancel (byte mask : UInt8) : byte ^^^ mask ^^^ mask = byte := by
  rw [UInt8.xor_assoc, UInt8.xor_self, UInt8.xor_zero]

namespace Bytes

/-- A mask of at least the length of the data undoes itself. -/
lemma xor_xor_cancel {data mask : Bytes} (h : data.length ≤ mask.length) :
    xor (xor data mask) mask = data := by
  induction data generalizing mask with
  | nil => rfl
  | cons byte data ih =>
    cases mask with
    | nil => cases h
    | cons m mask =>
      have hle : data.length ≤ mask.length := Nat.le_of_succ_le_succ h
      show (byte ^^^ m ^^^ m) :: xor (xor data mask) mask = byte :: data
      rw [xor_mask_cancel, ih hle]

/-- What is left over is less than a block. -/
lemma length_partialBlock_lt {n : Nat} (hn : 0 < n) (data : Bytes) :
    (partialBlock n data).length < n := by
  have hmod : (partialBlock n data).length = data.length % n := by
    rw [partialBlock, List.length_drop, Nat.mul_comm, ← Nat.mod_eq_sub]
  rw [hmod]
  exact Nat.mod_lt _ hn

/-- Less than a block is all left over. -/
lemma partialBlock_of_lt {n : Nat} {data : Bytes} (h : data.length < n) :
    wholeBlocks n data = [] ∧ partialBlock n data = data := by
  rw [wholeBlocks, partialBlock, Nat.div_eq_of_lt h, Nat.zero_mul]
  exact ⟨rfl, rfl⟩

/-- A block is one whole block. -/
lemma wholeBlocks_block {n : Nat} (hn : 0 < n) {block : Bytes} (h : block.length = n) :
    wholeBlocks n block = [block] := by
  rw [wholeBlocks, h, Nat.div_self hn, firstBlocks, firstBlocks, ← h, List.take_length]

/-- Blocks that are put together with a rest are found again. -/
lemma blocks_of_flatten {n : Nat} (hn : 0 < n) {blocks : List Bytes}
    (hb : ∀ b ∈ blocks, b.length = n) {rest : Bytes} (hr : rest.length < n) :
    wholeBlocks n (blocks.flatten ++ rest) = blocks ∧
      partialBlock n (blocks.flatten ++ rest) = rest := by
  induction blocks with
  | nil => exact partialBlock_of_lt hr
  | cons block blocks ih =>
    obtain ⟨hwhole, hpartial⟩ := ih fun b h => hb b (List.mem_cons_of_mem block h)
    have hlen : block.length = n := hb block List.mem_cons_self
    have halign : block.length % n = 0 := by rw [hlen, Nat.mod_self]
    rw [List.flatten_cons, List.append_assoc, wholeBlocks_append hn halign,
      partialBlock_append hn halign, wholeBlocks_block hn hlen, hwhole, hpartial]
    exact ⟨rfl, rfl⟩

end Bytes

/-! ## Steps that undo each other -/

/-- A step that undoes another one in every state undoes a whole run of it, and passes through the
same states. -/
lemma mapState_inverse {σ α β : Type} {step : σ → α → β × σ} {undo : σ → β → α × σ}
    {P : σ → Prop} {Q : α → Prop}
    (h : ∀ s x, P s → Q x → undo s (step s x).1 = (x, (step s x).2) ∧ P (step s x).2)
    {s : σ} (hs : P s) {xs : List α} (hxs : ∀ x ∈ xs, Q x) :
    mapState undo s (mapState step s xs).1 = (xs, (mapState step s xs).2) := by
  induction xs generalizing s with
  | nil => rfl
  | cons x xs ih =>
    obtain ⟨hundo, hs'⟩ := h s x hs (hxs x List.mem_cons_self)
    have htail := ih hs' fun y hy => hxs y (List.mem_cons_of_mem x hy)
    rw [mapState_cons, mapState_cons, hundo, htail]

/-- In particular it does so where it asks nothing of the states. -/
lemma mapState_undone {σ α β : Type} {step : σ → α → β × σ} {undo : σ → β → α × σ}
    (h : ∀ s x, undo s (step s x).1 = (x, (step s x).2)) (s : σ) (xs : List α) :
    mapState undo s (mapState step s xs).1 = (xs, (mapState step s xs).2) :=
  mapState_inverse (P := fun _ => True) (Q := fun _ => True) (fun s x _ _ => ⟨h s x, trivial⟩)
    trivial fun _ _ => trivial

/-- A step that undoes another one on blocks undoes a run over data, the partial block at the end of
which neither of the two touches. -/
lemma mapBlocks_inverse {σ : Type} {step undo : σ → Bytes → Bytes × σ} {n : Nat} (hn : 0 < n)
    {P : σ → Prop}
    (h : ∀ s block, P s → block.length = n →
      undo s (step s block).1 = (block, (step s block).2) ∧ (step s block).1.length = n ∧
        P (step s block).2)
    {s : σ} (hs : P s) (data : Bytes) :
    mapBlocks undo n s (mapBlocks step n s data).1 = (data, (mapBlocks step n s data).2) := by
  have hin : ∀ b ∈ Bytes.wholeBlocks n data, b.length = n :=
    fun _ hb => Bytes.length_of_mem_wholeBlocks hb
  have hout : ∀ b ∈ (mapState step s (Bytes.wholeBlocks n data)).1, b.length = n :=
    forall_mem_mapState (fun s block hs hb => (h s block hs hb).2) hs hin
  obtain ⟨hwhole, hpartial⟩ :=
    Bytes.blocks_of_flatten hn hout (Bytes.length_partialBlock_lt hn data)
  have hundo := mapState_inverse
    (fun s block hs hb => ⟨(h s block hs hb).1, (h s block hs hb).2.2⟩) hs hin
  simp only [mapBlocks, hwhole, hpartial, hundo, Bytes.wholeBlocks_append_partialBlock]

/-! ## The steps of the modes -/

section steps

variable {cipher : BlockCipher} {direction : Direction} {s : ChainState}

/-- A step of ECB is undone by the step of the opposite direction. -/
lemma ecbStep_opposite (hi : cipher.Invertible) {block : Bytes}
    (hb : block.length = cipher.blockSize) :
    ecbStep cipher direction.opposite s (ecbStep cipher direction s block).1 =
      (block, (ecbStep cipher direction s block).2) := by
  rw [ecbStep, ecbStep, hi.onBlock_opposite direction hb]

/-- Decryption of a block in CBC undoes its encryption and leaves the same register. -/
lemma cbcDecryptStep_cbcEncryptStep (hi : cipher.Invertible)
    (hs : s.register.length = cipher.blockSize) {block : Bytes}
    (hb : block.length = cipher.blockSize) :
    cbcDecryptStep cipher s (cbcEncryptStep cipher s block).1 =
      (block, (cbcEncryptStep cipher s block).2) := by
  have hmasked : (Bytes.xor block s.register).length = cipher.blockSize := by
    rw [Bytes.length_xor, hb, hs, Nat.min_self]
  simp only [cbcDecryptStep, cbcEncryptStep, hi.decrypt_encrypt hmasked,
    Bytes.xor_xor_cancel (Nat.le_of_eq (hb.trans hs.symm))]

/-- Encryption of a block in CBC undoes its decryption and leaves the same register. -/
lemma cbcEncryptStep_cbcDecryptStep (hi : cipher.Invertible)
    (hs : s.register.length = cipher.blockSize) {block : Bytes}
    (hb : block.length = cipher.blockSize) :
    cbcEncryptStep cipher s (cbcDecryptStep cipher s block).1 =
      (block, (cbcDecryptStep cipher s block).2) := by
  have hout := cipher.length_decryptBlock block hb
  simp only [cbcDecryptStep, cbcEncryptStep,
    Bytes.xor_xor_cancel (Nat.le_of_eq (hout.trans hs.symm)), hi.encrypt_decrypt hb]

/-- A step in CTR is undone by itself, and leaves the same state. -/
lemma ctrStep_ctrStep (byte : UInt8) :
    ctrStep cipher s (ctrStep cipher s byte).1 = (byte, (ctrStep cipher s byte).2) := by
  simp only [ctrStep, xor_mask_cancel]

/-- A step in OFB is undone by itself, and leaves the same state. -/
lemma ofbStep_ofbStep (byte : UInt8) :
    ofbStep cipher s (ofbStep cipher s byte).1 = (byte, (ofbStep cipher s byte).2) := by
  simp only [ofbStep, xor_mask_cancel]

/-- A step in CFB is undone by the step of the opposite direction, since both see the same
ciphertext. -/
lemma cfbStep_opposite (byte : UInt8) :
    cfbStep cipher direction.opposite s (cfbStep cipher direction s byte).1 =
      (byte, (cfbStep cipher direction s byte).2) := by
  cases direction with
  | encrypt => simp only [cfbStep, Direction.opposite, xor_mask_cancel]
  | decrypt => simp only [cfbStep, Direction.opposite, xor_mask_cancel]

/-- A step in CFB8 is undone by the step of the opposite direction. -/
lemma cfb8Step_opposite (byte : UInt8) :
    cfb8Step cipher direction.opposite s (cfb8Step cipher direction s byte).1 =
      (byte, (cfb8Step cipher direction s byte).2) := by
  cases direction with
  | encrypt => simp only [cfb8Step, Direction.opposite, xor_mask_cancel]
  | decrypt => simp only [cfb8Step, Direction.opposite, xor_mask_cancel]

end steps

/-- The keystream is taken off again by the same stream. -/
lemma Rc4.apply_apply (s : Rc4) (data : Bytes) :
    s.apply (s.apply data).1 = (data, (s.apply data).2) :=
  mapState_undone (fun s byte => by simp only [step, xor_mask_cancel]) s data

/-! ## Whole modes -/

/-- A run in CBC is undone by a run in the opposite direction. -/
lemma cbc_opposite {cipher : BlockCipher} (hi : cipher.Invertible) (direction : Direction)
    {s : ChainState} (hs : s.register.length = cipher.blockSize) (data : Bytes) :
    cbc cipher direction.opposite s (cbc cipher direction s data).1 =
      (data, (cbc cipher direction s data).2) := by
  have hcipher := BlockCipher.Agrees.refl cipher
  cases direction with
  | encrypt =>
    exact mapBlocks_inverse cipher.blockSize_pos
      (P := fun s : ChainState => s.register.length = cipher.blockSize)
      (fun _ _ hs hb =>
        ⟨cbcDecryptStep_cbcEncryptStep hi hs hb, (hcipher.cbcEncryptStep hs hb).2⟩) hs data
  | decrypt =>
    exact mapBlocks_inverse cipher.blockSize_pos
      (P := fun s : ChainState => s.register.length = cipher.blockSize)
      (fun _ _ hs hb =>
        ⟨cbcEncryptStep_cbcDecryptStep hi hs hb, (hcipher.cbcDecryptStep hs hb).2⟩) hs data

/-- Every mode takes its output back in the opposite direction, from the same state to the same
state. Only the block modes run decryption, and so only they need the cipher to be invertible. -/
lemma runMode_opposite {mode : Mode} {cipher : BlockCipher}
    (hi : mode.isBlockMode = true → cipher.Invertible) {direction : Direction} {s s' : ChainState}
    (hs : s.register.length = cipher.blockSize) {data out : Bytes}
    (h : runMode mode cipher direction s data = .ok (out, s')) :
    runMode mode cipher direction.opposite s out = .ok (data, s') := by
  -- a step on bytes asks nothing of the state
  have bytes {step undo : ChainState → UInt8 → UInt8 × ChainState}
      (hstep : ∀ s byte, undo s (step s byte).1 = (byte, (step s byte).2))
      (hrun : (Except.ok (mapState step s data) : Except CipherError _) = .ok (out, s')) :
      (Except.ok (mapState undo s out) : Except CipherError _) = .ok (data, s') := by
    have hinverse := mapState_undone hstep s data
    rw [Except.ok.inj hrun] at hinverse
    rw [hinverse]
  cases mode with
  | ecb =>
    have hinverse : ecb cipher direction.opposite s (ecb cipher direction s data).1 =
        (data, (ecb cipher direction s data).2) :=
      mapBlocks_inverse cipher.blockSize_pos (P := fun _ => True)
        (fun s block _ hb => ⟨ecbStep_opposite (s := s) (hi rfl) hb,
          cipher.length_onBlock direction block hb, trivial⟩) trivial data
    rw [Except.ok.inj h] at hinverse
    exact congrArg Except.ok hinverse
  | cbc =>
    have hinverse := cbc_opposite (hi rfl) direction hs data
    rw [Except.ok.inj h] at hinverse
    exact congrArg Except.ok hinverse
  | ctr => exact bytes (fun _ byte => ctrStep_ctrStep byte) h
  | cfb => exact bytes (fun _ byte => cfbStep_opposite byte) h
  | cfb8 => exact bytes (fun _ byte => cfb8Step_opposite byte) h
  | ofb => exact bytes (fun _ byte => ofbStep_ofbStep byte) h
  | stream => cases h

/-! ## One-shot transforms -/

/-- Three layers are undone one after the other, the last one first. -/
lemma TripleDes.Layers.oneShot_opposite {ciphers : Layers BlockCipher} {iv : Bytes}
    (h1 : ciphers.first.Invertible) (h2 : ciphers.second.Invertible)
    (h3 : ciphers.third.Invertible)
    (hn : ciphers.first.blockSize = iv.length ∧ ciphers.second.blockSize = iv.length ∧
      ciphers.third.blockSize = iv.length) (direction : Direction) (data : Bytes) :
    ciphers.oneShot iv direction.opposite (ciphers.oneShot iv direction data) = data := by
  obtain ⟨n1, n2, n3⟩ := hn
  have layer {cipher : BlockCipher} (hi : cipher.Invertible) (hn : cipher.blockSize = iv.length) :
      (∀ x, (cbc cipher .decrypt (.start iv) (cbc cipher .encrypt (.start iv) x).1).1 = x) ∧
        ∀ x, (cbc cipher .encrypt (.start iv) (cbc cipher .decrypt (.start iv) x).1).1 = x :=
    ⟨fun x => congrArg Prod.fst (cbc_opposite hi .encrypt (s := .start iv) hn.symm x),
      fun x => congrArg Prod.fst (cbc_opposite hi .decrypt (s := .start iv) hn.symm x)⟩
  obtain ⟨d1, e1⟩ := layer h1 n1
  obtain ⟨d2, e2⟩ := layer h2 n2
  obtain ⟨d3, e3⟩ := layer h3 n3
  cases direction with
  | encrypt => simp only [oneShot, Direction.opposite, d3, e2, d1]
  | decrypt => simp only [oneShot, Direction.opposite, e1, d2, e3]

namespace Algorithm

/-- The ciphers of this library are invertible under every key that they take. -/
theorem invertible_of_blockCipher {algorithm : Algorithm} {key : Bytes} {cipher : BlockCipher}
    (h : algorithm.blockCipher key = .ok cipher) : cipher.Invertible := by
  cases algorithm with
  | aes =>
    simp only [blockCipher, Aes.cipher] at h
    split at h <;> cases h
    exact Aes.invertible _
  | twofish =>
    simp only [blockCipher, Twofish.cipher] at h
    split at h <;> cases h
    exact Twofish.invertible _
  | des =>
    simp only [blockCipher, Des.cipher] at h
    split at h <;> cases h
    exact Des.invertible _
  | tripleDes =>
    simp only [blockCipher, TripleDes.cipher] at h
    split at h <;> cases h
    exact TripleDes.invertible _
  | tripleDesInnerCbc => cases h
  | rc4 => cases h

/-- The layers of the layered Triple DES are invertible under every key that it takes. -/
lemma invertible_of_innerLayers {algorithm : Algorithm} {key : Bytes}
    {ciphers : TripleDes.Layers BlockCipher} (h : algorithm.innerLayers key = .ok ciphers) :
    ciphers.first.Invertible ∧ ciphers.second.Invertible ∧ ciphers.third.Invertible := by
  rw [innerLayers, TripleDes.layers] at h
  split at h
  · cases h
  · cases h
    exact ⟨Des.invertible _, Des.invertible _, Des.invertible _⟩

/-- What a single pass makes of data in one direction, a single pass in the opposite direction makes
the data again. -/
theorem oneShot_opposite {algorithm : Algorithm} {mode : Mode}
    (hm : algorithm.supports mode = true) {key iv : Bytes} (hk : algorithm.IsKey key)
    (hiv : iv.length = algorithm.blockSize) {direction : Direction} {data out : Bytes}
    (h : algorithm.oneShot mode key iv direction data = .ok out) :
    algorithm.oneShot mode key iv direction.opposite out = .ok data := by
  -- the layered Triple DES and the stream cipher have passes of their own
  by_cases hi : algorithm = tripleDesInnerCbc
  · subst hi
    obtain ⟨ciphers, hc⟩ := hk.innerLayers_ok
    obtain ⟨h1, h2, h3⟩ := invertible_of_innerLayers hc
    have hn := TripleDes.blockSize_layers hc
    rw [show 8 = iv.length from hiv.symm] at hn
    rw [oneShot, hc] at h ⊢
    cases h
    exact congrArg Except.ok (TripleDes.Layers.oneShot_opposite h1 h2 h3 hn direction data)
  · by_cases hr : algorithm = rc4
    · subst hr
      obtain rfl : mode = .stream := eq_of_beq hm
      obtain ⟨fresh, hf⟩ := hk.keystream_ok
      rw [oneShot_rc4 hf] at h ⊢
      cases h
      exact congrArg (fun r => Except.ok r.1) (fresh.apply_apply data)
    · obtain ⟨cipher, hc⟩ := hk.blockCipher_ok hi hr
      have hs : mode ≠ .stream := by
        rintro rfl
        cases algorithm <;> first | exact hi rfl | exact hr rfl | cases hm
      have hregister : (ChainState.start iv).register.length = cipher.blockSize :=
        hiv.trans (blockSize_blockCipher hc).symm
      obtain ⟨out', s, hrun, -⟩ := runMode_spec hs (.refl cipher) direction hregister data
      rw [oneShot_of_blockCipher hc hs, hrun] at h
      cases h
      rw [oneShot_of_blockCipher hc hs,
        runMode_opposite (fun _ => invertible_of_blockCipher hc) hregister hrun]
      rfl

/-- A single pass over two pieces of data gives what a pass over the first gives, and as many bytes
behind it as the second has. -/
theorem oneShot_append {algorithm : Algorithm} {mode : Mode} (hm : algorithm.supports mode = true)
    {key iv : Bytes} (hk : algorithm.IsKey key) (hiv : iv.length = algorithm.blockSize)
    (direction : Direction) {x y : Bytes} (hx : mode.Aligned algorithm.blockSize x)
    (hy : mode.Aligned algorithm.blockSize y) :
    ∃ a b, algorithm.oneShot mode key iv direction x = .ok a ∧ a.length = x.length ∧
      algorithm.oneShot mode key iv direction (x ++ y) = .ok (a ++ b) ∧ b.length = y.length := by
  -- the machine of the algorithm makes both passes, the second one in two calls
  obtain ⟨m, -, hkeyed, hstart⟩ := Machine.software_ok hm hk hiv
  have pass {data : Bytes} (ha : mode.Aligned algorithm.blockSize data) :
      algorithm.oneShot mode key iv direction data = (m.apply direction data).1 := by
    obtain ⟨front, out, m', hrun, -, hfront, hshot⟩ :=
      hkeyed.continues_empty hstart direction data ha
    obtain rfl : front = [] := List.eq_nil_of_length_eq_zero hfront
    rw [hrun]
    exact hshot
  obtain ⟨a, m', hrun, ha, hkeyed'⟩ := hkeyed.apply_ok direction hx
  obtain ⟨b, m'', hrun', hb, -⟩ := hkeyed'.apply_ok direction hy
  refine ⟨a, b, ?_, ha, ?_, hb⟩
  · rw [pass hx, hrun]
  · rw [pass (hx.append hy), hkeyed.apply_trans hrun hrun']

end Algorithm

end SymmetricCipher
