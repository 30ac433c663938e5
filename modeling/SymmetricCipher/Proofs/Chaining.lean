import Mathlib.Tactic.Lemma
import SymmetricCipher.Chaining.Duplex

/-!
# Modes of operation over calls

What a context needs to know about the modes of operation. Data may be cut into calls at any place
that the mode allows, no mode changes the length of the data or of the register, and a mode sees of
a block cipher only what it does to whole blocks. The first three parts are about lists of blocks
and about steps with a state; `runMode` and the three layers of Triple DES follow from them.

Block modes are cut between blocks only. `Mode.Aligned` says so for a mode and a block size, and
holds of any data in the other modes.
-/

namespace SymmetricCipher

/-! ## Whole blocks -/

namespace Bytes

/-- The first blocks are cut off one after the other. -/
lemma firstBlocks_add (n j k : Nat) (data : Bytes) :
    firstBlocks n (j + k) data = firstBlocks n j data ++ firstBlocks n k (data.drop (j * n)) := by
  induction j generalizing data with
  | zero => simp [firstBlocks]
  | succ j ih =>
    have e : j + 1 + k = (j + k) + 1 := by omega
    rw [e, firstBlocks, firstBlocks, ih, List.drop_drop, Nat.succ_mul, Nat.add_comm n]
    rfl

/-- The first blocks do not depend on what comes behind them. -/
lemma firstBlocks_append {n k : Nat} {data : Bytes} (h : k * n ≤ data.length) (rest : Bytes) :
    firstBlocks n k (data ++ rest) = firstBlocks n k data := by
  induction k generalizing data with
  | zero => rfl
  | succ k ih =>
    rw [Nat.succ_mul] at h
    have hn : n ≤ data.length := by omega
    rw [firstBlocks, firstBlocks, List.take_append_of_le_length hn,
      List.drop_append_of_le_length hn, ih (by rw [List.length_drop]; omega)]

/-- Data of whole blocks is its blocks' number times their size. -/
lemma length_div_mul {n : Nat} {data : Bytes} (h : data.length % n = 0) :
    data.length / n * n = data.length :=
  Nat.div_mul_cancel (Nat.dvd_of_mod_eq_zero h)

/-- Whole blocks in front are blocks of the longer data. -/
lemma wholeBlocks_append {n : Nat} (hn : 0 < n) {data : Bytes} (h : data.length % n = 0)
    (rest : Bytes) : wholeBlocks n (data ++ rest) = wholeBlocks n data ++ wholeBlocks n rest := by
  have hk := length_div_mul h
  have e : (data ++ rest).length / n = data.length / n + rest.length / n := by
    rw [List.length_append, ← hk, Nat.add_comm, Nat.add_mul_div_right _ _ hn, Nat.add_comm,
      Nat.mul_div_cancel _ hn]
  rw [wholeBlocks, e, firstBlocks_add, firstBlocks_append (by omega), hk, List.drop_left]
  rfl

/-- Behind whole blocks the rest of the data is the same. -/
lemma partialBlock_append {n : Nat} (hn : 0 < n) {data : Bytes} (h : data.length % n = 0)
    (rest : Bytes) : partialBlock n (data ++ rest) = partialBlock n rest := by
  have hk := length_div_mul h
  have e : (data ++ rest).length / n * n = data.length + rest.length / n * n := by
    rw [List.length_append, ← hk, Nat.add_comm, Nat.add_mul_div_right _ _ hn, Nat.add_mul,
      Nat.add_comm]
  rw [partialBlock, e, List.drop_length_add_append]
  rfl

/-- Nothing is left over of data of whole blocks. -/
lemma partialBlock_eq_nil {n : Nat} {data : Bytes} (h : data.length % n = 0) :
    partialBlock n data = [] := by
  rw [partialBlock, length_div_mul h, List.drop_length]

end Bytes

/-! ## Steps with a state -/

/-- A step that does on the image of a state what another step does on the state, in states with a
property that they keep, gives the same results, and the last state has the property too. -/
lemma mapState_map {σ τ α β : Type} {step : σ → α → β × σ} {step' : τ → α → β × τ} (f : σ → τ)
    {P : σ → Prop} {Q : α → Prop}
    (h : ∀ s x, P s → Q x →
      step' (f s) x = ((step s x).1, f (step s x).2) ∧ P (step s x).2)
    {s : σ} (hs : P s) {xs : List α} (hxs : ∀ x ∈ xs, Q x) :
    mapState step' (f s) xs = ((mapState step s xs).1, f (mapState step s xs).2) ∧
      P (mapState step s xs).2 := by
  induction xs generalizing s with
  | nil => exact ⟨rfl, hs⟩
  | cons x xs ih =>
    obtain ⟨e, hs'⟩ := h s x hs (hxs x List.mem_cons_self)
    obtain ⟨e', hs''⟩ := ih hs' fun y hy => hxs y (List.mem_cons_of_mem x hy)
    rw [mapState_cons, mapState_cons, e, e']
    exact ⟨rfl, hs''⟩

/-- Two steps that agree on the units of a list, in states with a property that they keep, give the
same results, and the last state has the property too. -/
lemma mapState_congr {σ α β : Type} {step step' : σ → α → β × σ} {P : σ → Prop} {Q : α → Prop}
    (h : ∀ s x, P s → Q x → step s x = step' s x ∧ P (step s x).2) {s : σ} (hs : P s) {xs : List α}
    (hxs : ∀ x ∈ xs, Q x) :
    mapState step s xs = mapState step' s xs ∧ P (mapState step s xs).2 := by
  obtain ⟨e, hs'⟩ := mapState_map id (fun s x hs hx => ⟨(h s x hs hx).1.symm, (h s x hs hx).2⟩)
    hs hxs
  exact ⟨e.symm, hs'⟩

/-- Every result of a step has a property that the step gives it in the states that occur. -/
lemma forall_mem_mapState {σ α β : Type} {step : σ → α → β × σ} {P : σ → Prop} {Q : α → Prop}
    {R : β → Prop} (h : ∀ s x, P s → Q x → R (step s x).1 ∧ P (step s x).2) {s : σ} (hs : P s)
    {xs : List α} (hxs : ∀ x ∈ xs, Q x) : ∀ y ∈ (mapState step s xs).1, R y := by
  induction xs generalizing s with
  | nil => simp
  | cons x xs ih =>
    obtain ⟨hy, hs'⟩ := h s x hs (hxs x List.mem_cons_self)
    intro y hmem
    rcases List.mem_cons.1 hmem with rfl | hmem
    · exact hy
    · exact ih hs' (fun z hz => hxs z (List.mem_cons_of_mem x hz)) y hmem

/-- Two runs over units are one run over all of them. -/
lemma mapState_trans {σ α β : Type} {step : σ → α → β × σ} {s s' s'' : σ} {xs ys : List α}
    {zs zs' : List β} (h : mapState step s xs = (zs, s')) (h' : mapState step s' ys = (zs', s'')) :
    mapState step s (xs ++ ys) = (zs ++ zs', s'') := by
  rw [mapState_append, h, h']

/-- Runs over several lists, one after the other, are one run over all of them. -/
lemma mapState_flatten {σ α β : Type} (step : σ → α → β × σ) (s : σ) (xss : List (List α)) :
    mapState step s xss.flatten =
      ((mapState (mapState step) s xss).1.flatten, (mapState (mapState step) s xss).2) := by
  induction xss generalizing s with
  | nil => rfl
  | cons xs xss ih =>
    rw [List.flatten_cons, mapState_append, ih, mapState_cons, List.flatten_cons]

/-- Lists that are run one after the other give lists of the same lengths. -/
lemma map_length_mapState {σ α β : Type} (step : σ → α → β × σ) (s : σ) (xss : List (List α)) :
    (mapState (mapState step) s xss).1.map List.length = xss.map List.length := by
  induction xss generalizing s with
  | nil => rfl
  | cons xs xss ih => rw [mapState_cons, List.map_cons, List.map_cons, length_mapState, ih]

/-- Nothing but blocks goes through a step where the data ends with a whole block. -/
lemma mapBlocks_eq {σ : Type} (step : σ → Bytes → Bytes × σ) {n : Nat} (s : σ) {data : Bytes}
    (h : data.length % n = 0) :
    mapBlocks step n s data = ((mapState step s (Bytes.wholeBlocks n data)).1.flatten,
      (mapState step s (Bytes.wholeBlocks n data)).2) := by
  simp only [mapBlocks, Bytes.partialBlock_eq_nil h, List.append_nil]

/-- Two runs over blocks are one run over all of them, if the first ends with a whole block. -/
lemma mapBlocks_trans {σ : Type} {step : σ → Bytes → Bytes × σ} {n : Nat} (hn : 0 < n)
    {s s' s'' : σ} {x y out out' : Bytes} (hx : x.length % n = 0)
    (h : mapBlocks step n s x = (out, s')) (h' : mapBlocks step n s' y = (out', s'')) :
    mapBlocks step n s (x ++ y) = (out ++ out', s'') := by
  rw [mapBlocks_eq step s hx, Prod.mk.injEq] at h
  obtain ⟨rfl, rfl⟩ := h
  simp only [mapBlocks, Prod.mk.injEq] at h'
  obtain ⟨rfl, rfl⟩ := h'
  simp only [mapBlocks, Bytes.wholeBlocks_append hn hx, Bytes.partialBlock_append hn hx,
    mapState_append, List.flatten_append, List.append_assoc]

/-- Blocks of one size have the length of their number times the size. -/
lemma length_flatten_of_forall {n : Nat} {blocks : List Bytes} (h : ∀ b ∈ blocks, b.length = n) :
    blocks.flatten.length = blocks.length * n := by
  induction blocks with
  | nil => simp
  | cons b blocks ih =>
    have hb := h b List.mem_cons_self
    have hbs := ih fun c hc => h c (List.mem_cons_of_mem b hc)
    rw [List.flatten_cons, List.length_append, hb, hbs, List.length_cons, Nat.succ_mul,
      Nat.add_comm]

/-- Two steps that agree on blocks and keep their length, in states with a property that they keep,
give the same data of the same length, and the last state has the property too. -/
lemma mapBlocks_congr {σ : Type} {step step' : σ → Bytes → Bytes × σ} {n : Nat} {P : σ → Prop}
    (h : ∀ s block, P s → block.length = n →
      step s block = step' s block ∧ (step s block).1.length = n ∧ P (step s block).2)
    {s : σ} (hs : P s) (data : Bytes) :
    mapBlocks step n s data = mapBlocks step' n s data ∧
      (mapBlocks step n s data).1.length = data.length ∧ P (mapBlocks step n s data).2 := by
  have hin : ∀ b ∈ Bytes.wholeBlocks n data, b.length = n :=
    fun _ hb => Bytes.length_of_mem_wholeBlocks hb
  have hout : ∀ b ∈ (mapState step s (Bytes.wholeBlocks n data)).1, b.length = n :=
    forall_mem_mapState (fun s block hs hb => (h s block hs hb).2) hs hin
  obtain ⟨e, hs'⟩ :=
    mapState_congr (fun s block hs hb => ⟨(h s block hs hb).1, (h s block hs hb).2.2⟩) hs hin
  -- whole blocks keep their length, and what is left is not touched
  have hdata := congrArg List.length (Bytes.wholeBlocks_append_partialBlock n data)
  rw [List.length_append, length_flatten_of_forall hin] at hdata
  refine ⟨?_, ?_, hs'⟩
  · simp only [mapBlocks, e]
  · rw [← hdata, mapBlocks, List.length_append, length_flatten_of_forall hout, length_mapState]

/-! ## Block ciphers that do the same to whole blocks -/

/-- Two block ciphers do the same to blocks of their size. What they do to other data is left open,
since no mode hands them any. -/
structure BlockCipher.Agrees (a b : BlockCipher) : Prop where
  blockSize : a.blockSize = b.blockSize
  onBlock : ∀ (direction : Direction) (block : Bytes), block.length = a.blockSize →
    a.onBlock direction block = b.onBlock direction block

namespace BlockCipher.Agrees

/-- Every cipher agrees with itself. -/
lemma refl (a : BlockCipher) : a.Agrees a := ⟨rfl, fun _ _ _ => rfl⟩

variable {a b : BlockCipher} (h : a.Agrees b) {s : ChainState}
  (hs : s.register.length = a.blockSize)

include h in
/-- Ciphers that agree encrypt every block alike. -/
lemma encryptBlock {block : Bytes} (hb : block.length = a.blockSize) :
    a.encryptBlock block = b.encryptBlock block :=
  h.onBlock .encrypt block hb

include h in
/-- Ciphers that agree decrypt every block alike. -/
lemma decryptBlock {block : Bytes} (hb : block.length = a.blockSize) :
    a.decryptBlock block = b.decryptBlock block :=
  h.onBlock .decrypt block hb

include h hs

-- each step does the same over both ciphers, and keeps the length of the register

/-- A step of ECB is the same for both, and keeps the register at one block. -/
lemma ecbStep (direction : Direction) {block : Bytes} (hb : block.length = a.blockSize) :
    ecbStep a direction s block = ecbStep b direction s block ∧
      (ecbStep a direction s block).1.length = a.blockSize ∧
      (ecbStep a direction s block).2.register.length = a.blockSize := by
  refine ⟨?_, a.length_onBlock direction block hb, hs⟩
  rw [SymmetricCipher.ecbStep, SymmetricCipher.ecbStep, h.onBlock direction block hb]

/-- A step of encryption in CBC is the same for both, and keeps the register at one block. -/
lemma cbcEncryptStep {block : Bytes} (hb : block.length = a.blockSize) :
    cbcEncryptStep a s block = cbcEncryptStep b s block ∧
      (cbcEncryptStep a s block).1.length = a.blockSize ∧
      (cbcEncryptStep a s block).2.register.length = a.blockSize := by
  have hx : (Bytes.xor block s.register).length = a.blockSize := by
    rw [Bytes.length_xor, hb, hs, Nat.min_self]
  have hout := a.length_encryptBlock _ hx
  refine ⟨?_, hout, hout⟩
  simp only [SymmetricCipher.cbcEncryptStep, h.encryptBlock hx]

/-- A step of decryption in CBC is the same for both, and keeps the register at one block. -/
lemma cbcDecryptStep {block : Bytes} (hb : block.length = a.blockSize) :
    cbcDecryptStep a s block = cbcDecryptStep b s block ∧
      (cbcDecryptStep a s block).1.length = a.blockSize ∧
      (cbcDecryptStep a s block).2.register.length = a.blockSize := by
  refine ⟨?_, ?_, hb⟩
  · simp only [SymmetricCipher.cbcDecryptStep, h.decryptBlock hb]
  · rw [SymmetricCipher.cbcDecryptStep, Bytes.length_xor, a.length_decryptBlock _ hb, hs,
      Nat.min_self]

/-- A byte in CTR is masked alike by both, and the counter stays one block. -/
lemma ctrStep (byte : UInt8) : ctrStep a s byte = ctrStep b s byte ∧
    (ctrStep a s byte).2.register.length = a.blockSize := by
  by_cases hp : s.position = 0
  · refine ⟨?_, ?_⟩
    · simp only [SymmetricCipher.ctrStep, hp, if_true, h.encryptBlock hs, h.blockSize]
    · simp only [SymmetricCipher.ctrStep, hp, if_true, Bytes.length_increment, hs]
  · refine ⟨?_, ?_⟩
    · simp only [SymmetricCipher.ctrStep, hp, if_false, h.blockSize]
    · simp only [SymmetricCipher.ctrStep, hp, if_false, hs]

/-- A byte in OFB is masked alike by both, and the register stays one block. -/
lemma ofbStep (byte : UInt8) : ofbStep a s byte = ofbStep b s byte ∧
    (ofbStep a s byte).2.register.length = a.blockSize := by
  by_cases hp : s.position = 0
  · refine ⟨?_, ?_⟩
    · simp only [SymmetricCipher.ofbStep, hp, if_true, h.encryptBlock hs, h.blockSize]
    · simp only [SymmetricCipher.ofbStep, hp, if_true, a.length_encryptBlock _ hs]
  · refine ⟨?_, ?_⟩
    · simp only [SymmetricCipher.ofbStep, hp, if_false, h.blockSize]
    · simp only [SymmetricCipher.ofbStep, hp, if_false, hs]

/-- The register in which CFB finds its keystream. -/
lemma cfbRegister : cfbRegister a s = cfbRegister b s ∧
    (cfbRegister a s).length = a.blockSize := by
  by_cases hp : s.position = 0
  · refine ⟨?_, ?_⟩
    · simp only [SymmetricCipher.cfbRegister, hp, if_true, h.encryptBlock hs]
    · simp only [SymmetricCipher.cfbRegister, hp, if_true, a.length_encryptBlock _ hs]
  · refine ⟨?_, ?_⟩
    · simp only [SymmetricCipher.cfbRegister, hp, if_false]
    · simp only [SymmetricCipher.cfbRegister, hp, if_false, hs]

/-- A byte in CFB is masked alike by both, and the register stays one block. -/
lemma cfbStep (direction : Direction) (byte : UInt8) :
    cfbStep a direction s byte = cfbStep b direction s byte ∧
      (cfbStep a direction s byte).2.register.length = a.blockSize := by
  obtain ⟨e, hlen⟩ := h.cfbRegister hs
  refine ⟨?_, ?_⟩
  · simp only [SymmetricCipher.cfbStep, e, h.blockSize]
  · simp only [SymmetricCipher.cfbStep, List.length_set, hlen]

/-- A byte in CFB8 is masked alike by both, and the register stays one block. -/
lemma cfb8Step (direction : Direction) (byte : UInt8) :
    cfb8Step a direction s byte = cfb8Step b direction s byte ∧
      (cfb8Step a direction s byte).2.register.length = a.blockSize := by
  have hpos := a.blockSize_pos
  refine ⟨?_, ?_⟩
  · simp only [SymmetricCipher.cfb8Step, h.encryptBlock hs]
  · simp only [SymmetricCipher.cfb8Step, List.length_append, List.length_drop, hs,
      List.length_singleton]
    omega

end BlockCipher.Agrees

/-! ## Whole modes -/

/-- Data that a mode takes in one call: whole blocks in ECB and CBC, anything in the others. -/
def Mode.Aligned (mode : Mode) (blockSize : Nat) (data : Bytes) : Prop :=
  mode.isBlockMode = true → data.length % blockSize = 0

/-- What two calls take, one call takes. -/
lemma Mode.Aligned.append {mode : Mode} {n : Nat} {x y : Bytes} (hx : mode.Aligned n x)
    (hy : mode.Aligned n y) : mode.Aligned n (x ++ y) := by
  intro hm
  rw [List.length_append, Nat.add_mod, hx hm, hy hm]
  exact Nat.zero_mod n

/-- The length alone decides what a mode takes. -/
lemma Mode.Aligned.of_length_eq {mode : Mode} {n : Nat} {x y : Bytes} (hx : mode.Aligned n x)
    (e : y.length = x.length) : mode.Aligned n y := by
  intro hm
  rw [e]
  exact hx hm

/-- Every mode of a block cipher keeps the length of the data and of the register, and does the same
over a block cipher that agrees. -/
lemma runMode_spec {mode : Mode} (hm : mode ≠ .stream) {a b : BlockCipher} (h : a.Agrees b)
    (direction : Direction) {s : ChainState} (hs : s.register.length = a.blockSize) (data : Bytes) :
    ∃ out s', runMode mode a direction s data = .ok (out, s') ∧
      runMode mode b direction s data = .ok (out, s') ∧
      out.length = data.length ∧ s'.register.length = a.blockSize := by
  -- a byte at a time, and a block at a time
  have bytes {step step' : ChainState → UInt8 → UInt8 × ChainState}
      (hstep : ∀ (s : ChainState) byte, s.register.length = a.blockSize →
        step s byte = step' s byte ∧ (step s byte).2.register.length = a.blockSize) :
      mapState step s data = mapState step' s data ∧
        (mapState step s data).2.register.length = a.blockSize :=
    mapState_congr (P := fun s : ChainState => s.register.length = a.blockSize) (Q := fun _ => True)
      (fun s byte hs _ => hstep s byte hs) hs fun _ _ => trivial
  have blocks {step step' : ChainState → Bytes → Bytes × ChainState}
      (hstep : ∀ (s : ChainState) block, s.register.length = a.blockSize →
        block.length = a.blockSize →
        step s block = step' s block ∧ (step s block).1.length = a.blockSize ∧
          (step s block).2.register.length = a.blockSize) :
      mapBlocks step a.blockSize s data = mapBlocks step' a.blockSize s data ∧
        (mapBlocks step a.blockSize s data).1.length = data.length ∧
        (mapBlocks step a.blockSize s data).2.register.length = a.blockSize :=
    mapBlocks_congr (P := fun s : ChainState => s.register.length = a.blockSize) hstep hs data
  cases mode with
  | ecb =>
    obtain ⟨e, hlen, hreg⟩ := blocks fun _ _ hs hb => h.ecbStep hs direction hb
    rw [h.blockSize] at e
    exact ⟨_, _, rfl, by rw [runMode, ecb, ← e, ← h.blockSize]; rfl, hlen, hreg⟩
  | cbc =>
    cases direction with
    | encrypt =>
      obtain ⟨e, hlen, hreg⟩ := blocks fun _ _ hs hb => h.cbcEncryptStep hs hb
      exact ⟨_, _, rfl, by rw [runMode, cbc, ← h.blockSize, ← e]; rfl, hlen, hreg⟩
    | decrypt =>
      obtain ⟨e, hlen, hreg⟩ := blocks fun _ _ hs hb => h.cbcDecryptStep hs hb
      exact ⟨_, _, rfl, by rw [runMode, cbc, ← h.blockSize, ← e]; rfl, hlen, hreg⟩
  | ctr =>
    obtain ⟨e, hreg⟩ := bytes fun _ byte hs => h.ctrStep hs byte
    exact ⟨_, _, rfl, by rw [runMode, ctr, ← e], length_mapState _ _ _, hreg⟩
  | cfb =>
    obtain ⟨e, hreg⟩ := bytes fun s byte hs => h.cfbStep hs direction byte
    exact ⟨_, _, rfl, by rw [runMode, cfb, ← e], length_mapState _ _ _, hreg⟩
  | cfb8 =>
    obtain ⟨e, hreg⟩ := bytes fun s byte hs => h.cfb8Step hs direction byte
    exact ⟨_, _, rfl, by rw [runMode, cfb8, ← e], length_mapState _ _ _, hreg⟩
  | ofb =>
    obtain ⟨e, hreg⟩ := bytes fun s byte hs => h.ofbStep hs byte
    exact ⟨_, _, rfl, by rw [runMode, ofb, ← e], length_mapState _ _ _, hreg⟩
  | stream => exact absurd rfl hm

/-- A run that succeeds keeps the length of the data and of the register. -/
lemma length_runMode {mode : Mode} {cipher : BlockCipher} {direction : Direction}
    {s s' : ChainState} {data out : Bytes} (hs : s.register.length = cipher.blockSize)
    (h : runMode mode cipher direction s data = .ok (out, s')) :
    out.length = data.length ∧ s'.register.length = cipher.blockSize := by
  have hm : mode ≠ .stream := by
    rintro rfl
    cases h
  obtain ⟨out', s'', hrun, -, hlen, hregister⟩ := runMode_spec hm (.refl cipher) direction hs data
  cases hrun.symm.trans h
  exact ⟨hlen, hregister⟩

/-- Two calls of a mode are one call on the data of both. -/
lemma runMode_append {mode : Mode} {cipher : BlockCipher} {direction : Direction}
    {s s' s'' : ChainState} {x y out out' : Bytes} (hx : mode.Aligned cipher.blockSize x)
    (h : runMode mode cipher direction s x = .ok (out, s'))
    (h' : runMode mode cipher direction s' y = .ok (out', s'')) :
    runMode mode cipher direction s (x ++ y) = .ok (out ++ out', s'') := by
  have hn := cipher.blockSize_pos
  cases mode with
  | ecb =>
    exact congrArg Except.ok (mapBlocks_trans hn (hx rfl) (Except.ok.inj h) (Except.ok.inj h'))
  | cbc =>
    cases direction with
    | encrypt =>
      exact congrArg Except.ok (mapBlocks_trans hn (hx rfl) (Except.ok.inj h) (Except.ok.inj h'))
    | decrypt =>
      exact congrArg Except.ok (mapBlocks_trans hn (hx rfl) (Except.ok.inj h) (Except.ok.inj h'))
  | ctr => exact congrArg Except.ok (mapState_trans (Except.ok.inj h) (Except.ok.inj h'))
  | cfb => exact congrArg Except.ok (mapState_trans (Except.ok.inj h) (Except.ok.inj h'))
  | cfb8 => exact congrArg Except.ok (mapState_trans (Except.ok.inj h) (Except.ok.inj h'))
  | ofb => exact congrArg Except.ok (mapState_trans (Except.ok.inj h) (Except.ok.inj h'))
  | stream => cases h

end SymmetricCipher
