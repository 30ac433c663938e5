import Mathlib.Algebra.Order.Floor.Div
import SymmetricCipher.Cipher.Des.Basic
import SymmetricCipher.Proofs.Counter
import SymmetricCipher.Proofs.Inversion
import SymmetricCipher.Proofs.Stepping

/-!
# Keystreams byte by byte

CTR and OFB mask byte `k` of the data by byte `k % n` of keystream block `k / n`, whatever the data
and its length. In CTR the keystream block `j` is the encrypted counter `T + j`, in OFB it is the
initialization vector encrypted `j + 1` times.

Both come from one fact about masks that are refilled, `masked_maskStep`. It follows the data from
the start of a keystream block on: after `k` bytes, as many blocks have been made as `k` bytes take,
which is `k` over the block size, rounded up. The step of the counter is addition, so that steps
from the initialization vector are sums (`Bytes.iterate_increment`), and the counters of a stream
differ as long as there are others left (`Bytes.injOn_iterate_increment`).
-/

namespace SymmetricCipher

/-- Data that is masked by keystream blocks of `n` bytes each, and the state that this leaves. The
register is `register j` once `j` blocks are made. -/
structure Masked (n : Nat) (block register : Nat → Bytes) (data : Bytes)
    (result : Bytes × ChainState) : Prop where
  length_block : ∀ j, (block j).length = n
  bytes : result.1 = data.mapIdx fun k byte => byte ^^^ (block (k / n)).getD (k % n) 0
  register : result.2.register = register (data.length ⌈/⌉ n)
  position : result.2.position = data.length % n

/-! ## Masks that are refilled -/

section refill

variable {refill : ChainState → ChainState} {mask : ChainState → Bytes} {n : Nat}

/-- The state after `k` bytes from the start of a keystream block. -/
def ChainState.refilled (refill : ChainState → ChainState) (n : Nat) (s : ChainState) (k : Nat) :
    ChainState :=
  { refill^[k ⌈/⌉ n] s with position := k % n }

/-- One byte more needs one block more than are full. -/
lemma succ_ceilDiv (hn : 0 < n) (k : Nat) : (k + 1) ⌈/⌉ n = k / n + 1 := by
  rw [Nat.ceilDiv_eq_add_pred_div, show k + 1 + n - 1 = k + n by omega, Nat.add_div_right k hn]

/-- At the end of a block all blocks are full. -/
lemma ceilDiv_of_mod_eq_zero (hn : 0 < n) {k : Nat} (h : k % n = 0) : k ⌈/⌉ n = k / n := by
  have hk := Nat.div_add_mod k n
  rw [Nat.ceilDiv_eq_add_pred_div]
  refine Nat.div_eq_of_lt_le ?_ ?_
  · rw [Nat.mul_comm]
    omega
  · rw [Nat.succ_mul, Nat.mul_comm]
    omega

/-- Within a block there is one more than are full. -/
lemma ceilDiv_of_mod_ne_zero (hn : 0 < n) {k : Nat} (h : k % n ≠ 0) : k ⌈/⌉ n = k / n + 1 := by
  have hk := Nat.div_add_mod k n
  have hlt := Nat.mod_lt k hn
  rw [Nat.ceilDiv_eq_add_pred_div]
  refine Nat.div_eq_of_lt_le ?_ ?_
  · rw [Nat.succ_mul, Nat.mul_comm]
    omega
  · rw [Nat.succ_mul, Nat.succ_mul, Nat.mul_comm]
    omega

variable (hmask : ∀ s p, mask { s with position := p } = mask s)
  (hrefill : ∀ s p, refill { s with position := p } = { refill s with position := p })

include hrefill in
/-- With `k` bytes behind it, a state has the block of byte `k` at hand. -/
lemma ChainState.stocked_refilled (hn : 0 < n) (s : ChainState) (k : Nat) :
    (s.refilled refill n k).stocked refill = { refill^[k / n + 1] s with position := k % n } := by
  rw [ChainState.stocked, refilled]
  by_cases h : k % n = 0
  · rw [if_pos h, ceilDiv_of_mod_eq_zero hn h, hrefill, Function.iterate_succ_apply']
  · rw [if_neg h, ceilDiv_of_mod_ne_zero hn h]

include hmask hrefill in
/-- A byte is masked with the next byte of its block, and the position moves on by one. -/
lemma maskStep_refilled (hn : 0 < n) (s : ChainState) (k : Nat) (byte : UInt8) :
    maskStep refill mask n (s.refilled refill n k) byte =
      (byte ^^^ (mask (refill^[k / n + 1] s)).getD (k % n) 0, s.refilled refill n (k + 1)) := by
  have hposition : (s.refilled refill n k).position = k % n := rfl
  rw [maskStep, ChainState.stocked_refilled hrefill hn, hmask, hposition, ChainState.refilled,
    succ_ceilDiv hn, Nat.mod_add_mod]

include hmask hrefill in
/-- By induction over the bytes, all of them are masked so from the start of a block on. -/
lemma mapState_maskStep_start (hn : 0 < n) {s : ChainState} (hs : s.position = 0) (data : Bytes) :
    mapState (maskStep refill mask n) s data =
      (data.mapIdx fun k byte => byte ^^^ (mask (refill^[k / n + 1] s)).getD (k % n) 0,
        s.refilled refill n data.length) := by
  induction data using List.reverseRecOn with
  | nil =>
    rw [mapState_nil, List.mapIdx_nil, List.length_nil, ChainState.refilled, zero_ceilDiv,
      Nat.zero_mod, Function.iterate_zero_apply, ← hs]
  | append_singleton data byte ih =>
    rw [mapState_append, ih, mapState_cons, maskStep_refilled hmask hrefill hn, mapState_nil,
      List.mapIdx_concat, List.length_append, List.length_singleton]

variable (mask) in
include hmask hrefill in
/-- From the start of a keystream block, byte `k` is masked by byte `k % n` of block `k / n`. -/
lemma masked_maskStep (hn : 0 < n) {s : ChainState} (hs : s.position = 0)
    (hlen : ∀ j, (mask (refill^[j + 1] s)).length = n) (data : Bytes) :
    Masked n (fun j => mask (refill^[j + 1] s)) (fun j => (refill^[j] s).register) data
      (mapState (maskStep refill mask n) s data) := by
  rw [mapState_maskStep_start hmask hrefill hn hs]
  exact ⟨hlen, rfl, rfl, rfl⟩

end refill

/-! ## The two modes -/

section modes

variable {cipher : BlockCipher}

/-- What keeps the length of a block keeps it any number of times. -/
lemma length_iterate {f : Bytes → Bytes} {n : Nat}
    (hf : ∀ block, block.length = n → (f block).length = n) {block : Bytes}
    (h : block.length = n) (j : Nat) : (f^[j] block).length = n := by
  induction j with
  | zero => exact h
  | succ j ih =>
    rw [Function.iterate_succ_apply']
    exact hf _ ih

/-- In CTR the register counts the blocks. -/
lemma register_iterate_ctrRefill (s : ChainState) (j : Nat) :
    ((ctrRefill cipher)^[j] s).register = Bytes.increment^[j] s.register := by
  induction j with
  | zero => rfl
  | succ j ih =>
    rw [Function.iterate_succ_apply', Function.iterate_succ_apply', ← ih]
    rfl

/-- In OFB it is encrypted for every block. -/
lemma register_iterate_ofbRefill (s : ChainState) (j : Nat) :
    ((ofbRefill cipher)^[j] s).register = cipher.encryptBlock^[j] s.register := by
  induction j with
  | zero => rfl
  | succ j ih =>
    rw [Function.iterate_succ_apply', Function.iterate_succ_apply', ← ih]
    rfl

variable {iv : Bytes} (hiv : iv.length = cipher.blockSize) (data : Bytes)
include hiv

/-- CTR masks by encrypted counters, which start with the initialization vector. -/
lemma masked_ctr : Masked cipher.blockSize (fun j => cipher.encryptBlock (Bytes.increment^[j] iv))
    (fun j => Bytes.increment^[j] iv) data (ctr cipher (.start iv) data) := by
  have hregister (j : Nat) : ((ctrRefill cipher)^[j] (.start iv)).register =
      Bytes.increment^[j] iv := register_iterate_ctrRefill _ j
  have hcarry (j : Nat) : ((ctrRefill cipher)^[j + 1] (.start iv)).carry =
      cipher.encryptBlock (Bytes.increment^[j] iv) := by
    rw [Function.iterate_succ_apply', ← hregister]
    rfl
  have hlen (j : Nat) : ((ctrRefill cipher)^[j + 1] (.start iv)).carry.length =
      cipher.blockSize := by
    rw [hcarry]
    exact cipher.length_encryptBlock _
      (length_iterate (fun block h => (Bytes.length_increment block).trans h) hiv j)
  have h := masked_maskStep (·.carry) (fun _ _ => rfl) (fun _ _ => rfl) cipher.blockSize_pos rfl
    hlen data
  rw [ctr, ctrStep_eq_maskStep]
  simpa only [hcarry, hregister] using h

/-- OFB masks by what repeated encryption makes of the initialization vector. -/
lemma masked_ofb : Masked cipher.blockSize (fun j => cipher.encryptBlock^[j + 1] iv)
    (fun j => cipher.encryptBlock^[j] iv) data (ofb cipher (.start iv) data) := by
  have hregister (j : Nat) : ((ofbRefill cipher)^[j] (.start iv)).register =
      cipher.encryptBlock^[j] iv := register_iterate_ofbRefill _ j
  have hlen (j : Nat) : ((ofbRefill cipher)^[j + 1] (.start iv)).register.length =
      cipher.blockSize := by
    rw [hregister]
    exact length_iterate cipher.length_encryptBlock hiv (j + 1)
  have h := masked_maskStep (·.register) (fun _ _ => rfl) (fun _ _ => rfl) cipher.blockSize_pos rfl
    hlen data
  rw [ofb, ofbStep_eq_maskStep]
  simpa only [hregister] using h

end modes

/-- From the start of a stream, CTR masks by encrypted counters and OFB by repeated encryptions of
the initialization vector, and both take their output back. The counters are sums with the
initialization vector, modulo what a block can hold. -/
theorem ctr_and_ofb_masked (cipher : BlockCipher) {iv : Bytes}
    (hiv : iv.length = cipher.blockSize) (data : Bytes) :
    (Masked cipher.blockSize (fun j => cipher.encryptBlock (Bytes.advance iv j))
        (Bytes.advance iv) data (ctr cipher (.start iv) data) ∧
      ctr cipher (.start iv) (ctr cipher (.start iv) data).1 =
        (data, (ctr cipher (.start iv) data).2)) ∧
    Masked cipher.blockSize (fun j => cipher.encryptBlock^[j + 1] iv)
        (fun j => cipher.encryptBlock^[j] iv) data (ofb cipher (.start iv) data) ∧
      ofb cipher (.start iv) (ofb cipher (.start iv) data).1 =
        (data, (ofb cipher (.start iv) data).2) := by
  have hctr := masked_ctr hiv data
  simp only [Bytes.iterate_increment] at hctr
  have hctrStep (s : ChainState) (byte : UInt8) :
      ctrStep cipher s (ctrStep cipher s byte).1 = (byte, (ctrStep cipher s byte).2) :=
    ctrStep_ctrStep byte
  have hofbStep (s : ChainState) (byte : UInt8) :
      ofbStep cipher s (ofbStep cipher s byte).1 = (byte, (ofbStep cipher s byte).2) :=
    ofbStep_ofbStep byte
  exact ⟨⟨hctr, mapState_undone hctrStep (.start iv) data⟩, masked_ofb hiv data,
    mapState_undone hofbStep (.start iv) data⟩

/-- The greatest counter is followed by zero inside of three blocks of data. -/
theorem ctr_and_ofb_masked_des :
    let cipher := Des.cipherOf (Des.roundKeys [1, 2, 3, 4, 5, 6, 7, 8])
    let iv : Bytes := List.replicate 8 255
    let data : Bytes := List.replicate 17 7
    let result := ctr cipher (.start iv) data
    iv.length = cipher.blockSize ∧
      result.1[8]? = some (7 ^^^ (cipher.encryptBlock (List.replicate 8 0)).getD 0 0) ∧
      result.2.register = [0, 0, 0, 0, 0, 0, 0, 2] ∧ result.2.position = 1 ∧
      ofb cipher (.start iv) (ofb cipher (.start iv) data).1 =
        (data, (ofb cipher (.start iv) data).2) := by
  intro cipher iv data result
  have hiv : iv.length = cipher.blockSize := rfl
  have hblock : cipher.blockSize = 8 := rfl
  have hlen : data.length = 17 := List.length_replicate
  have hadvance : Bytes.advance iv 1 = List.replicate 8 0 := by decide +kernel
  obtain ⟨⟨hctr, -⟩, -, hofb⟩ := ctr_and_ofb_masked cipher hiv data
  refine ⟨hiv, ?_, ?_, ?_, hofb⟩
  · rw [hctr.bytes, List.getElem?_mapIdx, hblock, ← hadvance]
    rfl
  · rw [hctr.register, hlen, hblock]
    decide +kernel
  · rw [hctr.position, hlen, hblock]

/-- The next counter of the same width is greater by one, and the counter after `k` steps by `k`,
modulo what the width can hold; a counter of no bytes stays what it is. CTR encrypts the counters
that follow each other in this way, one for each block, and among as many blocks in a row as there
are counters, no two have the same one. -/
theorem counters_count_and_differ (counter : Bytes) :
    (Bytes.increment counter).length = counter.length ∧
    Bytes.toNumber (Bytes.increment counter) =
      (Bytes.toNumber counter + 1) % 256 ^ counter.length ∧
    (∀ k, (Bytes.increment^[k] counter).length = counter.length ∧
      Bytes.toNumber (Bytes.increment^[k] counter) =
        (Bytes.toNumber counter + k) % 256 ^ counter.length) ∧
    (∀ first, Set.InjOn (fun j => Bytes.increment^[j] counter)
      (Set.Ico first (first + 256 ^ counter.length))) ∧
    ∀ cipher : BlockCipher, counter.length = cipher.blockSize → ∀ data,
      Masked cipher.blockSize (fun j => cipher.encryptBlock (Bytes.increment^[j] counter))
        (fun j => Bytes.increment^[j] counter) data (ctr cipher (.start counter) data) :=
  ⟨Bytes.length_increment counter, Bytes.toNumber_increment counter,
    fun k => ⟨Bytes.length_iterate_increment counter k, Bytes.toNumber_iterate_increment counter k⟩,
    Bytes.injOn_iterate_increment counter, fun _ hcounter data => masked_ctr hcounter data⟩

/-- The greatest counter of DES is followed by zero, and comes again only when all have come. -/
theorem counters_count_and_differ_des :
    let cipher := Des.cipherOf (Des.roundKeys [1, 2, 3, 4, 5, 6, 7, 8])
    let counter : Bytes := List.replicate 8 255
    Bytes.toNumber (Bytes.increment counter) = 0 ∧
      (∀ j, 1 ≤ j → j < 256 ^ 8 → Bytes.increment^[j] counter ≠ counter) ∧
      counter.length = cipher.blockSize ∧
      (ctr cipher (.start counter) (List.replicate 17 7)).2.register =
        Bytes.increment^[3] counter := by
  intro cipher counter
  have hblock : counter.length = cipher.blockSize := rfl
  obtain ⟨-, hnext, -, hdiffer, hctr⟩ := counters_count_and_differ counter
  refine ⟨?_, fun j hone hlt h => ?_, hblock, ?_⟩
  · rw [hnext]
    decide +kernel
  · have hzero : (0 : Nat) ∈ Set.Ico 0 (0 + 256 ^ counter.length) :=
      ⟨Nat.le_refl 0, by rw [Nat.zero_add]; exact Nat.pow_pos (by decide)⟩
    have hj : j ∈ Set.Ico 0 (0 + 256 ^ counter.length) :=
      ⟨Nat.zero_le j, by rw [Nat.zero_add]; exact hlt⟩
    have heq := hdiffer 0 hj hzero h
    omega
  · have hblocks : 17 ⌈/⌉ cipher.blockSize = 3 := by decide +kernel
    rw [(hctr cipher hblock (List.replicate 17 7)).register, List.length_replicate, hblocks]

end SymmetricCipher
