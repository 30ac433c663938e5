import SymmetricCipher.Cipher.Des.Basic
import SymmetricCipher.Proofs.Chaining

/-!
# Resynchronization

Decryption in CBC, CFB and CFB8 forgets where it started. Two runs over the same ciphertext come
together after as much of it as the register holds, and for CFB inside a block, after the rest of
this block too. What this rests on is a relation of two states that says how many more units they
need at most: each unit brings the states closer (`Converges`), and states that have come together
stay together. A damaged byte of ciphertext is two runs from one state that part there, so the
plaintext is damaged for as long only.
-/

namespace SymmetricCipher

/-! ## Two runs over the same units -/

/-- `R k` relates states that have come together after `k` units at most, whatever these are. -/
structure Converges {σ α β : Type} (step : σ → α → β × σ) (R : Nat → σ → σ → Prop) : Prop where
  closer : ∀ {k s t} (x : α), R (k + 1) s t → R k (step s x).2 (step t x).2
  together : ∀ {s t} (x : α), R 0 s t →
    (step s x).1 = (step t x).1 ∧ R 0 (step s x).2 (step t x).2

namespace Converges

variable {σ α β : Type} {step : σ → α → β × σ} {R : Nat → σ → σ → Prop} {s t : σ}

/-- States that are together give the same results and stay together. -/
lemma stay (h : Converges step R) (hst : R 0 s t) (xs : List α) :
    (mapState step s xs).1 = (mapState step t xs).1 ∧
      R 0 (mapState step s xs).2 (mapState step t xs).2 := by
  induction xs generalizing s t with
  | nil => exact ⟨rfl, hst⟩
  | cons x xs ih =>
    obtain ⟨hout, hnext⟩ := h.together x hst
    obtain ⟨houts, hlast⟩ := ih hnext
    rw [mapState_cons, mapState_cons, hout, houts]
    exact ⟨rfl, hlast⟩

/-- States are together after the number of units that they are apart. -/
lemma meet (h : Converges step R) {k : Nat} (hst : R k s t) {xs : List α} (hk : k ≤ xs.length) :
    R 0 (mapState step s xs).2 (mapState step t xs).2 := by
  induction xs generalizing s t k with
  | nil =>
    cases Nat.le_zero.1 hk
    exact hst
  | cons x xs ih =>
    cases k with
    | zero => exact (h.stay hst (x :: xs)).2
    | succ k => exact ih (h.closer x hst) (Nat.le_of_succ_le_succ hk)

end Converges

/-! ## The three modes -/

variable {cipher : BlockCipher}

/-- In CBC one block is enough: it becomes the register. -/
lemma cbc_converges (cipher : BlockCipher) :
    Converges (cbcDecryptStep cipher) fun k s t => k = 0 → s.register = t.register where
  closer _ _ _ := rfl
  together block h := by
    refine ⟨?_, fun _ => rfl⟩
    simp only [cbcDecryptStep, h rfl]

/-- In CFB8 every byte leaves less of the old register. -/
lemma cfb8_converges (cipher : BlockCipher) :
    Converges (cfb8Step cipher .decrypt) fun k s t =>
      s.register.length = t.register.length ∧ s.register.drop k = t.register.drop k where
  closer {k s t} byte := by
    rintro ⟨hlen, hdrop⟩
    refine ⟨?_, ?_⟩
    · simp [cfb8Step, hlen]
    · simp only [cfb8Step, List.drop_append, List.drop_drop, List.length_drop, hlen]
      rw [Nat.add_comm 1 k, hdrop]
  together {s t} byte := by
    rintro ⟨hlen, hdrop⟩
    have hreg : s.register = t.register := hdrop
    simp [cfb8Step, hreg]

/-- How much of the ciphertext two states of CFB need at most to come together. -/
inductive CfbApart (n k : Nat) (s t : ChainState) : Prop
  | same (register : s.register = t.register)
  | inside (front : s.register.take s.position = t.register.take s.position)
      (enough : n - s.position ≤ k)
  | before (started : 0 < s.position) (enough : 2 * n - s.position ≤ k)

/-- Two states of CFB at the same place of a block. -/
structure CfbRelated (n k : Nat) (s t : ChainState) : Prop where
  left : s.register.length = n
  right : t.register.length = n
  position : s.position = t.position
  inBlock : s.position < n
  apart : CfbApart n k s t

variable {s t : ChainState} {n k : Nat} {byte : UInt8}

/-- The front up to a byte that is set ends with that byte. -/
lemma take_succ_set {register : Bytes} {p : Nat} (hp : p < register.length) (byte : UInt8) :
    (register.set p byte).take (p + 1) = register.take p ++ [byte] := by
  rw [List.take_succ_eq_append_getElem (by rwa [List.length_set]),
    List.take_set_of_le (Nat.le_refl p), List.getElem_set_self]

/-- In decryption the register takes the byte of ciphertext. -/
lemma register_cfbStep (cipher : BlockCipher) (s : ChainState) (byte : UInt8) :
    (cfbStep cipher .decrypt s byte).2.register =
      (cfbRegister cipher s).set s.position byte := rfl

/-- Each byte moves on by one place in the block. -/
lemma position_cfbStep (cipher : BlockCipher) (direction : Direction) (s : ChainState)
    (byte : UInt8) : (cfbStep cipher direction s byte).2.position =
      (s.position + 1) % cipher.blockSize := rfl

/-- The byte is the last one of its block, or the block goes on. -/
lemma position_cases (h : s.position < cipher.blockSize) (byte : UInt8) :
    s.position + 1 = cipher.blockSize ∧ (cfbStep cipher .decrypt s byte).2.position = 0 ∨
    s.position + 1 < cipher.blockSize ∧
      (cfbStep cipher .decrypt s byte).2.position = s.position + 1 := by
  rw [position_cfbStep]
  by_cases hlast : s.position + 1 = cipher.blockSize
  · exact .inl ⟨hlast, by rw [hlast, Nat.mod_self]⟩
  · have hmore : s.position + 1 < cipher.blockSize := by omega
    exact .inr ⟨hmore, Nat.mod_eq_of_lt hmore⟩

/-- The register stays as long as a block. -/
lemma length_register_cfbStep (h : s.register.length = cipher.blockSize) (byte : UInt8) :
    (cfbStep cipher .decrypt s byte).2.register.length = cipher.blockSize :=
  ((BlockCipher.Agrees.refl cipher).cfbStep h .decrypt byte).2

/-- The front of the register is not touched by the encryption that starts a block. -/
lemma take_cfbRegister (cipher : BlockCipher) (s : ChainState) :
    (cfbRegister cipher s).take s.position = s.register.take s.position := by
  by_cases hp : s.position = 0
  · rw [hp, List.take_zero, List.take_zero]
  · rw [cfbRegister, if_neg hp]

namespace CfbRelated

/-- A step takes both states to the same place. -/
lemma step (h : CfbRelated cipher.blockSize k s t) (byte : UInt8) {j : Nat}
    (hapart : CfbApart cipher.blockSize j (cfbStep cipher .decrypt s byte).2
      (cfbStep cipher .decrypt t byte).2) :
    CfbRelated cipher.blockSize j (cfbStep cipher .decrypt s byte).2
      (cfbStep cipher .decrypt t byte).2 where
  left := length_register_cfbStep h.left byte
  right := length_register_cfbStep h.right byte
  position := by rw [position_cfbStep, position_cfbStep, h.position]
  inBlock := Nat.mod_lt _ cipher.blockSize_pos
  apart := hapart

/-- Registers that are equal up to the position are equal one byte further. -/
lemma front_step (h : CfbRelated cipher.blockSize k s t)
    (hfront : s.register.take s.position = t.register.take s.position) (byte : UInt8) :
    (cfbStep cipher .decrypt s byte).2.register.take (s.position + 1) =
      (cfbStep cipher .decrypt t byte).2.register.take (s.position + 1) := by
  have hs : s.position < (cfbRegister cipher s).length :=
    ((BlockCipher.Agrees.refl cipher).cfbRegister h.left).2.symm ▸ h.inBlock
  have ht : s.position < (cfbRegister cipher t).length :=
    ((BlockCipher.Agrees.refl cipher).cfbRegister h.right).2.symm ▸ h.inBlock
  rw [register_cfbStep, register_cfbStep, ← h.position, take_succ_set hs, take_succ_set ht,
    take_cfbRegister, hfront, h.position, take_cfbRegister]

/-- States that are not apart have the same register. -/
lemma register_eq (h : CfbRelated n 0 s t) : s.register = t.register := by
  have hlt := h.inBlock
  cases h.apart with
  | same register => exact register
  | inside front enough => omega
  | before started enough => omega

/-- From the same register a byte gives the same byte, and the same register. -/
lemma same_step (h : CfbRelated cipher.blockSize k s t) (hreg : s.register = t.register)
    (byte : UInt8) : (cfbStep cipher .decrypt s byte).1 = (cfbStep cipher .decrypt t byte).1 ∧
      (cfbStep cipher .decrypt s byte).2.register =
        (cfbStep cipher .decrypt t byte).2.register := by
  simp only [cfbStep, cfbRegister, h.position, hreg, and_self]

end CfbRelated

/-- In CFB the ciphertext replaces the register byte by byte, and each block starts from the last
one. So the block in which the runs start does not count unless it is complete. -/
lemma cfb_converges (cipher : BlockCipher) :
    Converges (cfbStep cipher .decrypt) (CfbRelated cipher.blockSize) where
  closer {k s t} byte h := by
    apply h.step byte
    cases h.apart with
    | same register => exact .same (h.same_step register byte).2
    | inside front enough =>
      have hfront := h.front_step front byte
      obtain ⟨hlast, -⟩ | ⟨hmore, hnext⟩ := position_cases h.inBlock byte
      · rw [hlast, List.take_of_length_le (Nat.le_of_eq (length_register_cfbStep h.left byte)),
          List.take_of_length_le (Nat.le_of_eq (length_register_cfbStep h.right byte))] at hfront
        exact .same hfront
      · apply CfbApart.inside
        · rw [hnext, hfront]
        · omega
    | before started enough =>
      obtain ⟨hlast, hnext⟩ | ⟨hmore, hnext⟩ := position_cases h.inBlock byte
      · -- the next byte starts a block, with nothing in front of it
        apply CfbApart.inside
        · rw [hnext, List.take_zero, List.take_zero]
        · omega
      · apply CfbApart.before
        · omega
        · omega
  together byte h := by
    obtain ⟨hout, hregister⟩ := h.same_step h.register_eq byte
    exact ⟨hout, h.step byte (.same hregister)⟩

/-! ## Runs of decryption -/

/-- Two states that decrypt the same after `reach` bytes of ciphertext, whatever these are: their
registers are equal then, their positions are if they were before, and so is all later plaintext. -/
def Resynchronizes (cipher : BlockCipher) (mode : Mode) (reach : Nat) (s t : ChainState) : Prop :=
  ∀ data : Bytes, reach ≤ data.length → ∃ out out' s' t',
    runMode mode cipher .decrypt s data = .ok (out, s') ∧
    runMode mode cipher .decrypt t data = .ok (out', t') ∧
    s'.register = t'.register ∧ (s.position = t.position → s'.position = t'.position) ∧
    ∀ later : Bytes, ∃ plain s'' t'',
      runMode mode cipher .decrypt s' later = .ok (plain, s'') ∧
      runMode mode cipher .decrypt t' later = .ok (plain, t'') ∧ s''.register = t''.register

/-- What a step keeps of two states, a run keeps. -/
lemma mapState_keeps {σ α β : Type} {step : σ → α → β × σ} {P : σ → σ → Prop}
    (h : ∀ {s t} x, P s t → P (step s x).2 (step t x).2) {s t : σ} (hst : P s t) (xs : List α) :
    P (mapState step s xs).2 (mapState step t xs).2 := by
  induction xs generalizing s t with
  | nil => exact hst
  | cons x xs ih => exact ih (h x hst)

/-- A mode resynchronizes if it sends its units, bytes or blocks, through a step that converges. -/
lemma Converges.resynchronizes {α β : Type} {step : ChainState → α → β × ChainState}
    {R : Nat → ChainState → ChainState → Prop} (h : Converges step R) {mode : Mode}
    (units : Bytes → List α) (assemble : List β → Bytes → Bytes)
    (hrun : ∀ s data, runMode mode cipher .decrypt s data =
      .ok (assemble (mapState step s (units data)).1 data, (mapState step s (units data)).2))
    (hregister : ∀ {s t}, R 0 s t → s.register = t.register)
    (hposition : ∀ {s t : ChainState} (x : α), s.position = t.position →
      (step s x).2.position = (step t x).2.position)
    {reach : Nat} (count : Nat)
    (hreach : ∀ data : Bytes, reach ≤ data.length → count ≤ (units data).length)
    (hst : R count s t) : Resynchronizes cipher mode reach s t := by
  intro data hdata
  have hmeet := h.meet hst (hreach data hdata)
  refine ⟨_, _, _, _, hrun s data, hrun t data, hregister hmeet, fun hp => ?_, fun later => ?_⟩
  · exact mapState_keeps (P := fun s t : ChainState => s.position = t.position) hposition hp _
  · obtain ⟨hplain, hlast⟩ := h.stay hmeet (units later)
    refine ⟨_, _, _, hrun _ later, ?_, hregister hlast⟩
    rw [hrun, ← hplain]

/-- CBC needs one block of ciphertext, whatever the states are. -/
lemma cbc_resynchronizes (cipher : BlockCipher) (s t : ChainState) :
    Resynchronizes cipher .cbc cipher.blockSize s t := by
  refine (cbc_converges cipher).resynchronizes (Bytes.wholeBlocks cipher.blockSize)
    (fun blocks data => blocks.flatten ++ Bytes.partialBlock cipher.blockSize data)
    (fun _ _ => rfl) (fun h => h rfl) (fun _ h => h) 1 ?_ nofun
  intro data hdata
  rw [Bytes.length_wholeBlocks]
  exact (Nat.one_le_div_iff cipher.blockSize_pos).2 hdata

/-- CFB8 needs as many bytes as its register holds. -/
lemma cfb8_resynchronizes (hs : s.register.length = cipher.blockSize)
    (ht : t.register.length = cipher.blockSize) :
    Resynchronizes cipher .cfb8 cipher.blockSize s t := by
  have hdrop : s.register.drop cipher.blockSize = t.register.drop cipher.blockSize := by
    rw [List.drop_of_length_le (Nat.le_of_eq hs), List.drop_of_length_le (Nat.le_of_eq ht)]
  exact (cfb8_converges cipher).resynchronizes id (fun out _ => out)
    (fun _ _ => rfl) (fun h => h.2) (fun _ h => h) cipher.blockSize (fun _ h => h)
    ⟨hs.trans ht.symm, hdrop⟩

/-- How much ciphertext CFB needs from a position in a block. -/
def cfbReach (n position : Nat) : Nat := if position = 0 then n else 2 * n - position

/-- CFB needs the rest of the block that is under way, and one more. -/
lemma cfb_resynchronizes (hs : s.register.length = cipher.blockSize)
    (ht : t.register.length = cipher.blockSize) (hp : s.position = t.position)
    (hlt : s.position < cipher.blockSize) :
    Resynchronizes cipher .cfb (cfbReach cipher.blockSize s.position) s t := by
  have hapart : CfbApart cipher.blockSize (cfbReach cipher.blockSize s.position) s t := by
    by_cases hzero : s.position = 0
    · apply CfbApart.inside
      · rw [hzero, List.take_zero, List.take_zero]
      · rw [cfbReach, if_pos hzero]
        exact Nat.sub_le ..
    · exact .before (Nat.pos_of_ne_zero hzero) (Nat.le_of_eq (if_neg hzero).symm)
  refine (cfb_converges cipher).resynchronizes id (fun out _ => out)
    (fun _ _ => rfl) (fun h => h.register_eq) (fun byte h => ?_) _ (fun _ h => h)
    ⟨hs, ht, hp, hlt, hapart⟩
  rw [position_cfbStep, position_cfbStep, h]

/-! ## Damaged ciphertext -/

/-- Whatever byte stands at place `k` of the ciphertext, the plaintext is the same before `first`
and from `last` on. -/
def Confines (cipher : BlockCipher) (mode : Mode) (s : ChainState) (k first last : Nat) : Prop :=
  ∀ (data : Bytes) (byte : UInt8), k < data.length → ∃ out out' s' t',
    runMode mode cipher .decrypt s data = .ok (out, s') ∧
    runMode mode cipher .decrypt s (data.set k byte) = .ok (out', t') ∧
    out.length = data.length ∧ out'.length = data.length ∧
    out'.take first = out.take first ∧ out'.drop last = out.drop last

variable {mode : Mode} {front unit unit' rest : Bytes} {reach : Nat}

/-- Runs over ciphertexts that differ in their first unit come together after it. -/
lemma drop_damaged (hm : mode ≠ .stream) (hs : s.register.length = cipher.blockSize)
    (hlen : unit'.length = unit.length) (hunit : mode.Aligned cipher.blockSize unit)
    (hcut : ∀ x : Bytes, x.length = reach → mode.Aligned cipher.blockSize x)
    (h : ∀ {a a' s' t'}, runMode mode cipher .decrypt s unit = .ok (a, s') →
      runMode mode cipher .decrypt s unit' = .ok (a', t') →
      Resynchronizes cipher mode reach s' t') {out out' : Bytes} {s' t' : ChainState}
    (hout : runMode mode cipher .decrypt s (unit ++ rest) = .ok (out, s'))
    (hout' : runMode mode cipher .decrypt s (unit' ++ rest) = .ok (out', t')) :
    out'.drop (unit.length + reach) = out.drop (unit.length + reach) := by
  have hlenout := (length_runMode hs hout).1
  have hlenout' := (length_runMode hs hout').1
  rw [List.length_append] at hlenout hlenout'
  by_cases hle : reach ≤ rest.length
  · obtain ⟨a, s₁, ha, -, hlena, hs₁⟩ := runMode_spec hm (.refl cipher) .decrypt hs unit
    obtain ⟨a', t₁, ha', -, hlena', ht₁⟩ := runMode_spec hm (.refl cipher) .decrypt hs unit'
    have htake : (rest.take reach).length = reach := List.length_take_of_le hle
    obtain ⟨b, b', s₂, t₂, hb, hb', -, -, hlater⟩ :=
      h ha ha' (rest.take reach) (Nat.le_of_eq htake.symm)
    obtain ⟨plain, s₃, t₃, hplain, hplain', -⟩ := hlater (rest.drop reach)
    -- both runs end with the same plaintext
    have hrun := runMode_append hunit ha (runMode_append (hcut _ htake) hb hplain)
    have hrun' :=
      runMode_append (hunit.of_length_eq hlen) ha' (runMode_append (hcut _ htake) hb' hplain')
    rw [List.take_append_drop] at hrun hrun'
    cases hrun.symm.trans hout
    cases hrun'.symm.trans hout'
    have hlenb := (length_runMode hs₁ hb).1
    have hlenb' := (length_runMode ht₁ hb').1
    rw [← List.append_assoc, ← List.append_assoc, List.drop_left' (by simp; omega),
      List.drop_left' (by simp; omega)]
  · rw [List.drop_of_length_le (by omega), List.drop_of_length_le (by omega)]

/-- Runs over ciphertexts that are the same up to a cut part there. -/
lemma take_damaged (hm : mode ≠ .stream) (hs : s.register.length = cipher.blockSize)
    (hfront : mode.Aligned cipher.blockSize front) {tail tail' : Bytes}
    (hlen : tail'.length = tail.length) (wide : Nat)
    (h : ∀ {o u out out' s' t'}, runMode mode cipher .decrypt s front = .ok (o, u) →
      runMode mode cipher .decrypt u tail = .ok (out, s') →
      runMode mode cipher .decrypt u tail' = .ok (out', t') →
      out'.drop wide = out.drop wide) :
    ∃ out out' s' t', runMode mode cipher .decrypt s (front ++ tail) = .ok (out, s') ∧
      runMode mode cipher .decrypt s (front ++ tail') = .ok (out', t') ∧
      out.length = (front ++ tail).length ∧ out'.length = (front ++ tail).length ∧
      out'.take front.length = out.take front.length ∧
      out'.drop (front.length + wide) = out.drop (front.length + wide) := by
  obtain ⟨o, u, ho, -, hleno, hu⟩ := runMode_spec hm (.refl cipher) .decrypt hs front
  obtain ⟨out, s', hout, -, hlenout, -⟩ := runMode_spec hm (.refl cipher) .decrypt hu tail
  obtain ⟨out', t', hout', -, hlenout', -⟩ := runMode_spec hm (.refl cipher) .decrypt hu tail'
  refine ⟨_, _, _, _, runMode_append hfront ho hout, runMode_append hfront ho hout',
    ?_, ?_, ?_, ?_⟩
  · rw [List.length_append, List.length_append, hleno, hlenout]
  · rw [List.length_append, List.length_append, hleno, hlenout', hlen]
  · rw [List.take_left' hleno, List.take_left' hleno]
  · rw [← hleno, List.drop_length_add_append, List.drop_length_add_append, h ho hout hout']

/-- A mode that takes any bytes comes together again after the damaged byte. -/
lemma confines_byte (hm : mode ≠ .stream) (hb : mode.isBlockMode = false)
    (hs : s.register.length = cipher.blockSize) {k : Nat}
    (h : ∀ {front : Bytes} {x y : UInt8} {o a a' : Bytes} {u s' t' : ChainState},
      front.length = k → runMode mode cipher .decrypt s front = .ok (o, u) →
      runMode mode cipher .decrypt u [x] = .ok (a, s') →
      runMode mode cipher .decrypt u [y] = .ok (a', t') →
      Resynchronizes cipher mode reach s' t') :
    Confines cipher mode s k k (k + (1 + reach)) := by
  intro data byte hk
  have haligned (x : Bytes) : mode.Aligned cipher.blockSize x := by
    intro h
    rw [hb] at h
    cases h
  have hfront : (data.take k).length = k := List.length_take_of_le (Nat.le_of_lt hk)
  have hdata : data = data.take k ++ ([data[k]] ++ data.drop (k + 1)) := by
    simp
  have hset : data.set k byte = data.take k ++ ([byte] ++ data.drop (k + 1)) := by
    rw [List.set_eq_take_append_cons_drop, if_pos hk]
    rfl
  have hbyte : [byte].length = [data[k]].length := rfl
  have htail : ([byte] ++ data.drop (k + 1)).length = ([data[k]] ++ data.drop (k + 1)).length := rfl
  have hdamaged := take_damaged hm hs (haligned (data.take k)) htail (1 + reach)
    fun ho hout hout' => drop_damaged hm (length_runMode hs ho).2 hbyte (haligned _)
      (fun x _ => haligned x) (fun ha ha' => h hfront ho ha ha') hout hout'
  rw [← hdata, ← hset, hfront] at hdamaged
  exact hdamaged

/-- In CFB8 a damaged byte spoils itself and what comes while it is in the register. -/
lemma cfb8_confines (hs : s.register.length = cipher.blockSize) (k : Nat) :
    Confines cipher .cfb8 s k k (k + (1 + cipher.blockSize)) := by
  refine confines_byte ?_ rfl hs ?_
  · exact nofun
  intro front x y o a a' u s' t' _ ho ha ha'
  have hu := (length_runMode hs ho).2
  exact cfb8_resynchronizes (length_runMode hu ha).2 (length_runMode hu ha').2

/-- After some data CFB is that much further on, modulo the block. -/
lemma position_cfb (hlt : s.position < cipher.blockSize) (direction : Direction) (data : Bytes) :
    (cfb cipher direction s data).2.position = (s.position + data.length) % cipher.blockSize := by
  induction data generalizing s with
  | nil => exact (Nat.mod_eq_of_lt hlt).symm
  | cons byte data ih =>
    have hstep := position_cfbStep cipher direction s byte
    have hrest := ih (hstep ▸ Nat.mod_lt _ cipher.blockSize_pos)
    rw [hstep, Nat.mod_add_mod] at hrest
    rw [List.length_cons, Nat.add_comm data.length, ← Nat.add_assoc]
    exact hrest

/-- In CFB the rest of the block and the block behind it are damaged. -/
lemma cfb_confines (hs : s.register.length = cipher.blockSize)
    (hlt : s.position < cipher.blockSize) (k : Nat) :
    Confines cipher .cfb s k k
      (k + 2 * cipher.blockSize - (s.position + k) % cipher.blockSize) := by
  have hpos := cipher.blockSize_pos
  have hreach : k + 2 * cipher.blockSize - (s.position + k) % cipher.blockSize =
      k + (1 + cfbReach cipher.blockSize
        (((s.position + k) % cipher.blockSize + 1) % cipher.blockSize)) := by
    have hplace := Nat.mod_lt (s.position + k) hpos
    by_cases hlast : (s.position + k) % cipher.blockSize + 1 = cipher.blockSize
    · rw [hlast, Nat.mod_self, cfbReach, if_pos rfl]
      omega
    · have hnext : (s.position + k) % cipher.blockSize + 1 < cipher.blockSize := by omega
      rw [Nat.mod_eq_of_lt hnext, cfbReach, if_neg (Nat.succ_ne_zero _)]
      omega
  rw [hreach]
  refine confines_byte ?_ rfl hs ?_
  · exact nofun
  intro front x y o a a' u s' t' hfront ho ha ha'
  have hu := (length_runMode hs ho).2
  have hplace : u.position = (s.position + k) % cipher.blockSize := by
    have hfinal := position_cfb hlt .decrypt front
    rw [Except.ok.inj ho, hfront] at hfinal
    exact hfinal
  have hs' : s'.position = (u.position + 1) % cipher.blockSize := by
    cases ha
    rfl
  have ht' : t'.position = (u.position + 1) % cipher.blockSize := by
    cases ha'
    rfl
  rw [← hplace, ← hs']
  exact cfb_resynchronizes (length_runMode hu ha).2 (length_runMode hu ha').2 (hs'.trans ht'.symm)
    (hs' ▸ Nat.mod_lt _ hpos)

/-- Damage in the first block is gone after the second. -/
lemma cbc_damaged (hs : s.register.length = cipher.blockSize) {data : Bytes} {k : Nat}
    (hk : k < cipher.blockSize) (byte : UInt8) {out out' : Bytes} {s' t' : ChainState}
    (hout : runMode .cbc cipher .decrypt s data = .ok (out, s'))
    (hout' : runMode .cbc cipher .decrypt s (data.set k byte) = .ok (out', t')) :
    out'.drop (2 * cipher.blockSize) = out.drop (2 * cipher.blockSize) := by
  have hm : Mode.cbc ≠ .stream := nofun
  have hlenout := (length_runMode hs hout).1
  have hlenout' := (length_runMode hs hout').1
  rw [List.length_set] at hlenout'
  by_cases hshort : data.length < cipher.blockSize
  · rw [List.drop_of_length_le (by omega), List.drop_of_length_le (by omega)]
  · have hunit : (data.take cipher.blockSize).length = cipher.blockSize :=
      List.length_take_of_le (Nat.le_of_not_lt hshort)
    have hwhole {x : Bytes} (hx : x.length = cipher.blockSize) :
        Mode.cbc.Aligned cipher.blockSize x := by
      intro _
      rw [hx, Nat.mod_self]
    rw [← List.take_append_drop cipher.blockSize data] at hout hout'
    rw [List.set_append_left _ _ (by omega)] at hout'
    have hdrop := drop_damaged hm hs List.length_set (hwhole hunit) (fun x hx => hwhole hx)
      (fun _ _ => cbc_resynchronizes cipher _ _) hout hout'
    rw [hunit, ← Nat.two_mul] at hdrop
    exact hdrop

/-- In CBC the block and the block behind it are damaged. -/
lemma cbc_confines (hs : s.register.length = cipher.blockSize) (k : Nat) :
    Confines cipher .cbc s k (k / cipher.blockSize * cipher.blockSize)
      (k / cipher.blockSize * cipher.blockSize + 2 * cipher.blockSize) := by
  intro data byte hk
  have hm : Mode.cbc ≠ .stream := nofun
  have hle : k / cipher.blockSize * cipher.blockSize ≤ k := Nat.div_mul_le_self _ _
  have hlt : k < k / cipher.blockSize * cipher.blockSize + cipher.blockSize :=
    Nat.lt_div_mul_add cipher.blockSize_pos
  generalize hi : k / cipher.blockSize * cipher.blockSize = i at hle hlt ⊢
  have hfront : (data.take i).length = i := List.length_take_of_le (by omega)
  have haligned : Mode.cbc.Aligned cipher.blockSize (data.take i) := by
    intro _
    rw [hfront, ← hi, Nat.mul_mod_left]
  have hset : data.set k byte = data.take i ++ (data.drop i).set (k - i) byte := by
    calc data.set k byte
        = (data.take i ++ data.drop i).set k byte := by rw [List.take_append_drop]
      _ = data.take i ++ (data.drop i).set (k - i) byte := by
        rw [List.set_append_right _ _ (by rwa [hfront]), hfront]
  have hplace : k - i < cipher.blockSize := by omega
  have hlen : ((data.drop i).set (k - i) byte).length = (data.drop i).length := List.length_set
  have hdamaged := take_damaged hm hs haligned hlen (2 * cipher.blockSize)
    fun ho hout hout' => cbc_damaged (length_runMode hs ho).2 hplace byte hout hout'
  rw [List.take_append_drop, ← hset, hfront] at hdamaged
  exact hdamaged

/-- CBC needs one block, CFB8 a register full of bytes, CFB the rest of its block and one more. A
damaged byte at place `k` is felt for that long, and nowhere before its own block. -/
theorem decryption_resynchronizes (cipher : BlockCipher) {s t : ChainState}
    (hs : s.register.length = cipher.blockSize) (ht : t.register.length = cipher.blockSize) :
    Resynchronizes cipher .cbc cipher.blockSize s t ∧
    Resynchronizes cipher .cfb8 cipher.blockSize s t ∧
    (s.position = t.position → s.position < cipher.blockSize →
      Resynchronizes cipher .cfb
        (if s.position = 0 then cipher.blockSize else 2 * cipher.blockSize - s.position) s t) ∧
    ∀ k : Nat,
      Confines cipher .cbc s k (k / cipher.blockSize * cipher.blockSize)
        (k / cipher.blockSize * cipher.blockSize + 2 * cipher.blockSize) ∧
      Confines cipher .cfb8 s k k (k + (1 + cipher.blockSize)) ∧
      (s.position < cipher.blockSize → Confines cipher .cfb s k k
        (k + 2 * cipher.blockSize - (s.position + k) % cipher.blockSize)) := by
  refine ⟨cbc_resynchronizes cipher s t, cfb8_resynchronizes hs ht, ?_, ?_⟩
  · intro hp hlt
    exact cfb_resynchronizes hs ht hp hlt
  · intro k
    exact ⟨cbc_confines hs k, cfb8_confines hs k, fun hlt => cfb_confines hs hlt k⟩

/-- DES in CFB, three bytes into a block, needs the other five and eight more, and a damaged byte
that comes next but one in the block after it is felt up to the end of the following block. -/
theorem decryption_resynchronizes_des :
    let cipher := Des.cipherOf (Des.roundKeys [1, 2, 3, 4, 5, 6, 7, 8])
    let s : ChainState := ⟨List.replicate 8 0, [], 3⟩
    let t : ChainState := ⟨List.replicate 8 255, [], 3⟩
    s.register.length = cipher.blockSize ∧ t.register.length = cipher.blockSize ∧
      Resynchronizes cipher .cfb 13 s t ∧ Confines cipher .cfb s 6 6 21 := by
  intro cipher s t
  have hs : s.register.length = cipher.blockSize := rfl
  have ht : t.register.length = cipher.blockSize := rfl
  obtain ⟨-, -, hcfb, hdamaged⟩ := decryption_resynchronizes cipher hs ht
  have hconfines := (hdamaged 6).2.2 (by decide)
  have hsize : cipher.blockSize = 8 := rfl
  have hposition : s.position = 3 := rfl
  rw [hsize, hposition] at hconfines
  exact ⟨hs, ht, hcfb rfl (by decide), hconfines⟩

end SymmetricCipher
