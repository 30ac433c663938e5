import SymmetricCipher.Proofs.OneShot

/-!
# Machines step by step

The machines of this library, over any block cipher and with no key or algorithm behind them. A
machine starts for an initialization vector of one block and then takes steps: data through one of
its directions, or a restart. `Kind.Runs` is what every step preserves, and so what holds of every
machine that can be reached.

From there on data may come in pieces: `apply_flatten` says that pieces give what they give in a
single call, and leave the same machine. The modes of this library go through a piece byte by byte.
CTR and OFB may as well mask as much of it at once as the keystream block at hand still covers, and
`ctr_eq_maskChunks` and `ofb_eq_maskChunks` say so.
-/

namespace SymmetricCipher

/-! ## Keystream blocks -/

section chunks

variable (refill : ChainState → ChainState) (mask : ChainState → Bytes) (n : Nat)

/-- The state with a keystream block at hand: a new one is made where the last one is used up. -/
def ChainState.stocked (s : ChainState) : ChainState := if s.position = 0 then refill s else s

/-- Masks one byte with the keystream block at hand. -/
def maskStep (s : ChainState) (byte : UInt8) : UInt8 × ChainState :=
  (byte ^^^ (mask (s.stocked refill)).getD s.position 0,
    { s.stocked refill with position := (s.position + 1) % n })

/-- Masks data a chunk at a time: as much of it as the keystream block at hand still covers. -/
def maskChunks (s : ChainState) (data : Bytes) : Bytes × ChainState :=
  let count := min (n - s.position) data.length
  if count = 0 then ([], s)
  else
    let rest := maskChunks { s.stocked refill with position := (s.position + count) % n }
      (data.drop count)
    (Bytes.xor (data.take count) ((mask (s.stocked refill)).drop s.position) ++ rest.1, rest.2)
termination_by data.length
decreasing_by
  rw [List.length_drop]
  omega

variable {refill mask n} (hmask : ∀ s p, mask { s with position := p } = mask s)

include hmask

/-- A chunk that the keystream block at hand covers is masked at once. -/
lemma mapState_maskStep {s : ChainState} {data : Bytes} (hdata : data ≠ [])
    (hcovers : s.position + data.length ≤ n) (hblock : (mask (s.stocked refill)).length = n) :
    mapState (maskStep refill mask n) s data =
      (Bytes.xor data ((mask (s.stocked refill)).drop s.position),
        { s.stocked refill with position := (s.position + data.length) % n }) := by
  induction data generalizing s with
  | nil => exact absurd rfl hdata
  | cons byte data ih =>
    rw [List.length_cons] at hcovers
    have hlt : s.position < (mask (s.stocked refill)).length := by omega
    have hdrop : (mask (s.stocked refill)).drop s.position =
        (mask (s.stocked refill)).getD s.position 0 ::
          (mask (s.stocked refill)).drop (s.position + 1) := by
      rw [List.drop_eq_getElem_cons hlt, List.getElem_eq_getD 0]
    rw [mapState_cons, hdrop]
    by_cases hrest : data = []
    · subst hrest
      rfl
    · -- the block at hand is not used up yet, and serves the rest of the chunk
      have hpos : 0 < data.length := List.length_pos_iff.2 hrest
      have hnext : (maskStep refill mask n s byte).2 =
          { s.stocked refill with position := s.position + 1 } := by
        rw [maskStep, Nat.mod_eq_of_lt (by omega)]
      have hstocked : ({ s.stocked refill with position := s.position + 1 } : ChainState).stocked
          refill = { s.stocked refill with position := s.position + 1 } :=
        if_neg (Nat.succ_ne_zero _)
      rw [hnext, ih hrest (by show s.position + 1 + _ ≤ _; omega) (by rw [hstocked, hmask, hblock]),
        hstocked, hmask]
      simp only [maskStep, List.length_cons, Prod.mk.injEq]
      refine ⟨rfl, ?_⟩
      rw [show s.position + 1 + data.length = s.position + (data.length + 1) by omega]

/-- Masking byte by byte is masking chunk by chunk, in states with a property that gives them a
whole keystream block. -/
lemma mapState_maskStep_eq_maskChunks {P : ChainState → Prop}
    (hP : ∀ s, P s → s.position < n ∧ (mask (s.stocked refill)).length = n ∧
      ∀ p < n, P { s.stocked refill with position := p }) {s : ChainState} (hs : P s)
    (data : Bytes) :
    mapState (maskStep refill mask n) s data = maskChunks refill mask n s data := by
  fun_induction maskChunks refill mask n s data with
  | case1 s data count hcount =>
    have hlt := (hP s hs).1
    have hlen : data.length = 0 := by omega
    rw [List.eq_nil_of_length_eq_zero hlen]
    rfl
  | case2 s data count hcount rest ih =>
    obtain ⟨hlt, hblock, hkeep⟩ := hP s hs
    have hlen : (data.take count).length = count := by
      rw [List.length_take]
      omega
    have hne : data.take count ≠ [] := fun h => hcount (by rw [← hlen, h]; rfl)
    have hchunk := mapState_maskStep hmask hne (by rw [hlen]; omega) hblock
    rw [hlen] at hchunk
    have hrest := ih (hkeep _ (Nat.mod_lt _ (by omega)))
    calc mapState (maskStep refill mask n) s data
        = mapState (maskStep refill mask n) s (data.take count ++ data.drop count) := by
          rw [List.take_append_drop]
      _ = (Bytes.xor (data.take count) ((mask (s.stocked refill)).drop s.position) ++ rest.1,
          rest.2) := by rw [mapState_append, hchunk, hrest]

end chunks

/-- The next keystream block of CTR: the encrypted counter, which moves on. -/
def ctrRefill (cipher : BlockCipher) (s : ChainState) : ChainState :=
  { s with carry := cipher.encryptBlock s.register, register := Bytes.increment s.register }

/-- The next keystream block of OFB: the encrypted register. -/
def ofbRefill (cipher : BlockCipher) (s : ChainState) : ChainState :=
  { s with register := cipher.encryptBlock s.register }

/-- CTR masks bytes, and refills by counting. -/
lemma ctrStep_eq_maskStep (cipher : BlockCipher) :
    ctrStep cipher = maskStep (ctrRefill cipher) (·.carry) cipher.blockSize := by
  funext s byte
  rw [ctrStep, maskStep, ChainState.stocked]
  split <;> rfl

/-- OFB masks bytes, and refills by encryption of its register. -/
lemma ofbStep_eq_maskStep (cipher : BlockCipher) :
    ofbStep cipher = maskStep (ofbRefill cipher) (·.register) cipher.blockSize := by
  funext s byte
  rw [ofbStep, maskStep, ChainState.stocked]
  split <;> rfl

/-- CTR goes through the data keystream block by keystream block. -/
theorem ctr_eq_maskChunks (cipher : BlockCipher) {s : ChainState}
    (hp : s.position < cipher.blockSize)
    (hs : s.register.length = cipher.blockSize)
    (hc : s.position ≠ 0 → s.carry.length = cipher.blockSize) (data : Bytes) :
    ctr cipher s data = maskChunks (ctrRefill cipher) (·.carry) cipher.blockSize s data := by
  rw [ctr, ctrStep_eq_maskStep]
  refine mapState_maskStep_eq_maskChunks (fun _ _ => rfl)
    (P := fun s => s.position < cipher.blockSize ∧ s.register.length = cipher.blockSize ∧
      (s.position ≠ 0 → s.carry.length = cipher.blockSize)) ?_ ⟨hp, hs, hc⟩ data
  rintro s ⟨hp, hs, hc⟩
  rw [ChainState.stocked]
  split
  · have hblock := cipher.length_encryptBlock _ hs
    exact ⟨hp, hblock, fun p hlt => ⟨hlt, (Bytes.length_increment _).trans hs, fun _ => hblock⟩⟩
  · rename_i hne
    exact ⟨hp, hc hne, fun p hlt => ⟨hlt, hs, fun _ => hc hne⟩⟩

/-- OFB goes through the data keystream block by keystream block. -/
theorem ofb_eq_maskChunks (cipher : BlockCipher) {s : ChainState}
    (hp : s.position < cipher.blockSize)
    (hs : s.register.length = cipher.blockSize) (data : Bytes) :
    ofb cipher s data = maskChunks (ofbRefill cipher) (·.register) cipher.blockSize s data := by
  rw [ofb, ofbStep_eq_maskStep]
  refine mapState_maskStep_eq_maskChunks (fun _ _ => rfl)
    (P := fun s => s.position < cipher.blockSize ∧ s.register.length = cipher.blockSize) ?_
    ⟨hp, hs⟩ data
  rintro s ⟨hp, hs⟩
  rw [ChainState.stocked]
  split
  · have hblock := cipher.length_encryptBlock _ hs
    exact ⟨hp, hblock, fun p hlt => ⟨hlt, hblock⟩⟩
  · exact ⟨hp, hs, fun p hlt => ⟨hlt, hs⟩⟩

/-! ## Calls without data -/

/-- There is no block in no data. -/
lemma mapBlocks_nil {σ : Type} (step : σ → Bytes → Bytes × σ) (n : Nat) (s : σ) :
    mapBlocks step n s [] = ([], s) := by
  simp only [mapBlocks, Bytes.wholeBlocks, Bytes.partialBlock, List.length_nil, Nat.zero_div,
    Bytes.firstBlocks, mapState_nil, List.flatten_nil, List.drop_nil, List.append_nil]

/-- No data leaves the state as it is. -/
lemma runMode_nil {mode : Mode} (hm : mode ≠ .stream) (cipher : BlockCipher)
    (direction : Direction) (s : ChainState) :
    runMode mode cipher direction s [] = .ok ([], s) := by
  cases mode with
  | ecb => exact congrArg Except.ok (mapBlocks_nil ..)
  | cbc => cases direction <;> exact congrArg Except.ok (mapBlocks_nil ..)
  | stream => exact absurd rfl hm
  | _ => rfl

namespace Duplex

/-- The state of a direction is in place already. -/
lemma setState_state (d : Duplex) (direction : Direction) :
    d.setState direction (d.state direction) = d := by
  cases direction <;> rfl

/-- No data is answered by none, and leaves the duplex as it is. -/
lemma apply_nil {d : Duplex} (hm : d.mode ≠ .stream) {cipher : BlockCipher}
    {direction : Direction} : d.apply cipher direction [] = .ok ([], d) :=
  apply_eq_ok_iff.2
    ⟨fun _ => Nat.zero_mod _, _, runMode_nil hm .., (d.setState_state direction).symm⟩

end Duplex

/-! ## Steps of a machine -/

namespace Machine

/-- What a machine of this library runs, apart from where its streams stand. -/
inductive Kind where
  | chained (cipher : BlockCipher) (mode : Mode)
  | layered (ciphers : TripleDes.Layers BlockCipher)
  | keystream (fresh : Rc4)

namespace Kind

/-- The machine at the start of its stream. -/
def start : Kind → Bytes → Machine
  | chained cipher mode, iv => .chained cipher (.start mode iv)
  | layered ciphers, iv => .layered ciphers ⟨.start .cbc iv, .start .cbc iv, .start .cbc iv⟩
  | keystream fresh, _ => .keystream (.start fresh)

/-- An initialization vector of one block. -/
def TakesIv : Kind → Bytes → Prop
  | chained cipher _, iv => cipher.blockSize = iv.length
  | layered ciphers, iv => ciphers.first.blockSize = iv.length ∧
      ciphers.second.blockSize = iv.length ∧ ciphers.third.blockSize = iv.length
  | keystream _, _ => True

/-- Data that the machine takes in one call. -/
def Takes : Kind → Bytes → Prop
  | chained cipher mode, data => mode.Aligned cipher.blockSize data
  | layered ciphers, data => Mode.cbc.Aligned ciphers.first.blockSize data
  | keystream _, _ => True

/-- A machine of the kind, with registers of one block. -/
inductive Runs : Kind → Machine → Prop where
  | chained {cipher : BlockCipher} {duplex : Duplex} (fits : duplex.Fits cipher.blockSize) :
      Runs (.chained cipher duplex.mode) (.chained cipher duplex)
  | layered {ciphers : TripleDes.Layers BlockCipher} {duplexes : TripleDes.Layers Duplex}
      (second : ciphers.second.blockSize = ciphers.first.blockSize)
      (third : ciphers.third.blockSize = ciphers.first.blockSize)
      (chained : ciphers.Chained duplexes) : Runs (.layered ciphers) (.layered ciphers duplexes)
  | keystream {fresh : Rc4} {duplex : StreamDuplex} (keyed : duplex.fresh = fresh) :
      Runs (.keystream fresh) (.keystream duplex)

end Kind

/-- What is asked of a machine. -/
inductive Step where
  | process (direction : Direction) (data : Bytes)
  | restart (iv : Bytes)

/-- Answers a step. There is no data to a restart. -/
def perform (m : Machine) : Step → Except CipherError Bytes × Machine
  | .process direction data => m.apply direction data
  | .restart iv =>
    match m.restart iv with
    | .error e => (.error e, m)
    | .ok m => (.ok [], m)

/-- Answers steps one after the other. -/
def run (m : Machine) (steps : List Step) : List (Except CipherError Bytes) × Machine :=
  mapState perform m steps

variable {kind : Kind} {m m' : Machine} {iv : Bytes} {direction : Direction} {data : Bytes}

/-- A start with a vector that the kind takes is one of its runs. -/
lemma Kind.runs_start (h : kind.TakesIv iv) : kind.Runs (kind.start iv) := by
  cases kind with
  | chained cipher mode =>
    refine @Runs.chained cipher (.start mode iv) ?_
    rw [show cipher.blockSize = iv.length from h]
    exact Duplex.fits_start mode iv
  | layered ciphers =>
    obtain ⟨h1, h2, h3⟩ := h
    exact .layered (h2.trans h1.symm) (h3.trans h1.symm) (.start h1 h2 h3)
  | keystream fresh => exact .keystream rfl

/-- A call that is refused changes nothing. -/
lemma eq_of_apply_error (h : kind.Runs m) {e : CipherError}
    (he : m.apply direction data = (.error e, m')) : m' = m := by
  cases h with
  | chained =>
    rw [apply] at he
    split at he <;> cases he
    rfl
  | layered =>
    rw [apply] at he
    split at he <;> cases he
    rfl
  | keystream => cases he

namespace Kind.Runs

/-- A machine goes back to its start, for any initialization vector. -/
lemma restart (h : kind.Runs m) (iv : Bytes) : m.restart iv = .ok (kind.start iv) := by
  cases h with
  | chained => rfl
  | layered second third chained => exact chained.restart iv
  | keystream keyed =>
    subst keyed
    rfl

/-- A machine takes aligned data, keeps its length, and stays of its kind. -/
lemma apply_ok (h : kind.Runs m) (hs : ∀ cipher, kind ≠ .chained cipher .stream)
    (direction : Direction) (ha : kind.Takes data) :
    ∃ out m', m.apply direction data = (.ok out, m') ∧ out.length = data.length ∧
      kind.Runs m' := by
  cases h with
  | @chained cipher duplex fits =>
    have hm : duplex.mode ≠ .stream := fun hm => hs cipher (by rw [hm])
    obtain ⟨out, duplex', hrun, hlen, fits', hmode⟩ := duplex.apply_ok hm fits direction ha
    refine ⟨out, _, apply_chained_iff.2 ⟨duplex', hrun, rfl⟩, hlen, ?_⟩
    rw [← hmode]
    exact .chained fits'
  | layered second third chained =>
    obtain ⟨out, duplexes', hrun, hlen, chained'⟩ :=
      applyLayers_ok chained ⟨rfl, second, third⟩ direction ha
    exact ⟨out, _, apply_layered_iff.2 ⟨duplexes', hrun, rfl⟩, hlen,
      .layered second third chained'⟩
  | keystream keyed =>
    cases direction with
    | encrypt => exact ⟨_, _, rfl, length_mapState .., .keystream keyed⟩
    | decrypt => exact ⟨_, _, rfl, length_mapState .., .keystream keyed⟩

/-- Data that a machine took was aligned, and its mode no stream. -/
lemma takes_of_apply (h : kind.Runs m) {out : Bytes}
    (hrun : m.apply direction data = (.ok out, m')) :
    kind.Takes data ∧ ∀ cipher, kind ≠ .chained cipher .stream := by
  cases h with
  | @chained cipher duplex fits =>
    obtain ⟨duplex', happly, -⟩ := apply_chained_iff.1 hrun
    obtain ⟨ha, s, hmode, -⟩ := Duplex.apply_eq_ok_iff.1 happly
    refine ⟨ha, fun cipher' hc => ?_⟩
    rw [(Kind.chained.inj hc).2] at hmode
    cases hmode
  | @layered ciphers duplexes second third chained =>
    refine ⟨?_, nofun⟩
    obtain ⟨duplexes', happly, -⟩ := apply_layered_iff.1 hrun
    cases direction with
    | encrypt =>
      obtain ⟨a, b, hfirst, -⟩ := applyLayers_encrypt_iff.1 happly
      have ha := (Duplex.apply_eq_ok_iff.1 hfirst).1
      rwa [chained.mode_first] at ha
    | decrypt =>
      obtain ⟨a, b, hthird, -⟩ := applyLayers_decrypt_iff.1 happly
      have ha := (Duplex.apply_eq_ok_iff.1 hthird).1
      rwa [chained.mode_third, third] at ha
  | keystream => exact ⟨trivial, nofun⟩

/-- Every call leaves a machine of the same kind. -/
lemma apply (h : kind.Runs m) (direction : Direction) (data : Bytes) :
    kind.Runs (m.apply direction data).2 := by
  cases hrun : m.apply direction data with
  | mk answer m' =>
    cases answer with
    | error e => rwa [eq_of_apply_error h hrun]
    | ok out =>
      obtain ⟨ha, hs⟩ := h.takes_of_apply hrun
      obtain ⟨out', m'', hrun', -, h'⟩ := h.apply_ok hs direction ha
      rw [hrun] at hrun'
      cases hrun'
      exact h'

/-- Every step leaves a machine of the same kind, a restart for an initialization vector of one
block among them. -/
lemma perform (h : kind.Runs m) {step : Step} (hstep : ∀ iv, step = .restart iv → kind.TakesIv iv) :
    kind.Runs (m.perform step).2 := by
  cases step with
  | process direction data => exact h.apply direction data
  | restart iv =>
    rw [Machine.perform, h.restart iv]
    exact runs_start (hstep iv rfl)

/-- Every run of steps leaves a machine of the same kind. -/
lemma run (h : kind.Runs m) {steps : List Step}
    (hsteps : ∀ iv, .restart iv ∈ steps → kind.TakesIv iv) : kind.Runs (m.run steps).2 := by
  induction steps generalizing m with
  | nil => exact h
  | cons step steps ih =>
    rw [Machine.run, mapState_cons]
    refine ih (h.perform fun iv e => hsteps iv ?_) fun iv hmem => hsteps iv ?_
    · rw [e]
      exact List.mem_cons_self
    · exact List.mem_cons_of_mem step hmem

/-- No data is answered by none, and leaves the machine as it is. -/
lemma apply_nil (h : kind.Runs m) (hs : ∀ cipher, kind ≠ .chained cipher .stream)
    (direction : Direction) : m.apply direction [] = (.ok [], m) := by
  cases h with
  | @chained cipher duplex fits =>
    have hm : duplex.mode ≠ .stream := fun hm => hs cipher (by rw [hm])
    exact apply_chained_iff.2 ⟨duplex, Duplex.apply_nil hm, rfl⟩
  | @layered ciphers duplexes _ _ chained =>
    refine apply_layered_iff.2 ⟨duplexes, ?_, rfl⟩
    have layer {d : Duplex} (hm : d.mode = .cbc) (cipher : BlockCipher) (direction : Direction) :
        d.apply cipher direction [] = .ok ([], d) :=
      Duplex.apply_nil (by rw [hm]; exact nofun)
    cases direction with
    | encrypt =>
      exact applyLayers_encrypt_iff.2 ⟨[], [], layer chained.mode_first _ _,
        layer chained.mode_second _ _, layer chained.mode_third _ _⟩
    | decrypt =>
      exact applyLayers_decrypt_iff.2 ⟨[], [], layer chained.mode_third _ _,
        layer chained.mode_second _ _, layer chained.mode_first _ _⟩
  | keystream => cases direction <;> rfl

/-- Two calls one after the other are one call on all their data. -/
lemma apply_trans (h : kind.Runs m) {m'' : Machine} {x y out out' : Bytes}
    (hx : m.apply direction x = (.ok out, m')) (hy : m'.apply direction y = (.ok out', m'')) :
    m.apply direction (x ++ y) = (.ok (out ++ out'), m'') :=
  Machine.apply_trans (by cases h <;> exact nofun) hx hy

/-- Inputs that come one after the other are taken like a single one. -/
lemma apply_flatten (h : kind.Runs m) (hs : ∀ cipher, kind ≠ .chained cipher .stream)
    (direction : Direction) {inputs : List Bytes} (hinputs : ∀ x ∈ inputs, kind.Takes x) :
    ∃ (outs : List Bytes) (m' : Machine),
      mapState (fun m x => m.apply direction x) m inputs = (outs.map .ok, m') ∧
      m.apply direction inputs.flatten = (.ok outs.flatten, m') ∧
      outs.map List.length = inputs.map List.length := by
  induction inputs generalizing m with
  | nil => exact ⟨[], m, rfl, h.apply_nil hs direction, rfl⟩
  | cons x inputs ih =>
    obtain ⟨out, m', hrun, hlen, h'⟩ := h.apply_ok hs direction (hinputs x List.mem_cons_self)
    obtain ⟨outs, m'', hruns, hflat, hlens⟩ :=
      ih h' fun y hy => hinputs y (List.mem_cons_of_mem x hy)
    refine ⟨out :: outs, m'', ?_, ?_, ?_⟩
    · rw [mapState_cons, hrun, hruns]
      rfl
    · exact h.apply_trans hrun hflat
    · rw [List.map_cons, List.map_cons, hlen, hlens]

end Kind.Runs

/-- From every state that a machine can reach, inputs that come one after the other give what a
single call on all of them gives, piece by piece of the same length, and leave the same machine.
Only a block cipher in STREAM mode gives nothing, and the block modes have to be cut between
blocks. -/
theorem apply_pieces_eq_apply_flatten (hs : ∀ cipher, kind ≠ .chained cipher .stream)
    (hiv : kind.TakesIv iv) {steps : List Step}
    (hsteps : ∀ iv, .restart iv ∈ steps → kind.TakesIv iv) (direction : Direction)
    {inputs : List Bytes} (hinputs : ∀ x ∈ inputs, kind.Takes x) :
    ∃ (outs : List Bytes) (m' : Machine),
      mapState (fun m x => m.apply direction x) ((kind.start iv).run steps).2 inputs =
        (outs.map .ok, m') ∧
      ((kind.start iv).run steps).2.apply direction inputs.flatten = (.ok outs.flatten, m') ∧
      outs.map List.length = inputs.map List.length :=
  ((Kind.runs_start hiv).run hsteps).apply_flatten hs direction hinputs

/-- DES in CTR. -/
def Kind.desCtr : Kind :=
  .chained (Des.cipherOf (Des.roundKeys [0x13, 0x34, 0x57, 0x79, 0x9b, 0xbc, 0xdf, 0xf1])) .ctr

/-- Steps after which encryption stands in the middle of a block. -/
def midBlockSteps : List Step :=
  [.process .decrypt [1, 2], .restart (List.replicate 8 0), .process .encrypt [3, 4, 5]]

/-- DES in CTR, in the middle of a block after a restart, takes an input across two blocks in three
pieces, one of them empty. -/
theorem apply_pieces_eq_apply_flatten_des :
    (∀ cipher, Kind.desCtr ≠ .chained cipher .stream) ∧
    Kind.desCtr.TakesIv (List.replicate 8 7) ∧
    (∀ iv, .restart iv ∈ midBlockSteps → Kind.desCtr.TakesIv iv) ∧
    (∀ x ∈ [[6, 7, 8, 9, 10], [], [11, 12, 13, 14]], Kind.desCtr.Takes x) ∧
    ∃ (outs : List Bytes) (m' : Machine),
      mapState (fun m x => m.apply .encrypt x)
        ((Kind.desCtr.start (List.replicate 8 7)).run midBlockSteps).2
        [[6, 7, 8, 9, 10], [], [11, 12, 13, 14]] = (outs.map .ok, m') ∧
      ((Kind.desCtr.start (List.replicate 8 7)).run midBlockSteps).2.apply .encrypt
        [6, 7, 8, 9, 10, 11, 12, 13, 14] = (.ok outs.flatten, m') ∧
      outs.map List.length = [5, 0, 4] := by
  have hs : ∀ cipher, Kind.desCtr ≠ .chained cipher .stream := by
    rintro cipher ⟨⟩
  have hiv : Kind.desCtr.TakesIv (List.replicate 8 7) := rfl
  have hsteps : ∀ iv, .restart iv ∈ midBlockSteps → Kind.desCtr.TakesIv iv := by
    intro iv hmem
    rcases hmem with _ | ⟨_, _ | ⟨_, _ | ⟨_, ⟨⟩⟩⟩⟩
    rfl
  have hinputs : ∀ x ∈ [[6, 7, 8, 9, 10], [], [11, 12, 13, 14]], Kind.desCtr.Takes x :=
    fun _ _ => nofun
  exact ⟨hs, hiv, hsteps, hinputs, apply_pieces_eq_apply_flatten hs hiv hsteps .encrypt hinputs⟩

end Machine

end SymmetricCipher
