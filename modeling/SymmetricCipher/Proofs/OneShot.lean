import SymmetricCipher.Context.Machine
import SymmetricCipher.Proofs.Chaining

/-!
# Machines and one-shot transforms

`Algorithm.oneShot` is what a key and an initialization vector make of data in a single pass, with
nothing kept from any call before. A machine over the ciphers of this library, or over ciphers that
agree with them, carries its chaining states from call to call instead. This module shows that the
two give the same: `Machine.Continues` says that a machine stands behind the data of a log, and
`Machine.Keyed.apply` that every call keeps it so, with the data of the call added to the log.
-/

namespace SymmetricCipher

/-! ## One-shot transforms -/

/-- Three CBC layers, each in a pass of its own from the same initialization vector. -/
def TripleDes.Layers.oneShot (ciphers : TripleDes.Layers BlockCipher) (iv : Bytes) :
    Direction → Bytes → Bytes
  | .encrypt, data =>
    let data := (cbc ciphers.first .encrypt (.start iv) data).1
    let data := (cbc ciphers.second .decrypt (.start iv) data).1
    (cbc ciphers.third .encrypt (.start iv) data).1
  | .decrypt, data =>
    let data := (cbc ciphers.third .decrypt (.start iv) data).1
    let data := (cbc ciphers.second .encrypt (.start iv) data).1
    (cbc ciphers.first .decrypt (.start iv) data).1

/-- What a key and an initialization vector make of data in a single pass. -/
def Algorithm.oneShot (algorithm : Algorithm) (mode : Mode) (key iv : Bytes) (direction : Direction)
    (data : Bytes) : Except CipherError Bytes :=
  match algorithm, mode with
  | .tripleDesInnerCbc, _ =>
    (algorithm.innerLayers key).map fun ciphers => ciphers.oneShot iv direction data
  | _, .stream => (algorithm.keystream key).map fun fresh => (fresh.apply data).1
  | _, _ =>
    match algorithm.blockCipher key with
    | .error e => .error e
    | .ok cipher => (runMode mode cipher direction (.start iv) data).map (·.1)

/-- Under a key of a block cipher a single pass is one run of the mode. -/
lemma Algorithm.oneShot_of_blockCipher {algorithm : Algorithm} {mode : Mode} {key : Bytes}
    {cipher : BlockCipher} (h : algorithm.blockCipher key = .ok cipher) (hm : mode ≠ .stream)
    (iv : Bytes) (direction : Direction) (data : Bytes) :
    algorithm.oneShot mode key iv direction data =
      (runMode mode cipher direction (.start iv) data).map (·.1) := by
  cases algorithm with
  | tripleDesInnerCbc => cases h
  | rc4 => cases h
  | _ => cases mode <;> first | exact absurd rfl hm | simp only [oneShot, h]

/-- Under a key of RC4 it is the keystream from its start, in both directions. -/
lemma Algorithm.oneShot_rc4 {key : Bytes} {fresh : Rc4}
    (h : Algorithm.rc4.keystream key = .ok fresh) (iv : Bytes) (direction : Direction)
    (data : Bytes) : Algorithm.rc4.oneShot .stream key iv direction data =
      .ok (fresh.apply data).1 := by
  show (Algorithm.rc4.keystream key).map _ = _
  rw [h]
  rfl

/-- What went through each direction since the stream started. -/
abbrev Logs := Direction → Bytes

/-- Nothing went through. -/
def Logs.empty : Logs := fun _ => []

/-- Adds data to the log of a direction. -/
def Logs.append (logs : Logs) (direction : Direction) (data : Bytes) : Logs :=
  fun other => if other = direction then logs direction ++ data else logs other

/-- The log of the direction has the data at its end. -/
@[simp] lemma Logs.append_self (logs : Logs) (direction : Direction) (data : Bytes) :
    logs.append direction data direction = logs direction ++ data :=
  if_pos rfl

/-- The other log stays. -/
lemma Logs.append_of_ne (logs : Logs) {direction other : Direction} (h : other ≠ direction)
    (data : Bytes) : logs.append direction data other = logs other :=
  if_neg h

/-! ## Both directions of a mode -/

namespace Duplex

/-- Both directions hold a register of `n` bytes. -/
def Fits (d : Duplex) (n : Nat) : Prop := ∀ direction, (d.state direction).register.length = n

/-- Both directions start from the initialization vector. -/
@[simp] lemma state_start (mode : Mode) (iv : Bytes) (direction : Direction) :
    (start mode iv).state direction = .start iv := by
  cases direction <;> rfl

/-- Both directions at their start hold the initialization vector. -/
lemma fits_start (mode : Mode) (iv : Bytes) : (start mode iv).Fits iv.length := by
  intro direction
  rw [state_start]
  rfl

/-- The state of a direction is not the mode. -/
@[simp] lemma mode_setState (d : Duplex) (direction : Direction) (s : ChainState) :
    (d.setState direction s).mode = d.mode := by
  cases direction <;> rfl

/-- The state that is set is the state of that direction. -/
@[simp] lemma state_setState_self (d : Duplex) (direction : Direction) (s : ChainState) :
    (d.setState direction s).state direction = s := by
  cases direction <;> rfl

/-- The two directions never touch each other. -/
lemma state_setState_of_ne (d : Duplex) {direction other : Direction} (h : other ≠ direction)
    (s : ChainState) : (d.setState direction s).state other = d.state other := by
  cases direction <;> cases other <;> first | rfl | exact absurd rfl h

/-- The state that is set last counts. -/
@[simp] lemma setState_setState (d : Duplex) (direction : Direction) (s s' : ChainState) :
    (d.setState direction s).setState direction s' = d.setState direction s' := by
  cases direction <;> rfl

/-- A call succeeds exactly on aligned data, and moves the state of its direction. -/
lemma apply_eq_ok_iff {d d' : Duplex} {cipher : BlockCipher} {direction : Direction}
    {data out : Bytes} : d.apply cipher direction data = .ok (out, d') ↔
      d.mode.Aligned cipher.blockSize data ∧
        ∃ s, runMode d.mode cipher direction (d.state direction) data = .ok (out, s) ∧
          d' = d.setState direction s := by
  by_cases ha : d.mode.isBlockMode = true ∧ data.length % cipher.blockSize ≠ 0
  · rw [apply, if_pos ha]
    refine ⟨nofun, fun ⟨h, _⟩ => ?_⟩
    exact absurd (h ha.1) ha.2
  · have haligned : d.mode.Aligned cipher.blockSize data := fun hm =>
      Decidable.byContradiction fun hn => ha ⟨hm, hn⟩
    rw [apply, if_neg ha]
    cases hr : runMode d.mode cipher direction (d.state direction) data with
    | error e => simp
    | ok r =>
      obtain ⟨out', s⟩ := r
      simp only [Except.ok.injEq, Prod.mk.injEq]
      constructor
      · rintro ⟨rfl, rfl⟩
        exact ⟨haligned, s, ⟨rfl, rfl⟩, rfl⟩
      · rintro ⟨-, s', ⟨rfl, rfl⟩, rfl⟩
        exact ⟨rfl, rfl⟩

/-- A call on aligned data succeeds and keeps all lengths. -/
lemma apply_ok {d : Duplex} {cipher : BlockCipher} (hm : d.mode ≠ .stream)
    (hd : d.Fits cipher.blockSize) (direction : Direction) {data : Bytes}
    (ha : d.mode.Aligned cipher.blockSize data) :
    ∃ out d', d.apply cipher direction data = .ok (out, d') ∧ out.length = data.length ∧
      d'.Fits cipher.blockSize ∧ d'.mode = d.mode := by
  obtain ⟨out, s, hrun, -, hlen, hs⟩ :=
    runMode_spec hm (.refl cipher) direction (hd direction) data
  refine ⟨out, d.setState direction s, apply_eq_ok_iff.2 ⟨ha, s, hrun, rfl⟩, hlen, ?_, by simp⟩
  intro other
  by_cases ho : other = direction
  · rw [ho, state_setState_self, hs]
  · rw [state_setState_of_ne d ho, hd other]

/-- A call keeps registers of one block. -/
lemma Fits.apply {d d' : Duplex} {cipher : BlockCipher} (hd : d.Fits cipher.blockSize)
    {direction : Direction} {data out : Bytes}
    (h : d.apply cipher direction data = .ok (out, d')) : d'.Fits cipher.blockSize := by
  obtain ⟨ha, s, hrun, -⟩ := apply_eq_ok_iff.1 h
  have hm : d.mode ≠ .stream := by
    intro hm
    rw [hm] at hrun
    cases hrun
  obtain ⟨out', d'', h', -, hd', -⟩ := d.apply_ok hm hd direction ha
  cases h.symm.trans h'
  exact hd'

/-- Two calls are one call on the data of both. -/
lemma apply_trans {d d' d'' : Duplex} {cipher : BlockCipher} {direction : Direction}
    {x y out out' : Bytes} (h : d.apply cipher direction x = .ok (out, d'))
    (h' : d'.apply cipher direction y = .ok (out', d'')) :
    d.apply cipher direction (x ++ y) = .ok (out ++ out', d'') := by
  obtain ⟨hx, s, hrun, rfl⟩ := apply_eq_ok_iff.1 h
  obtain ⟨hy, s', hrun', rfl⟩ := apply_eq_ok_iff.1 h'
  rw [mode_setState] at hy
  rw [mode_setState, state_setState_self] at hrun'
  exact apply_eq_ok_iff.2 ⟨hx.append hy, s', runMode_append hx hrun hrun', setState_setState ..⟩

/-- A call in one direction is nothing to the other one. -/
lemma apply_other {d d' : Duplex} {cipher : BlockCipher} {direction : Direction} {x out : Bytes}
    (h : d.apply cipher direction x = .ok (out, d')) (other : Direction) (ho : other ≠ direction) :
    d'.mode = d.mode ∧ d'.state other = d.state other := by
  obtain ⟨-, s, -, rfl⟩ := apply_eq_ok_iff.1 h
  exact ⟨mode_setState .., state_setState_of_ne d ho s⟩

/-- The output of a call depends on the mode and on the state of its direction only. -/
lemma exists_apply_of_state_eq {d e d' : Duplex} {cipher : BlockCipher} {direction : Direction}
    {data out : Bytes} (hm : e.mode = d.mode) (hs : e.state direction = d.state direction)
    (h : d.apply cipher direction data = .ok (out, d')) :
    ∃ e', e.apply cipher direction data = .ok (out, e') := by
  obtain ⟨ha, s, hrun, -⟩ := apply_eq_ok_iff.1 h
  rw [← hm] at ha
  rw [← hm, ← hs] at hrun
  exact ⟨_, apply_eq_ok_iff.2 ⟨ha, s, hrun, rfl⟩⟩

/-- A call in CBC at the start of the stream gives what a single pass gives. -/
lemma cbc_eq_of_apply {d d' : Duplex} {cipher : BlockCipher} {direction : Direction}
    {iv data out : Bytes} (hm : d.mode = .cbc) (hs : d.state direction = .start iv)
    (h : d.apply cipher direction data = .ok (out, d')) :
    (cbc cipher direction (.start iv) data).1 = out := by
  obtain ⟨-, s, hrun, -⟩ := apply_eq_ok_iff.1 h
  rw [hm, hs] at hrun
  exact congrArg Prod.fst (Except.ok.inj hrun)

end Duplex

/-! ## Three layers -/

namespace TripleDes.Layers

/-- Each layer runs CBC with registers of one block. -/
structure Chained (ciphers : Layers BlockCipher) (duplexes : Layers Duplex) : Prop where
  mode_first : duplexes.first.mode = .cbc
  mode_second : duplexes.second.mode = .cbc
  mode_third : duplexes.third.mode = .cbc
  fits_first : duplexes.first.Fits ciphers.first.blockSize
  fits_second : duplexes.second.Fits ciphers.second.blockSize
  fits_third : duplexes.third.Fits ciphers.third.blockSize

variable {ciphers : Layers BlockCipher} {duplexes : Layers Duplex} {iv : Bytes}

/-- Layers of CBC that start from a vector of one block of theirs. -/
lemma Chained.start (h1 : ciphers.first.blockSize = iv.length)
    (h2 : ciphers.second.blockSize = iv.length) (h3 : ciphers.third.blockSize = iv.length) :
    ciphers.Chained ⟨.start .cbc iv, .start .cbc iv, .start .cbc iv⟩ :=
  ⟨rfl, rfl, rfl, h1 ▸ Duplex.fits_start .cbc iv, h2 ▸ Duplex.fits_start .cbc iv,
    h3 ▸ Duplex.fits_start .cbc iv⟩

/-- A restart takes all three layers to the start. -/
lemma Chained.restart (h : ciphers.Chained duplexes) (iv : Bytes) :
    (Machine.layered ciphers duplexes).restart iv =
      .ok (.layered ciphers ⟨.start .cbc iv, .start .cbc iv, .start .cbc iv⟩) := by
  rw [Machine.restart, Duplex.reset, Duplex.reset, Duplex.reset, h.mode_first, h.mode_second,
    h.mode_third]

end TripleDes.Layers

/-- The layers are DES, with its blocks of eight bytes. -/
lemma TripleDes.blockSize_layers {algorithm : Algorithm} {key : Bytes}
    {ciphers : Layers BlockCipher} (h : layers algorithm key = .ok ciphers) :
    ciphers.first.blockSize = 8 ∧ ciphers.second.blockSize = 8 ∧ ciphers.third.blockSize = 8 := by
  rw [layers] at h
  split at h
  · cases h
  · cases h
    exact ⟨rfl, rfl, rfl⟩

namespace Machine

/-- Encryption goes through the layers from the first to the third. -/
lemma applyLayers_encrypt_iff {ciphers : TripleDes.Layers BlockCipher}
    {duplexes duplexes' : TripleDes.Layers Duplex} {data out : Bytes} :
    applyLayers ciphers duplexes .encrypt data = .ok (out, duplexes') ↔
      ∃ a b, duplexes.first.apply ciphers.first .encrypt data = .ok (a, duplexes'.first) ∧
        duplexes.second.apply ciphers.second .decrypt a = .ok (b, duplexes'.second) ∧
        duplexes.third.apply ciphers.third .encrypt b = .ok (out, duplexes'.third) := by
  constructor
  · intro h
    simp only [applyLayers, bind, Except.bind, pure, Except.pure] at h
    split at h
    · cases h
    · rename_i r hfirst
      split at h
      · cases h
      · rename_i r' hsecond
        split at h
        · cases h
        · rename_i r'' hthird
          cases h
          exact ⟨r.1, r'.1, hfirst, hsecond, hthird⟩
  · rintro ⟨a, b, hfirst, hsecond, hthird⟩
    simp only [applyLayers, bind, Except.bind, pure, Except.pure, hfirst, hsecond, hthird]

/-- Decryption goes through the layers from the third to the first. -/
lemma applyLayers_decrypt_iff {ciphers : TripleDes.Layers BlockCipher}
    {duplexes duplexes' : TripleDes.Layers Duplex} {data out : Bytes} :
    applyLayers ciphers duplexes .decrypt data = .ok (out, duplexes') ↔
      ∃ a b, duplexes.third.apply ciphers.third .decrypt data = .ok (a, duplexes'.third) ∧
        duplexes.second.apply ciphers.second .encrypt a = .ok (b, duplexes'.second) ∧
        duplexes.first.apply ciphers.first .decrypt b = .ok (out, duplexes'.first) := by
  constructor
  · intro h
    simp only [applyLayers, bind, Except.bind, pure, Except.pure] at h
    split at h
    · cases h
    · rename_i r hthird
      split at h
      · cases h
      · rename_i r' hsecond
        split at h
        · cases h
        · rename_i r'' hfirst
          cases h
          exact ⟨r.1, r'.1, hthird, hsecond, hfirst⟩
  · rintro ⟨a, b, hthird, hsecond, hfirst⟩
    simp only [applyLayers, bind, Except.bind, pure, Except.pure, hfirst, hsecond, hthird]

/-- Layers at their start make a single pass. -/
lemma oneShot_of_applyLayers {ciphers : TripleDes.Layers BlockCipher}
    {duplexes' : TripleDes.Layers Duplex} {direction : Direction} {iv data out : Bytes}
    (h : applyLayers ciphers ⟨.start .cbc iv, .start .cbc iv, .start .cbc iv⟩ direction data =
      .ok (out, duplexes')) : ciphers.oneShot iv direction data = out := by
  have pass {cipher : BlockCipher} {direction : Direction} {x y : Bytes} {d : Duplex}
      (h : (Duplex.start .cbc iv).apply cipher direction x = .ok (y, d)) :
      (cbc cipher direction (.start iv) x).1 = y :=
    Duplex.cbc_eq_of_apply rfl (Duplex.state_start ..) h
  cases direction with
  | encrypt =>
    obtain ⟨a, b, e1, e2, e3⟩ := applyLayers_encrypt_iff.1 h
    rw [TripleDes.Layers.oneShot, pass e1, pass e2, pass e3]
  | decrypt =>
    obtain ⟨a, b, e3, e2, e1⟩ := applyLayers_decrypt_iff.1 h
    rw [TripleDes.Layers.oneShot, pass e3, pass e2, pass e1]

/-- Layers take whole blocks, and keep all lengths. -/
lemma applyLayers_ok {ciphers : TripleDes.Layers BlockCipher} {duplexes : TripleDes.Layers Duplex}
    (hc : ciphers.Chained duplexes) {n : Nat}
    (hn : ciphers.first.blockSize = n ∧ ciphers.second.blockSize = n ∧ ciphers.third.blockSize = n)
    (direction : Direction) {data : Bytes} (ha : Mode.cbc.Aligned n data) :
    ∃ out duplexes', applyLayers ciphers duplexes direction data = .ok (out, duplexes') ∧
      out.length = data.length ∧ ciphers.Chained duplexes' := by
  obtain ⟨h1, h2, h3⟩ := hn
  -- what any layer does to data of whole blocks
  have layer {d : Duplex} {c : BlockCipher} (hm : d.mode = .cbc) (hd : d.Fits c.blockSize)
      (hs : c.blockSize = n) (direction : Direction) {x : Bytes} (hx : Mode.cbc.Aligned n x) :
      ∃ out d', d.apply c direction x = .ok (out, d') ∧ out.length = x.length ∧
        d'.Fits c.blockSize ∧ d'.mode = .cbc ∧ Mode.cbc.Aligned n out := by
    obtain ⟨out, d', h, hlen, hf, hm'⟩ :=
      d.apply_ok (by rw [hm]; exact nofun) hd direction (by rw [hm, hs]; exact hx)
    exact ⟨out, d', h, hlen, hf, hm'.trans hm, hx.of_length_eq hlen⟩
  cases direction with
  | encrypt =>
    obtain ⟨a, first, e1, l1, f1, m1, ha⟩ := layer hc.mode_first hc.fits_first h1 .encrypt ha
    obtain ⟨b, second, e2, l2, f2, m2, hb⟩ := layer hc.mode_second hc.fits_second h2 .decrypt ha
    obtain ⟨out, third, e3, l3, f3, m3, -⟩ := layer hc.mode_third hc.fits_third h3 .encrypt hb
    refine ⟨out, ⟨first, second, third⟩, applyLayers_encrypt_iff.2 ⟨a, b, e1, e2, e3⟩, ?_,
      m1, m2, m3, f1, f2, f3⟩
    rw [l3, l2, l1]
  | decrypt =>
    obtain ⟨a, third, e3, l3, f3, m3, ha⟩ := layer hc.mode_third hc.fits_third h3 .decrypt ha
    obtain ⟨b, second, e2, l2, f2, m2, hb⟩ := layer hc.mode_second hc.fits_second h2 .encrypt ha
    obtain ⟨out, first, e1, l1, f1, m1, -⟩ := layer hc.mode_first hc.fits_first h1 .decrypt hb
    refine ⟨out, ⟨first, second, third⟩, applyLayers_decrypt_iff.2 ⟨a, b, e3, e2, e1⟩, ?_,
      m1, m2, m3, f1, f2, f3⟩
    rw [l1, l2, l3]

/-- Two calls of the layers are one call on the data of both. -/
lemma applyLayers_trans {ciphers : TripleDes.Layers BlockCipher}
    {d d' d'' : TripleDes.Layers Duplex} {direction : Direction} {x y out out' : Bytes}
    (h : applyLayers ciphers d direction x = .ok (out, d'))
    (h' : applyLayers ciphers d' direction y = .ok (out', d'')) :
    applyLayers ciphers d direction (x ++ y) = .ok (out ++ out', d'') := by
  cases direction with
  | encrypt =>
    obtain ⟨a, b, e1, e2, e3⟩ := applyLayers_encrypt_iff.1 h
    obtain ⟨a', b', e1', e2', e3'⟩ := applyLayers_encrypt_iff.1 h'
    exact applyLayers_encrypt_iff.2 ⟨a ++ a', b ++ b', Duplex.apply_trans e1 e1',
      Duplex.apply_trans e2 e2', Duplex.apply_trans e3 e3'⟩
  | decrypt =>
    obtain ⟨a, b, e3, e2, e1⟩ := applyLayers_decrypt_iff.1 h
    obtain ⟨a', b', e3', e2', e1'⟩ := applyLayers_decrypt_iff.1 h'
    exact applyLayers_decrypt_iff.2 ⟨a ++ a', b ++ b', Duplex.apply_trans e3 e3',
      Duplex.apply_trans e2 e2', Duplex.apply_trans e1 e1'⟩

/-- The layers cross the directions of their middle one, and still a call in one direction leaves
the output of the other one as it is. -/
lemma applyLayers_other {ciphers : TripleDes.Layers BlockCipher} {d d' e : TripleDes.Layers Duplex}
    {direction other : Direction} {x y out out' : Bytes} (ho : other ≠ direction)
    (h : applyLayers ciphers d direction x = .ok (out, d'))
    (h' : applyLayers ciphers d other y = .ok (out', e)) :
    ∃ e', applyLayers ciphers d' other y = .ok (out', e') := by
  cases direction with
  | encrypt =>
    cases other with
    | encrypt => exact absurd rfl ho
    | decrypt =>
      obtain ⟨a, b, e1, e2, e3⟩ := applyLayers_encrypt_iff.1 h
      obtain ⟨a', b', g3, g2, g1⟩ := applyLayers_decrypt_iff.1 h'
      -- the middle layer decrypts for the one call and encrypts for the other
      obtain ⟨m1, s1⟩ := Duplex.apply_other e1 .decrypt nofun
      obtain ⟨m2, s2⟩ := Duplex.apply_other e2 .encrypt nofun
      obtain ⟨m3, s3⟩ := Duplex.apply_other e3 .decrypt nofun
      obtain ⟨third, k3⟩ := Duplex.exists_apply_of_state_eq m3 s3 g3
      obtain ⟨second, k2⟩ := Duplex.exists_apply_of_state_eq m2 s2 g2
      obtain ⟨first, k1⟩ := Duplex.exists_apply_of_state_eq m1 s1 g1
      exact ⟨⟨first, second, third⟩, applyLayers_decrypt_iff.2 ⟨a', b', k3, k2, k1⟩⟩
  | decrypt =>
    cases other with
    | decrypt => exact absurd rfl ho
    | encrypt =>
      obtain ⟨a, b, e3, e2, e1⟩ := applyLayers_decrypt_iff.1 h
      obtain ⟨a', b', g1, g2, g3⟩ := applyLayers_encrypt_iff.1 h'
      obtain ⟨m1, s1⟩ := Duplex.apply_other e1 .encrypt nofun
      obtain ⟨m2, s2⟩ := Duplex.apply_other e2 .decrypt nofun
      obtain ⟨m3, s3⟩ := Duplex.apply_other e3 .encrypt nofun
      obtain ⟨first, k1⟩ := Duplex.exists_apply_of_state_eq m1 s1 g1
      obtain ⟨second, k2⟩ := Duplex.exists_apply_of_state_eq m2 s2 g2
      obtain ⟨third, k3⟩ := Duplex.exists_apply_of_state_eq m3 s3 g3
      exact ⟨⟨first, second, third⟩, applyLayers_encrypt_iff.2 ⟨a', b', k1, k2, k3⟩⟩

/-! ## Machines under a key -/

/-- A software cipher in a mode answers what its duplex answers. -/
lemma apply_chained_iff {cipher : BlockCipher} {d : Duplex} {m : Machine} {direction : Direction}
    {data out : Bytes} : (chained cipher d).apply direction data = (.ok out, m) ↔
      ∃ d', d.apply cipher direction data = .ok (out, d') ∧ chained cipher d' = m := by
  simp only [apply]
  cases h : d.apply cipher direction data with
  | error e => simp
  | ok r =>
    obtain ⟨out', d'⟩ := r
    simp only [Prod.mk.injEq, Except.ok.injEq]
    constructor
    · rintro ⟨rfl, rfl⟩
      exact ⟨d', ⟨rfl, rfl⟩, rfl⟩
    · rintro ⟨_, ⟨rfl, rfl⟩, rfl⟩
      exact ⟨rfl, rfl⟩

/-- Three layers answer what their duplexes answer. -/
lemma apply_layered_iff {ciphers : TripleDes.Layers BlockCipher} {d : TripleDes.Layers Duplex}
    {m : Machine} {direction : Direction} {data out : Bytes} :
    (layered ciphers d).apply direction data = (.ok out, m) ↔
      ∃ d', applyLayers ciphers d direction data = .ok (out, d') ∧ layered ciphers d' = m := by
  simp only [apply]
  cases h : applyLayers ciphers d direction data with
  | error e => simp
  | ok r =>
    obtain ⟨out', d'⟩ := r
    simp only [Prod.mk.injEq, Except.ok.injEq]
    constructor
    · rintro ⟨rfl, rfl⟩
      exact ⟨d', ⟨rfl, rfl⟩, rfl⟩
    · rintro ⟨_, ⟨rfl, rfl⟩, rfl⟩
      exact ⟨rfl, rfl⟩

/-- Two calls of a machine of this library are one call on the data of both. -/
lemma apply_trans {m m' m'' : Machine} (hm : ∀ s, m ≠ .session s) {direction : Direction}
    {x y out out' : Bytes} (hx : m.apply direction x = (.ok out, m'))
    (hy : m'.apply direction y = (.ok out', m'')) :
    m.apply direction (x ++ y) = (.ok (out ++ out'), m'') := by
  cases m with
  | chained =>
    obtain ⟨d', hrun, rfl⟩ := apply_chained_iff.1 hx
    obtain ⟨d'', hrun', rfl⟩ := apply_chained_iff.1 hy
    exact apply_chained_iff.2 ⟨d'', Duplex.apply_trans hrun hrun', rfl⟩
  | layered =>
    obtain ⟨d', hrun, rfl⟩ := apply_layered_iff.1 hx
    obtain ⟨d'', hrun', rfl⟩ := apply_layered_iff.1 hy
    exact apply_layered_iff.2 ⟨d'', applyLayers_trans hrun hrun', rfl⟩
  | keystream =>
    cases direction with
    | encrypt =>
      cases hx; cases hy
      simp only [apply, StreamDuplex.apply, Rc4.apply, mapState_append]
    | decrypt =>
      cases hx; cases hy
      simp only [apply, StreamDuplex.apply, Rc4.apply, mapState_append]
  | session s => exact absurd rfl (hm s)

/-- A machine that was built for an algorithm, a mode and a key, over block ciphers that agree with
those of this library. A session with a backend is none of these; what it runs as is. -/
inductive Keyed : Algorithm → Mode → Bytes → Machine → Prop where
  | chained {algorithm : Algorithm} {key : Bytes} {cipher software : BlockCipher} {duplex : Duplex}
      (keyed : algorithm.blockCipher key = .ok software) (agrees : cipher.Agrees software)
      (chains : duplex.mode ≠ .stream) (fits : duplex.Fits cipher.blockSize) :
      Keyed algorithm duplex.mode key (.chained cipher duplex)
  | layered {key : Bytes} {ciphers : TripleDes.Layers BlockCipher}
      {duplexes : TripleDes.Layers Duplex}
      (keyed : Algorithm.tripleDesInnerCbc.innerLayers key = .ok ciphers)
      (chained : ciphers.Chained duplexes) :
      Keyed .tripleDesInnerCbc .cbc key (.layered ciphers duplexes)
  | keystream {key : Bytes} {duplex : StreamDuplex}
      (keyed : Algorithm.rc4.keystream key = .ok duplex.fresh) :
      Keyed .rc4 .stream key (.keystream duplex)

namespace Keyed

variable {algorithm : Algorithm} {mode : Mode} {key : Bytes} {m m' m'' : Machine}
  {direction : Direction} {x y out out' : Bytes}

/-- A call on aligned data succeeds, keeps its length, and leaves a machine of the same kind. -/
lemma apply_ok (h : Keyed algorithm mode key m) (direction : Direction) {data : Bytes}
    (ha : mode.Aligned algorithm.blockSize data) :
    ∃ out m', m.apply direction data = (.ok out, m') ∧ out.length = data.length ∧
      Keyed algorithm mode key m' := by
  cases h with
  | @chained _ _ cipher _ duplex keyed agrees chains fits =>
    rw [← Algorithm.blockSize_blockCipher keyed, ← agrees.blockSize] at ha
    obtain ⟨out, duplex', hrun, hlen, fits', hm⟩ := duplex.apply_ok chains fits direction ha
    refine ⟨out, .chained cipher duplex', by simp only [apply, hrun], hlen, ?_⟩
    rw [← hm]
    exact .chained keyed agrees (hm ▸ chains) fits'
  | @layered _ ciphers duplexes keyed chained =>
    obtain ⟨out, duplexes', hrun, hlen, chained'⟩ :=
      applyLayers_ok chained (TripleDes.blockSize_layers keyed) direction ha
    exact ⟨out, .layered ciphers duplexes', by simp only [apply, hrun], hlen,
      .layered keyed chained'⟩
  | @keystream _ duplex keyed =>
    cases direction with
    | encrypt => exact ⟨_, _, rfl, length_mapState .., .keystream keyed⟩
    | decrypt => exact ⟨_, _, rfl, length_mapState .., .keystream keyed⟩

/-- Two calls are one call on the data of both. -/
lemma apply_trans (h : Keyed algorithm mode key m) (hx : m.apply direction x = (.ok out, m'))
    (hy : m'.apply direction y = (.ok out', m'')) :
    m.apply direction (x ++ y) = (.ok (out ++ out'), m'') :=
  Machine.apply_trans (by cases h <;> exact nofun) hx hy

/-- A call in one direction leaves the output of the other one as it is. -/
lemma apply_other (h : Keyed algorithm mode key m) {other : Direction} (ho : other ≠ direction)
    (hx : m.apply direction x = (.ok out, m')) (hy : m.apply other y = (.ok out', m'')) :
    ∃ n, m'.apply other y = (.ok out', n) := by
  cases h with
  | chained =>
    obtain ⟨d', hrun, rfl⟩ := apply_chained_iff.1 hx
    obtain ⟨d'', hrun', rfl⟩ := apply_chained_iff.1 hy
    obtain ⟨hm, hs⟩ := Duplex.apply_other hrun other ho
    obtain ⟨e, he⟩ := Duplex.exists_apply_of_state_eq hm hs hrun'
    exact ⟨_, apply_chained_iff.2 ⟨e, he, rfl⟩⟩
  | layered =>
    obtain ⟨d', hrun, rfl⟩ := apply_layered_iff.1 hx
    obtain ⟨d'', hrun', rfl⟩ := apply_layered_iff.1 hy
    obtain ⟨e, he⟩ := applyLayers_other ho hrun hrun'
    exact ⟨_, apply_layered_iff.2 ⟨e, he, rfl⟩⟩
  | keystream =>
    cases direction <;> cases other <;> first | exact absurd rfl ho | skip
    · cases hx; cases hy
      exact ⟨_, rfl⟩
    · cases hx; cases hy
      exact ⟨_, rfl⟩

/-- Restarting succeeds, and restarting twice is restarting once. -/
lemma restart_ok (h : Keyed algorithm mode key m) {iv : Bytes}
    (hiv : iv.length = algorithm.blockSize) :
    ∃ m', m.restart iv = .ok m' ∧ m'.restart iv = .ok m' ∧ Keyed algorithm mode key m' := by
  cases h with
  | @chained _ _ cipher _ duplex keyed agrees chains fits =>
    refine ⟨_, rfl, rfl, @Keyed.chained _ _ _ _ (duplex.reset iv) keyed agrees chains ?_⟩
    rw [agrees.blockSize, Algorithm.blockSize_blockCipher keyed, ← hiv]
    exact Duplex.fits_start duplex.mode iv
  | layered keyed chained =>
    obtain ⟨h1, h2, h3⟩ := TripleDes.blockSize_layers keyed
    exact ⟨_, chained.restart iv, rfl, .layered keyed
      (.start (h1.trans hiv.symm) (h2.trans hiv.symm) (h3.trans hiv.symm))⟩
  | keystream keyed => exact ⟨_, rfl, rfl, .keystream keyed⟩

end Keyed

/-- The machine stands behind the data of the logs: what it gives next is what comes last when a
single pass is made over the log and the data together. -/
def Continues (m : Machine) (algorithm : Algorithm) (mode : Mode) (key iv : Bytes) (logs : Logs) :
    Prop :=
  ∀ (direction : Direction) (data : Bytes), mode.Aligned algorithm.blockSize data →
    ∃ front out m', m.apply direction data = (.ok out, m') ∧ out.length = data.length ∧
      front.length = (logs direction).length ∧
      algorithm.oneShot mode key iv direction (logs direction ++ data) = .ok (front ++ out)

/-- A machine at the start of its stream stands behind empty logs. -/
lemma Keyed.continues_empty {algorithm : Algorithm} {mode : Mode} {key iv : Bytes} {m : Machine}
    (h : Keyed algorithm mode key m) (hstart : m.restart iv = .ok m) :
    m.Continues algorithm mode key iv .empty := by
  intro direction data ha
  obtain ⟨out, m', hrun, hlen, -⟩ := h.apply_ok direction ha
  refine ⟨[], out, m', hrun, hlen, rfl, ?_⟩
  cases h with
  | @chained _ _ cipher software duplex keyed agrees chains fits =>
    have hs : duplex.state direction = .start iv := by
      rw [← (Machine.chained.inj (Except.ok.inj hstart)).2]
      exact Duplex.state_start ..
    obtain ⟨d', happly, rfl⟩ := apply_chained_iff.1 hrun
    obtain ⟨-, s, hmode, -⟩ := Duplex.apply_eq_ok_iff.1 happly
    -- the pass is made by the cipher of this library, the call by one that agrees with it
    obtain ⟨o, s', h1, h2, -⟩ := runMode_spec chains agrees direction (fits direction) data
    rw [h1] at hmode
    cases hmode
    rw [hs] at h2
    rw [Logs.empty, List.nil_append, List.nil_append,
      Algorithm.oneShot_of_blockCipher keyed chains, h2]
    rfl
  | layered keyed chained =>
    obtain ⟨d', hlayers, rfl⟩ := apply_layered_iff.1 hrun
    obtain ⟨-, rfl⟩ := Machine.layered.inj (Except.ok.inj ((chained.restart iv).symm.trans hstart))
    rw [Logs.empty, List.nil_append, List.nil_append, Algorithm.oneShot, keyed,
      ← oneShot_of_applyLayers hlayers]
    rfl
  | @keystream _ duplex keyed =>
    have hd := Machine.keystream.inj (Except.ok.inj hstart)
    rw [Logs.empty, List.nil_append, List.nil_append, Algorithm.oneShot_rc4 keyed]
    rw [← hd] at hrun
    cases direction <;> cases hrun <;> rfl

/-- A call keeps a machine behind its logs, with the data of the call added. -/
lemma Continues.apply {algorithm : Algorithm} {mode : Mode} {key iv : Bytes} {m m' : Machine}
    {logs : Logs} {direction : Direction} {data out : Bytes} (hk : m.Keyed algorithm mode key)
    (hc : m.Continues algorithm mode key iv logs) (ha : mode.Aligned algorithm.blockSize data)
    (h : m.apply direction data = (.ok out, m')) :
    m'.Continues algorithm mode key iv (logs.append direction data) := by
  intro other next hnext
  -- the data of the call and of the one after it are both taken
  obtain ⟨o, n, hm, hlen, hk'⟩ := hk.apply_ok direction ha
  obtain ⟨rfl, rfl⟩ : o = out ∧ n = m' := by
    rw [hm] at h
    cases h
    exact ⟨rfl, rfl⟩
  obtain ⟨out', m'', hm', hlen', -⟩ := hk'.apply_ok other hnext
  by_cases ho : other = direction
  · -- the same direction goes on, and both calls together are one call
    subst ho
    obtain ⟨front, whole, _, hboth, -, hfront, hshot⟩ := hc other (data ++ next) (ha.append hnext)
    rw [hk.apply_trans hm hm'] at hboth
    cases hboth
    refine ⟨front ++ o, out', m'', hm', hlen', ?_, ?_⟩
    · rw [Logs.append_self, List.length_append, List.length_append, hfront, hlen]
    · rw [Logs.append_self, List.append_assoc, hshot, List.append_assoc]
  · -- the other direction is where it was
    obtain ⟨front, whole, n', hone, -, hfront, hshot⟩ := hc other next hnext
    obtain ⟨n'', hafter⟩ := hk.apply_other ho hm hone
    rw [hm'] at hafter
    cases hafter
    rw [← Logs.append_of_ne logs ho data] at hfront hshot
    exact ⟨front, out', m'', hm', hlen', hfront, hshot⟩

end Machine

end SymmetricCipher
