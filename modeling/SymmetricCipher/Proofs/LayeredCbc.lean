import SymmetricCipher.Proofs.RoundTrip

/-!
# Triple DES with inner chaining

Three CBC layers mask their data by the same initialization vector. In the first block the third
layer takes off what the second one put on, and there the layers are Triple DES in CBC. What comes
behind differs. Over all calls, each layer is a single pass of DES over what the layer before it
gave.
-/

namespace SymmetricCipher

/-! ## First blocks -/

/-- The first block of the output comes from the first block of the data. -/
lemma take_mapBlocks {σ : Type} {step : σ → Bytes → Bytes × σ} {n : Nat} (hn : 0 < n) {s : σ}
    {data : Bytes} (hdata : n ≤ data.length) (hstep : (step s (data.take n)).1.length = n) :
    (mapBlocks step n s data).1.take n = (step s (data.take n)).1 := by
  obtain ⟨k, hk⟩ : ∃ k, data.length / n = k + 1 :=
    Nat.exists_eq_succ_of_ne_zero (Nat.ne_of_gt (Nat.div_pos hdata hn))
  rw [mapBlocks, Bytes.wholeBlocks, hk, Bytes.firstBlocks, mapState_cons]
  show ((_ :: _).flatten ++ _).take n = _
  rw [List.flatten_cons, List.append_assoc, List.take_left' hstep]

section cbc

variable {cipher : BlockCipher} {iv data : Bytes} (hiv : cipher.blockSize = iv.length)

include hiv

/-- CBC keeps the length of its data. -/
lemma length_cbc_start (direction : Direction) :
    (cbc cipher direction (.start iv) data).1.length = data.length := by
  have hrun : runMode .cbc cipher direction (.start iv) data =
    .ok (cbc cipher direction (.start iv) data) := rfl
  exact (length_runMode hiv.symm hrun).1

/-- The first block in CBC is masked with the initialization vector and encrypted. -/
lemma take_cbc_encrypt (hdata : iv.length ≤ data.length) :
    (cbc cipher .encrypt (.start iv) data).1.take iv.length =
      cipher.encryptBlock (Bytes.xor (data.take iv.length) iv) := by
  rw [← hiv] at hdata ⊢
  exact take_mapBlocks cipher.blockSize_pos hdata
    ((BlockCipher.Agrees.refl cipher).cbcEncryptStep hiv.symm (List.length_take_of_le hdata)).2.1

/-- Decrypted, it is unmasked with the initialization vector. -/
lemma take_cbc_decrypt (hdata : iv.length ≤ data.length) :
    (cbc cipher .decrypt (.start iv) data).1.take iv.length =
      Bytes.xor (cipher.decryptBlock (data.take iv.length)) iv := by
  rw [← hiv] at hdata ⊢
  exact take_mapBlocks cipher.blockSize_pos hdata
    ((BlockCipher.Agrees.refl cipher).cbcDecryptStep hiv.symm (List.length_take_of_le hdata)).2.1

end cbc

namespace TripleDes

/-- The initialization vector that the second layer adds to its first block is taken off again by
the third. -/
lemma Layers.take_oneShot {ciphers : Layers BlockCipher} {iv data : Bytes}
    (h1 : ciphers.first.blockSize = iv.length) (h2 : ciphers.second.blockSize = iv.length)
    (h3 : ciphers.third.blockSize = iv.length) (hdata : iv.length ≤ data.length) :
    (ciphers.oneShot iv .encrypt data).take iv.length =
      ciphers.third.encryptBlock (ciphers.second.decryptBlock
        (ciphers.first.encryptBlock (Bytes.xor (data.take iv.length) iv))) := by
  -- what the first and the second layer give
  obtain ⟨x, hx⟩ : ∃ x, (cbc ciphers.first .encrypt (.start iv) data).1 = x := ⟨_, rfl⟩
  obtain ⟨y, hy⟩ : ∃ y, (cbc ciphers.second .decrypt (.start iv) x).1 = y := ⟨_, rfl⟩
  have hxlen : iv.length ≤ x.length := by
    rw [← hx, length_cbc_start h1]
    exact hdata
  have hylen : iv.length ≤ y.length := by
    rw [← hy, length_cbc_start h2]
    exact hxlen
  have hblock : (ciphers.second.decryptBlock (x.take iv.length)).length = iv.length := by
    rw [← h2, ciphers.second.length_decryptBlock]
    rw [List.length_take_of_le (h2 ▸ hxlen)]
  calc (ciphers.oneShot iv .encrypt data).take iv.length
      = (cbc ciphers.third .encrypt (.start iv) y).1.take iv.length := by
        rw [oneShot, hx, hy]
    _ = ciphers.third.encryptBlock (Bytes.xor (y.take iv.length) iv) := take_cbc_encrypt h3 hylen
    _ = ciphers.third.encryptBlock (ciphers.second.decryptBlock (x.take iv.length)) := by
        rw [← hy, take_cbc_decrypt h2 hxlen, Bytes.xor_xor_cancel (Nat.le_of_eq hblock)]
    _ = ciphers.third.encryptBlock (ciphers.second.decryptBlock
          (ciphers.first.encryptBlock (Bytes.xor (data.take iv.length) iv))) := by
        rw [← hx, take_cbc_encrypt h1 hdata]

/-- In the first block the masks between the layers cancel, and the three layers are one cipher. -/
lemma take_oneShot_map (keys : Layers (List UInt64)) {iv data : Bytes} (hiv : iv.length = 8)
    (hdata : 8 ≤ data.length) : ((keys.map Des.cipherOf).oneShot iv .encrypt data).take 8 =
      (cbc (cipherOf keys) .encrypt (.start iv) data).1.take 8 := by
  rw [← hiv] at hdata ⊢
  exact (Layers.take_oneShot hiv.symm hiv.symm hiv.symm hdata).trans
    (@take_cbc_encrypt (cipherOf keys) iv data hiv.symm hdata).symm

end TripleDes

namespace Algorithm

variable {key : Bytes}

/-- A single pass of the layered algorithm is one through its three layers. -/
lemma oneShot_layered (h : key.length = 24) (iv data : Bytes) :
    tripleDesInnerCbc.oneShot .cbc key iv .encrypt data =
      .ok (((TripleDes.schedules key).map Des.cipherOf).oneShot iv .encrypt data) := by
  rw [oneShot, innerLayers, TripleDes.layers, expandKey_of_length h]
  rfl

/-- A single pass of Triple DES in CBC is one through its one cipher. -/
lemma oneShot_blockwise (h : key.length = 24) (iv data : Bytes) :
    tripleDes.oneShot .cbc key iv .encrypt data =
      .ok (cbc (TripleDes.cipherOf (TripleDes.schedules key)) .encrypt (.start iv) data).1 := by
  have hcipher : tripleDes.blockCipher key =
      .ok (TripleDes.cipherOf (TripleDes.schedules key)) := by
    rw [blockCipher, TripleDes.cipher, expandKey_of_length h]
  have hm : Mode.cbc ≠ .stream := by
    intro h
    cases h
  rw [oneShot_of_blockCipher hcipher hm]
  rfl

end Algorithm

/-- What holds once a key and the rest of the settings are made. -/
def Settings.keyed (algorithm : Algorithm) (mode : Mode) (key iv : Bytes)
    (continuous padding : Bool) : Settings :=
  { Settings.initial algorithm mode with
    key := some key
    keyLength := key.length
    iv := Bytes.fit algorithm.blockSize iv
    continuous := continuous
    padding := padding }

namespace Context

/-- The calls that make a new context ready. -/
def setup (raw iv : Bytes) (continuous padding : Bool) : List Call :=
  [.setKey raw, .setIv iv, .setContinuous continuous, .setPadding padding]

/-- A context that is set up follows the reference with those settings. -/
lemma Follows.setup {c : Context} {algorithm : Algorithm} {mode : Mode}
    (h : c.Follows (.create algorithm mode)) {raw key : Bytes}
    (hk : algorithm.normalizeKey raw = .ok key) (iv : Bytes) (continuous padding : Bool) :
    (c.run (setup raw iv continuous padding)).2.Follows
      ⟨.keyed algorithm mode key iv continuous padding, .empty⟩ := by
  have hrun := (h.run (Context.setup raw iv continuous padding)).2
  have hset : (Settings.initial algorithm mode).setKey raw =
      .ok { Settings.initial algorithm mode with key := some key, keyLength := key.length } := by
    show (algorithm.normalizeKey raw).map _ = _
    rw [hk]
    rfl
  have hreference : ((Reference.create algorithm mode).run
      (Context.setup raw iv continuous padding)).2 =
      ⟨.keyed algorithm mode key iv continuous padding, .empty⟩ := by
    simp only [Context.setup, Reference.run, mapState_cons, mapState_nil, Reference.perform,
      Reference.create, Settings.update, hset]
    rfl
  rwa [hreference] at hrun

/-- A context that is ready answers the first call from a single pass. -/
lemma Follows.encrypt_ok {c : Context} {s : Settings} (h : c.Follows ⟨s, .empty⟩) {key : Bytes}
    (hk : s.key = some key) {data : Bytes}
    (ha : s.mode.Aligned s.algorithm.blockSize (s.prepare .encrypt data)) :
    ∃ out, (c.encrypt data).1 = .ok out ∧
      s.algorithm.oneShot s.mode key s.iv .encrypt (s.prepare .encrypt data) = .ok out ∧
      out.length = (s.prepare .encrypt data).length := by
  have hnil : s.mode.Aligned s.algorithm.blockSize [] := fun _ => Nat.zero_mod _
  obtain ⟨front, out, -, hfront, hpass, hlen, hrespond⟩ :=
    Settings.respond_spec h.valid hnil (Settings.accept_of_aligned hk ha)
  obtain rfl : front = [] := List.eq_nil_of_length_eq_zero hfront
  refine ⟨out, ?_, hpass, hlen⟩
  have hanswer := (h.process .encrypt data).1
  rw [Settings.opening_empty] at hanswer
  exact hanswer.trans hrespond

/-- Under an expanded key, the first block of both forms of Triple DES is the same. -/
lemma take_encrypt_eq {c d : Context} {key iv : Bytes} {continuous padding : Bool}
    (hc : c.Follows ⟨.keyed .tripleDesInnerCbc .cbc key iv continuous padding, .empty⟩)
    (hd : d.Follows ⟨.keyed .tripleDes .cbc key iv continuous padding, .empty⟩)
    (hkey : key.length = 24) {data : Bytes}
    (hdata : padding = true ∨ data ≠ [] ∧ data.length % 8 = 0) :
    ∃ a b, (c.encrypt data).1 = .ok a ∧ (d.encrypt data).1 = .ok b ∧ 8 ≤ a.length ∧
      b.length = a.length ∧ a.take 8 = b.take 8 := by
  -- both prepare the data alike
  obtain ⟨x, hx⟩ : ∃ x, (Settings.keyed .tripleDes .cbc key iv continuous padding).prepare
    .encrypt data = x := ⟨_, rfl⟩
  have hx' : (Settings.keyed .tripleDesInnerCbc .cbc key iv continuous padding).prepare
    .encrypt data = x := hx
  have haligned : Mode.cbc.Aligned 8 x := by
    have h := Settings.aligned_prepare (.keyed .tripleDes .cbc key iv continuous padding)
      (hdata.imp id fun h _ => h.2)
    rwa [hx] at h
  have hlong : 8 ≤ x.length := by
    have hblock : data ≠ [] ∧ data.length % 8 = 0 → 8 ≤ data.length := by
      rintro ⟨hne, hmod⟩
      exact Nat.le_of_dvd (List.length_pos_iff.2 hne) (Nat.dvd_of_mod_eq_zero hmod)
    have h := Settings.blockSize_le_length_prepare
      (.keyed .tripleDes .cbc key iv continuous padding) (hdata.imp id hblock)
    rwa [hx] at h
  have hiv : (Bytes.fit 8 iv).length = 8 := Bytes.length_fit 8 iv
  obtain ⟨a, ha, hpass, hlen⟩ := hc.encrypt_ok rfl (hx'.symm ▸ haligned)
  obtain ⟨b, hb, hpass', hlen'⟩ := hd.encrypt_ok rfl (hx.symm ▸ haligned)
  rw [hx'] at hpass hlen
  rw [hx] at hpass' hlen'
  refine ⟨a, b, ha, hb, hlen.symm ▸ hlong, hlen'.trans hlen.symm, ?_⟩
  have hfirst := TripleDes.take_oneShot_map (TripleDes.schedules key) hiv hlong
  cases (Algorithm.oneShot_layered hkey _ x).symm.trans hpass
  cases (Algorithm.oneShot_blockwise hkey _ x).symm.trans hpass'
  exact hfirst

/-- The answers of encryption, one after the other, are three passes over all the data. -/
lemma Follows.answersIn_layered {c : Context} {key iv : Bytes}
    (h : c.Follows ⟨.keyed .tripleDesInnerCbc .cbc key iv true false, .empty⟩)
    (hkey : key.length = 24) {calls : List (Direction × Bytes)}
    (hcalls : ∀ p ∈ dataIn .encrypt calls, p.length % 8 = 0) :
    ∃ outs : List Bytes, c.answersIn .encrypt calls = outs.map .ok ∧
      outs.map List.length = (dataIn .encrypt calls).map List.length ∧
      ((TripleDes.schedules key).map Des.cipherOf).oneShot (Bytes.fit 8 iv) .encrypt
        (dataIn .encrypt calls).flatten = outs.flatten := by
  have hv := h.valid
  have hnil : Mode.cbc.Aligned 8 [] := fun _ => rfl
  have hfinish (x : Bytes) : (Settings.keyed .tripleDesInnerCbc .cbc key iv true false).finish
    .encrypt x = .ok x := rfl
  obtain ⟨front, outs, hfront, hpass, hturns, hlens⟩ :=
    Settings.turns_flatten hv rfl rfl hfinish hnil
      fun p (hp : p ∈ dataIn .encrypt calls) _ => hcalls p hp
  cases (Settings.oneShot_nil hv rfl .encrypt).symm.trans hfront
  have hprepare : (Settings.keyed .tripleDesInnerCbc .cbc key iv true false).prepare .encrypt =
      id :=
    funext (Settings.prepare_of_pads_eq_false rfl .encrypt)
  rw [hprepare, List.map_id] at hpass
  refine ⟨outs, ?_, ?_, ?_⟩
  · rw [h.answersIn, Settings.opening_empty]
    exact hturns
  · rw [hlens, hprepare]
    rfl
  · exact Except.ok.inj ((Algorithm.oneShot_layered hkey _ _).symm.trans hpass)

/-- Over any built-in backends, the layered Triple DES begins like Triple DES, whether or not data
is padded and whether or not the stream goes on. Without padding its calls, among others in the
opposite direction, make up three single passes of DES from the same initialization vector. -/
theorem innerCbc_first_block_and_passes {backends : List Backend}
    (hf : ∀ b ∈ backends, b.Faithful) (hp : ∀ b ∈ backends, b.IsProvider) {raw : Bytes}
    (hraw : raw.length = 8 ∨ raw.length = 16 ∨ raw.length = 24) (iv : Bytes) :
    ∃ c d, create .tripleDesInnerCbc .cbc backends = .ok c ∧
      create .tripleDes .cbc backends = .ok d ∧
      (∀ (continuous padding : Bool) (data : Bytes),
        (padding = true ∨ data ≠ [] ∧ data.length % 8 = 0) →
        ∃ a b, ((c.run (setup raw iv continuous padding)).2.encrypt data).1 = .ok a ∧
          ((d.run (setup raw iv continuous padding)).2.encrypt data).1 = .ok b ∧
          8 ≤ a.length ∧ b.length = a.length ∧ a.take 8 = b.take 8) ∧
      ∃ key c₁ c₂ c₃, TripleDes.expandKey .tripleDesInnerCbc raw = .ok key ∧
        Des.cipher (key.take 8) = .ok c₁ ∧ Des.cipher ((key.drop 8).take 8) = .ok c₂ ∧
        Des.cipher (key.drop 16) = .ok c₃ ∧
        ∀ calls : List (Direction × Bytes), (∀ p ∈ dataIn .encrypt calls, p.length % 8 = 0) →
          ∃ outs : List Bytes,
            (c.run (setup raw iv true false)).2.answersIn .encrypt calls = outs.map .ok ∧
            outs.map List.length = (dataIn .encrypt calls).map List.length ∧
            let start := ChainState.start (Bytes.fit 8 iv)
            let x := (cbc c₁ .encrypt start (dataIn .encrypt calls).flatten).1
            let y := (cbc c₂ .decrypt start x).1
            (cbc c₃ .encrypt start y).1 = outs.flatten := by
  obtain ⟨key, hkey⟩ := Algorithm.expandKey_ok .tripleDesInnerCbc hraw
  have hlen := Algorithm.length_expandKey hkey
  obtain ⟨c, hc, hcc⟩ := create_ok (show Algorithm.tripleDesInnerCbc.supports .cbc = true from rfl)
    backends
  obtain ⟨d, hd, hdd⟩ := create_ok (show Algorithm.tripleDes.supports .cbc = true from rfl) backends
  have hlayered := (Follows.of_created hcc hf hp).setup hkey iv
  have hblockwise := (Follows.of_created hdd hf hp).setup (TripleDes.expandKey_congr hkey _) iv
  refine ⟨c, d, hc, hd, ?_, key, _, _, _, hkey, if_pos ?_, if_pos ?_, if_pos ?_, ?_⟩
  · intro continuous padding data hdata
    exact take_encrypt_eq (hlayered continuous padding) (hblockwise continuous padding) hlen hdata
  · rw [List.length_take, hlen]
    rfl
  · rw [List.length_take, List.length_drop, hlen]
    rfl
  · rw [List.length_drop, hlen]
  · intro calls hcalls
    exact (hlayered true false).answersIn_layered hlen hcalls

/-- Three bytes are padded to one block, which is the same in both, and two calls give what is known
of two blocks under three keys. -/
theorem innerCbc_first_block_and_passes_known :
    let raw : Bytes := [0x01, 0x23, 0x45, 0x67, 0x89, 0xab, 0xcd, 0xef, 0x23, 0x45, 0x67, 0x89,
      0xab, 0xcd, 0xef, 0x01, 0x45, 0x67, 0x89, 0xab, 0xcd, 0xef, 0x01, 0x23]
    let iv : Bytes := [0x12, 0x34, 0x56, 0x78, 0x90, 0xab, 0xcd, 0xef]
    let calls : List (Direction × Bytes) :=
      [(.encrypt, [0x6b, 0xc1, 0xbe, 0xe2, 0x2e, 0x40, 0x9f, 0x96]),
        (.encrypt, [0xe9, 0x3d, 0x7e, 0x11, 0x73, 0x93, 0x17, 0x2a])]
    (∀ b ∈ [Backend.provider .standard], b.Faithful) ∧
    (∀ b ∈ [Backend.provider .standard], b.IsProvider) ∧
    (raw.length = 8 ∨ raw.length = 16 ∨ raw.length = 24) ∧
    ∃ c d, create .tripleDesInnerCbc .cbc [.provider .standard] = .ok c ∧
      create .tripleDes .cbc [.provider .standard] = .ok d ∧
      (∃ a b, ((c.run (setup raw iv false true)).2.encrypt [1, 2, 3]).1 = .ok a ∧
        ((d.run (setup raw iv false true)).2.encrypt [1, 2, 3]).1 = .ok b ∧
        8 ≤ a.length ∧ b.length = a.length ∧ a.take 8 = b.take 8) ∧
      ∃ outs : List Bytes,
        (c.run (setup raw iv true false)).2.answersIn .encrypt calls = outs.map .ok ∧
        outs.flatten = [0x9d, 0x50, 0x04, 0x7a, 0x85, 0xef, 0xb2, 0x05,
          0x76, 0x3d, 0x8c, 0xcd, 0x35, 0xbd, 0xeb, 0x40] := by
  intro raw iv calls
  have hf := List.forall_mem_singleton.2 (show Backend.Faithful (.provider .standard) from
    Provider.Suite.faithful_standard)
  have hp := List.forall_mem_singleton.2 (show Backend.IsProvider (.provider .standard) from
    trivial)
  have hraw : raw.length = 8 ∨ raw.length = 16 ∨ raw.length = 24 := .inr (.inr rfl)
  obtain ⟨c, d, hc, hd, hfirst, key, c₁, c₂, c₃, hkey, h₁, h₂, h₃, hpasses⟩ :=
    innerCbc_first_block_and_passes hf hp hraw iv
  obtain ⟨outs, houts, -, hflat⟩ := hpasses calls (by decide)
  refine ⟨hf, hp, hraw, c, d, hc, hd, hfirst false true [1, 2, 3] (.inl rfl), outs, houts, ?_⟩
  rw [← hflat]
  cases hkey
  cases h₁
  cases h₂
  cases h₃
  decide +kernel

end Context

end SymmetricCipher
