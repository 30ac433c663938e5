import SymmetricCipher.Proofs.Key
import SymmetricCipher.Proofs.OneShot
import SymmetricCipher.Proofs.Opening

/-!
# Machines on a backend

A machine that runs on a backend does, as long as the backend does not fail, what some machine over
block ciphers does: `Machine.RunsAs`. A call that fails leaves that other machine where it is, and a
restart takes both back to the start. Of the built-in backend it is asked that its suite is
faithful, which is all that is known of ciphers that are taken as they come.
-/

namespace SymmetricCipher

/-! ## The built-in backend -/

namespace Provider

/-- The chaining of a suite is CBC, block by block. -/
structure Suite.ChainsBlocks (suite : Suite) : Prop where
  encrypt : ∀ (cipher : BlockCipher) {mask block : Bytes}, mask.length = cipher.blockSize →
    block.length = cipher.blockSize → suite.chainBlock cipher .encrypt mask block =
      (cipher.encryptBlock (Bytes.xor block mask), cipher.encryptBlock (Bytes.xor block mask))
  decrypt : ∀ (cipher : BlockCipher) {mask block : Bytes}, mask.length = cipher.blockSize →
    block.length = cipher.blockSize → suite.chainBlock cipher .decrypt mask block =
      (Bytes.xor (cipher.decryptBlock block) mask, block)

/-- The ciphers of a suite do on blocks what the ciphers of this library do, and its chaining is
CBC. -/
structure Suite.Faithful (suite : Suite) : Prop extends chainsBlocks : suite.ChainsBlocks where
  agrees : ∀ {algorithm : Algorithm} {key : Bytes} {cipher software : BlockCipher},
    algorithm.IsKey key → suite.keyed algorithm key = some cipher →
    algorithm.blockCipher key = .ok software → cipher.Agrees software

/-- A block that is encrypted under its mask is a block encrypted in CBC. -/
lemma Suite.ChainsBlocks.encryptStep {suite : Suite} (hs : suite.ChainsBlocks)
    {cipher : BlockCipher} {s : ChainState} {block : Bytes}
    (hr : s.register.length = cipher.blockSize) (hb : block.length = cipher.blockSize) :
    suite.chainBlock cipher .encrypt s.register block =
        ((cbcEncryptStep cipher s block).1, (cbcEncryptStep cipher s block).2.register) ∧
      (cbcEncryptStep cipher s block).2.register.length = cipher.blockSize :=
  ⟨hs.encrypt cipher hr hb, ((BlockCipher.Agrees.refl cipher).cbcEncryptStep hr hb).2.2⟩

/-- A block that is decrypted under its mask is a block decrypted in CBC. -/
lemma Suite.ChainsBlocks.decryptStep {suite : Suite} (hs : suite.ChainsBlocks)
    {cipher : BlockCipher} {s : ChainState} {block : Bytes}
    (hr : s.register.length = cipher.blockSize) (hb : block.length = cipher.blockSize) :
    suite.chainBlock cipher .decrypt s.register block =
        ((cbcDecryptStep cipher s block).1, (cbcDecryptStep cipher s block).2.register) ∧
      (cbcDecryptStep cipher s block).2.register.length = cipher.blockSize :=
  ⟨hs.decrypt cipher hr hb, ((BlockCipher.Agrees.refl cipher).cbcDecryptStep hr hb).2.2⟩

/-- The suite of this library is faithful. -/
theorem Suite.faithful_standard : Suite.standard.Faithful where
  agrees := by
    intro algorithm key cipher software _ h hs
    simp only [Suite.standard, hs] at h
    split at h
    · rename_i heq
      cases heq
      cases h
      exact .refl _
    · cases h
  encrypt _ _ _ _ _ := rfl
  decrypt _ _ _ _ _ := rfl

/-- A chain holds the masks that a duplex of the same mode has in its registers. -/
inductive Chain.Matches : Chain → Duplex → Prop where
  | plain {duplex : Duplex} (mode : duplex.mode = .ecb) : Matches .plain duplex
  | masked {duplex : Duplex} {encrypting decrypting : Bytes} (mode : duplex.mode = .cbc)
      (encrypts : duplex.encrypting.register = encrypting)
      (decrypts : duplex.decrypting.register = decrypting) :
      Matches (.masked encrypting decrypting) duplex

/-- The backend chains the two block modes only. -/
lemma Chain.Matches.isBlockMode {chain : Chain} {duplex : Duplex} (h : chain.Matches duplex) :
    duplex.mode.isBlockMode = true := by
  cases h with
  | plain mode => rw [mode]; rfl
  | masked mode => rw [mode]; rfl

/-- A chain at the start of a stream holds the initialization vector, as a duplex does. -/
lemma Chain.matches_start {mode : Mode} {n : Nat} {iv : Bytes} {chain : Chain}
    (h : Chain.start mode n iv = .ok chain) : chain.Matches (.start mode iv) := by
  cases mode with
  | ecb =>
    cases h
    exact .plain rfl
  | cbc =>
    rw [Chain.start] at h
    split at h
    · cases h
      exact .masked rfl rfl rfl
    · cases h
  | _ => cases h

/-- A block mode starts with any initialization vector of a block. -/
lemma Chain.start_ok {mode : Mode} (hm : mode.isBlockMode = true) {n : Nat} {iv : Bytes}
    (hiv : iv.length = n) : ∃ chain, Chain.start mode n iv = .ok chain := by
  cases mode with
  | ecb => exact ⟨_, rfl⟩
  | cbc => exact ⟨_, if_pos hiv⟩
  | _ => cases hm

/-- ECB carries nothing from block to block. -/
lemma mapState_ecbStep (cipher : BlockCipher) (direction : Direction) (s : ChainState)
    (blocks : List Bytes) :
    mapState (ecbStep cipher direction) s blocks = (blocks.map (cipher.onBlock direction), s) := by
  induction blocks with
  | nil => rfl
  | cons block blocks ih =>
    simp only [mapState_cons, ecbStep, List.map_cons] at ih ⊢
    rw [ih]

namespace Session

/-- On whole blocks a chain does what the mode does over the same cipher. -/
lemma runChain_eq {suite : Suite} (hs : suite.ChainsBlocks) {cipher : BlockCipher} {chain : Chain}
    {duplex : Duplex} (hc : chain.Matches duplex)
    (hd : duplex.mode = .cbc → duplex.Fits cipher.blockSize) (direction : Direction)
    {data : Bytes} (ha : data.length % cipher.blockSize = 0) :
    ∃ outs chain' s,
      runChain suite cipher chain direction (Bytes.wholeBlocks cipher.blockSize data) =
        (outs, chain') ∧
      runMode duplex.mode cipher direction (duplex.state direction) data =
        .ok (outs.flatten, s) ∧
      chain'.Matches (duplex.setState direction s) := by
  have hblocks : ∀ b ∈ Bytes.wholeBlocks cipher.blockSize data, b.length = cipher.blockSize :=
    fun _ hb => Bytes.length_of_mem_wholeBlocks hb
  generalize hb : Bytes.wholeBlocks cipher.blockSize data = blocks at hblocks ⊢
  cases hc with
  | plain mode =>
    refine ⟨_, _, duplex.state direction, rfl, ?_, .plain ?_⟩
    · rw [mode, runMode, ecb, mapBlocks_eq _ _ ha, hb, mapState_ecbStep]
    · rw [Duplex.mode_setState, mode]
  | masked mode encrypts decrypts =>
    subst encrypts decrypts
    cases direction with
    | encrypt =>
      have e : mapState (suite.chainBlock cipher .encrypt) duplex.encrypting.register blocks =
          ((mapState (cbcEncryptStep cipher) duplex.encrypting blocks).1,
            (mapState (cbcEncryptStep cipher) duplex.encrypting blocks).2.register) :=
        (mapState_map ChainState.register (fun _ _ => hs.encryptStep) (hd mode .encrypt) hblocks).1
      refine ⟨_, _, (mapState (cbcEncryptStep cipher) duplex.encrypting blocks).2,
        congrArg (fun r => (r.1, Chain.masked r.2 duplex.decrypting.register)) e, ?_,
        .masked mode rfl rfl⟩
      rw [mode, runMode, cbc, mapBlocks_eq _ _ ha, hb]
      rfl
    | decrypt =>
      have e : mapState (suite.chainBlock cipher .decrypt) duplex.decrypting.register blocks =
          ((mapState (cbcDecryptStep cipher) duplex.decrypting blocks).1,
            (mapState (cbcDecryptStep cipher) duplex.decrypting blocks).2.register) :=
        (mapState_map ChainState.register (fun _ _ => hs.decryptStep) (hd mode .decrypt) hblocks).1
      refine ⟨_, _, (mapState (cbcDecryptStep cipher) duplex.decrypting blocks).2,
        congrArg (fun r => (r.1, Chain.masked duplex.encrypting.register r.2)) e, ?_,
        .masked mode rfl rfl⟩
      rw [mode, runMode, cbc, mapBlocks_eq _ _ ha, hb]
      rfl

/-- On whole blocks a session does what a duplex of the same mode does. -/
lemma transform_eq {s : Session} {duplex : Duplex} (hs : s.suite.ChainsBlocks)
    (hc : s.chain.Matches duplex) (hd : duplex.mode = .cbc → duplex.Fits s.cipher.blockSize)
    (direction : Direction) {data : Bytes} (ha : data.length % s.cipher.blockSize = 0) :
    ∃ out chain duplex', s.transform direction data = .ok (out, { s with chain := chain }) ∧
      duplex.apply s.cipher direction data = .ok (out, duplex') ∧
      duplex'.mode = duplex.mode ∧ chain.Matches duplex' := by
  obtain ⟨outs, chain, state, hrun, hmode, hmatch⟩ := runChain_eq hs hc hd direction ha
  refine ⟨outs.flatten, chain, _, ?_, Duplex.apply_eq_ok_iff.2 ⟨fun _ => ha, state, hmode, rfl⟩,
    Duplex.mode_setState .., hmatch⟩
  rw [transform, if_neg (fun h => h ha), hrun]

end Session

end Provider

/-! ## Simulated backends -/

namespace Simulated.Session

/-- A session that has taken all its calls fails, and counts the call. -/
lemma transform_of_exhausted {s : Session} (h : s.isExhausted = true) (direction : Direction)
    (data : Bytes) :
    ∃ e, s.transform direction data = (.error e, { s with calls := s.calls + 1 }) := by
  rw [transform, if_pos h]
  exact ⟨_, rfl⟩

/-- Any other session does what its duplex does. -/
lemma transform_of_apply {s : Session} (h : s.isExhausted ≠ true) {direction : Direction}
    {data out : Bytes} {duplex : Duplex}
    (hd : s.duplex.apply s.cipher direction data = .ok (out, duplex)) :
    s.transform direction data = (.ok out, { s with calls := s.calls + 1, duplex := duplex }) := by
  rw [transform, if_neg h, hd]

end Simulated.Session

/-! ## Machines -/

namespace Machine

/-- A machine does what a machine over block ciphers does, as long as it does not fail. -/
inductive RunsAs : Machine → Machine → Prop where
  | chained (cipher : BlockCipher) (duplex : Duplex) :
      RunsAs (.chained cipher duplex) (.chained cipher duplex)
  | layered (ciphers : TripleDes.Layers BlockCipher) (duplexes : TripleDes.Layers Duplex) :
      RunsAs (.layered ciphers duplexes) (.layered ciphers duplexes)
  | keystream (duplex : StreamDuplex) : RunsAs (.keystream duplex) (.keystream duplex)
  | provider {s : Provider.Session} {duplex : Duplex} (faithful : s.suite.Faithful)
      (mode : s.mode = duplex.mode) (chain : s.chain.Matches duplex) :
      RunsAs (.session (.provider s)) (.chained s.cipher duplex)
  | simulated (s : Simulated.Session) :
      RunsAs (.session (.simulated s)) (.chained s.cipher s.duplex)

/-- Running data through a machine does not change who holds its session. -/
lemma ticket?_apply (m : Machine) (direction : Direction) (data : Bytes) :
    (m.apply direction data).2.ticket? = m.ticket? := by
  cases m with
  | chained cipher duplex =>
    rw [apply]
    split <;> rfl
  | layered ciphers duplexes =>
    rw [apply]
    split <;> rfl
  | keystream duplex => rfl
  | session s =>
    cases s with
    | provider s =>
      simp only [apply, Session.transform]
      split <;> rfl
    | simulated s =>
      simp only [apply, Session.transform, Simulated.Session.transform]
      split
      · rfl
      · split <;> rfl

/-- Nor does taking it back to the start. -/
lemma ticket?_restart {m m' : Machine} {iv : Bytes} (h : m.restart iv = .ok m') :
    m'.ticket? = m.ticket? := by
  cases m with
  | chained cipher duplex => cases h; rfl
  | layered ciphers duplexes => cases h; rfl
  | keystream duplex => cases h; rfl
  | session s =>
    obtain ⟨s', hs, rfl⟩ := restart_session_iff.1 h
    cases hs <;> rfl

variable {algorithm : Algorithm} {mode : Mode} {key iv : Bytes} {m m' core : Machine}

/-- Software under a key runs as itself. -/
lemma Keyed.runsAs (h : m.Keyed algorithm mode key) : m.RunsAs m := by
  cases h with
  | chained => exact .chained _ _
  | layered => exact .layered _ _
  | keystream => exact .keystream _

namespace RunsAs

/-- A call fails and leaves the other machine where it is, or does the same there. Only a simulated
session fails. -/
lemma apply (h : m.RunsAs core) (hk : core.Keyed algorithm mode key) (direction : Direction)
    {data : Bytes} (ha : mode.Aligned algorithm.blockSize data) :
    (∃ e m', m.apply direction data = (.error e, m') ∧ m'.RunsAs core ∧ m.ticket? ≠ none) ∨
      ∃ out m' core', m.apply direction data = (.ok out, m') ∧
        core.apply direction data = (.ok out, core') ∧ m'.RunsAs core' := by
  obtain ⟨out, core', hrun, -, hk'⟩ := hk.apply_ok direction ha
  cases h with
  | chained => exact .inr ⟨out, core', core', hrun, hrun, hk'.runsAs⟩
  | layered => exact .inr ⟨out, core', core', hrun, hrun, hk'.runsAs⟩
  | keystream => exact .inr ⟨out, core', core', hrun, hrun, hk'.runsAs⟩
  | @provider s duplex faithful mode chain =>
    cases hk with
    | chained keyed agrees chains fits =>
      -- data is aligned for the mode, which is more than the backend asks for
      have hdata : data.length % s.cipher.blockSize = 0 := by
        rw [agrees.blockSize, Algorithm.blockSize_blockCipher keyed]
        exact ha chain.isBlockMode
      obtain ⟨out, chain', duplex', hs, hd, hmode, hmatch⟩ :=
        Provider.Session.transform_eq faithful.chainsBlocks chain (fun _ => fits) direction hdata
      refine .inr ⟨out, _, _, ?_, apply_chained_iff.2 ⟨duplex', hd, rfl⟩,
        .provider (s := { s with chain := chain' }) faithful (mode.trans hmode.symm) hmatch⟩
      simp only [Machine.apply, Session.transform, hs]
  | simulated s =>
    obtain ⟨duplex', hd, rfl⟩ := apply_chained_iff.1 hrun
    -- a failure costs a call, but leaves both chaining states
    by_cases hx : s.isExhausted = true
    · obtain ⟨e, hs⟩ := Simulated.Session.transform_of_exhausted hx direction data
      refine .inl ⟨e, _, ?_, .simulated { s with calls := s.calls + 1 }, Option.some_ne_none _⟩
      simp only [Machine.apply, Session.transform, hs]
    · refine .inr ⟨out, _, _, ?_, hrun,
        .simulated { s with calls := s.calls + 1, duplex := duplex' }⟩
      simp only [Machine.apply, Session.transform, Simulated.Session.transform_of_apply hx hd]

/-- A restart that is not refused takes both back to the same start. -/
lemma restart (h : m.RunsAs core) (hr : m.restart iv = .ok m') :
    ∃ core', core.restart iv = .ok core' ∧ m'.RunsAs core' := by
  cases h with
  | chained => cases hr; exact ⟨_, rfl, .chained _ _⟩
  | layered => cases hr; exact ⟨_, rfl, .layered _ _⟩
  | keystream => cases hr; exact ⟨_, rfl, .keystream _⟩
  | @provider s duplex faithful mode chain =>
    obtain ⟨s', ⟨starts⟩, rfl⟩ := restart_session_iff.1 hr
    rw [mode] at starts
    exact ⟨_, rfl, .provider (s := { s with chain := _ }) faithful mode
      (Provider.Chain.matches_start starts)⟩
  | simulated s =>
    obtain ⟨s', ⟨-⟩, rfl⟩ := restart_session_iff.1 hr
    exact ⟨_, rfl, .simulated { s with duplex := s.duplex.reset iv }⟩

/-- Only a simulated session refuses a restart. -/
lemma restart_ok (h : m.RunsAs core) (hk : core.Keyed algorithm mode key) (ht : m.ticket? = none)
    (hiv : iv.length = algorithm.blockSize) : ∃ m', m.restart iv = .ok m' := by
  cases h with
  | chained => exact ⟨_, rfl⟩
  | layered => exact ⟨_, rfl⟩
  | keystream => exact ⟨_, rfl⟩
  | @provider s duplex faithful mode chain =>
    cases hk with
    | chained keyed agrees chains fits =>
      rw [← Algorithm.blockSize_blockCipher keyed, ← agrees.blockSize] at hiv
      obtain ⟨chain', hc⟩ := Provider.Chain.start_ok chain.isBlockMode hiv
      rw [← mode] at hc
      exact ⟨_, restart_session_iff.2 ⟨_, .provider hc, rfl⟩⟩
  | simulated s => cases ht

end RunsAs

end Machine

end SymmetricCipher
