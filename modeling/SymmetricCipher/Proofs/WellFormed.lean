import SymmetricCipher.Proofs.PasswordKey
import SymmetricCipher.Proofs.Processing

/-!
# Well-formed contexts

What holds of every context that calls lead to, over backends that may be of any make: nothing is
set that a cipher cannot run under, and a machine that counts runs the mode that is set, under the
key that is set. `Machine.BuiltFor` says what a machine was built for, with no word about what it
computes, and so nothing is asked of the backends.
-/

namespace SymmetricCipher

/-! ## What a machine was built for -/

namespace Machine

/-- A machine that runs the mode under the key, on the engine: in software, on the single blocks of
a backend, or in a session with one. -/
inductive BuiltFor (backends : List Backend) (algorithm : Algorithm) (mode : Mode) (key : Bytes) :
    Engine → Machine → Prop where
  | chained {cipher : BlockCipher} {duplex : Duplex}
      (keyed : algorithm.blockCipher key = .ok cipher) (runs : duplex.mode = mode) :
      BuiltFor backends algorithm mode key .software (.chained cipher duplex)
  | layered {ciphers : TripleDes.Layers BlockCipher} {duplexes : TripleDes.Layers Duplex}
      (layers : algorithm = .tripleDesInnerCbc) (keyed : algorithm.innerLayers key = .ok ciphers)
      (first : duplexes.first.mode = mode) (second : duplexes.second.mode = mode)
      (third : duplexes.third.mode = mode) :
      BuiltFor backends algorithm mode key .software (.layered ciphers duplexes)
  | keystream {duplex : StreamDuplex} (keyed : algorithm.keystream key = .ok duplex.fresh)
      (runs : .stream = mode) :
      BuiltFor backends algorithm mode key .software (.keystream duplex)
  | emulated {backend : Backend} {cipher : BlockCipher} {duplex : Duplex}
      (offered : backend ∈ backends) (keyed : backend.rawBlock algorithm key = .ok cipher)
      (runs : duplex.mode = mode) :
      BuiltFor backends algorithm mode key .accelerated (.chained cipher duplex)
  | provider {s : Provider.Session} (offered : .provider s.suite ∈ backends)
      (keyed : Provider.cipher algorithm key s.suite = .ok s.cipher) (runs : s.mode = mode) :
      BuiltFor backends algorithm mode key .accelerated (.session (.provider s))
  | simulated {sim : Simulated} {s : Simulated.Session} (offered : .simulated sim ∈ backends)
      (keyed : algorithm.blockCipher key = .ok s.cipher) (runs : s.duplex.mode = mode) :
      BuiltFor backends algorithm mode key .accelerated (.session (.simulated s))

variable {backends : List Backend} {algorithm : Algorithm} {mode : Mode} {key iv : Bytes}
  {engine : Engine} {m m' : Machine}

/-- A duplex stays in its mode. -/
lemma mode_of_apply {d d' : Duplex} {cipher : BlockCipher} {direction : Direction} {x out : Bytes}
    (h : d.apply cipher direction x = .ok (out, d')) : d'.mode = d.mode := by
  obtain ⟨-, s, -, rfl⟩ := Duplex.apply_eq_ok_iff.1 h
  exact Duplex.mode_setState ..

/-- Three layers stay in their modes. -/
lemma mode_of_applyLayers {ciphers : TripleDes.Layers BlockCipher} {d d' : TripleDes.Layers Duplex}
    {direction : Direction} {x out : Bytes}
    (h : applyLayers ciphers d direction x = .ok (out, d')) :
    d'.first.mode = d.first.mode ∧ d'.second.mode = d.second.mode ∧
      d'.third.mode = d.third.mode := by
  cases direction with
  | encrypt =>
    obtain ⟨a, b, e1, e2, e3⟩ := applyLayers_encrypt_iff.1 h
    exact ⟨mode_of_apply e1, mode_of_apply e2, mode_of_apply e3⟩
  | decrypt =>
    obtain ⟨a, b, e3, e2, e1⟩ := applyLayers_decrypt_iff.1 h
    exact ⟨mode_of_apply e1, mode_of_apply e2, mode_of_apply e3⟩

/-- The state from which a stream starts over stays. -/
lemma fresh_of_apply (d : StreamDuplex) (direction : Direction) (x : Bytes) :
    (d.apply direction x).2.fresh = d.fresh := by
  cases direction <;> rfl

namespace BuiltFor

/-- A call with data leaves a machine what it was built for. -/
lemma apply (h : m.BuiltFor backends algorithm mode key engine) (direction : Direction)
    (data : Bytes) : (m.apply direction data).2.BuiltFor backends algorithm mode key engine := by
  cases h with
  | @chained cipher duplex keyed runs =>
    rw [Machine.apply]
    cases hr : duplex.apply cipher direction data with
    | error e => exact .chained keyed runs
    | ok r => exact .chained keyed ((mode_of_apply hr).trans runs)
  | @layered ciphers duplexes layers keyed first second third =>
    rw [Machine.apply]
    cases hr : applyLayers ciphers duplexes direction data with
    | error e => exact .layered layers keyed first second third
    | ok r =>
      obtain ⟨h1, h2, h3⟩ := mode_of_applyLayers hr
      exact .layered layers keyed (h1.trans first) (h2.trans second) (h3.trans third)
  | @keystream duplex keyed runs =>
    -- the key is in the state that both directions start from, and that stays
    have hfresh := fresh_of_apply duplex direction data
    exact .keystream (keyed.trans (congrArg Except.ok hfresh.symm)) runs
  | @emulated backend cipher duplex offered keyed runs =>
    rw [Machine.apply]
    cases hr : duplex.apply cipher direction data with
    | error e => exact .emulated offered keyed runs
    | ok r => exact .emulated offered keyed ((mode_of_apply hr).trans runs)
  | @provider s offered keyed runs =>
    -- the session keeps its cipher whether the call is refused or not
    simp only [Machine.apply, Session.transform, Provider.Session.transform]
    split
    · rename_i hx
      split at hx <;> cases hx
      exact .provider offered keyed runs
    · rename_i hx
      split at hx <;> cases hx
      exact .provider offered keyed runs
  | @simulated sim s offered keyed runs =>
    simp only [Machine.apply, Session.transform, Simulated.Session.transform]
    split
    · exact .simulated offered keyed runs
    · cases hr : s.duplex.apply s.cipher direction data with
      | error e => exact .simulated offered keyed runs
      | ok r => exact .simulated offered keyed ((mode_of_apply hr).trans runs)

/-- A restart keeps the machine and its key. -/
lemma restart (h : m.BuiltFor backends algorithm mode key engine) (hr : m.restart iv = .ok m') :
    m'.BuiltFor backends algorithm mode key engine := by
  cases h with
  | chained keyed runs => cases hr; exact .chained keyed runs
  | layered layers keyed first second third =>
    cases hr
    exact .layered layers keyed first second third
  | keystream keyed runs => cases hr; exact .keystream keyed runs
  | emulated offered keyed runs => cases hr; exact .emulated offered keyed runs
  | provider offered keyed runs =>
    obtain ⟨s', ⟨-⟩, rfl⟩ := restart_session_iff.1 hr
    exact .provider offered keyed runs
  | simulated offered keyed runs =>
    obtain ⟨s', ⟨-⟩, rfl⟩ := restart_session_iff.1 hr
    exact .simulated offered keyed runs

/-- Software is built for the key that it is given. -/
lemma of_software (hs : algorithm.supports mode = true)
    (h : software algorithm mode key iv = .ok m) :
    m.BuiltFor backends algorithm mode key .software := by
  unfold software at h
  split at h
  · cases hc : Algorithm.tripleDesInnerCbc.innerLayers key with
    | error e => rw [hc] at h; cases h
    | ok ciphers =>
      obtain rfl : mode = .cbc := eq_of_beq hs
      rw [hc] at h
      cases h
      exact .layered rfl hc rfl rfl rfl
  · cases hc : algorithm.keystream key with
    | error e => rw [hc] at h; cases h
    | ok fresh =>
      rw [hc] at h
      cases h
      exact .keystream hc rfl
  · cases hc : algorithm.blockCipher key with
    | error e => rw [hc] at h; cases h
    | ok cipher =>
      rw [hc] at h
      cases h
      exact .chained hc rfl

/-- A machine over a backend is built for the key that it is given. -/
lemma of_accelerated {backend : Backend} {emulate : Bool} {ticket : Nat} (hb : backend ∈ backends)
    (h : accelerated backend emulate ticket algorithm mode key iv = .ok m) :
    m.BuiltFor backends algorithm mode key .accelerated := by
  rcases accelerated_eq_ok_iff.1 h with ⟨-, cipher, hc, rfl⟩ | ⟨-, s, hopened, rfl⟩
  · exact .emulated hb hc rfl
  · cases hopened with
    | provider keyed starts => exact .provider hb keyed rfl
    | simulated works keyed => exact .simulated hb keyed rfl

/-- Whatever is selected, the machine is built for what was asked, and its engine is recorded. -/
lemma of_ofSelection (hs : algorithm.supports mode = true) {preferred : Option Engine}
    {ticket : Nat}
    (h : ofSelection (Selection.select backends algorithm mode key.length preferred) ticket
      algorithm mode key iv = .ok (engine, m)) :
    m.BuiltFor backends algorithm mode key engine := by
  rcases ofSelection_cases h with ⟨rfl, hsoft⟩ | ⟨rfl, backend, emulate, hsel, hacc⟩
  · exact of_software hs hsoft
  · exact of_accelerated (Selection.mem_of_select hsel).1 hacc

end BuiltFor

end Machine

/-! ## Settings and what is left of a stream -/

namespace Settings

variable {s s' : Settings} {call : Call}

/-- A key that is set has a length that the algorithm accepts. -/
lemma setKey_accepts {raw : Bytes} (h : s.setKey raw = .ok s') :
    s'.algorithm.acceptsKeyLength s'.keyLength = true := by
  cases hk : s.algorithm.normalizeKey raw with
  | error e => rw [setKey, hk] at h; cases h
  | ok key =>
    rw [setKey, hk] at h
    cases h
    exact Algorithm.IsKey.accepted ⟨raw, hk⟩

/-- The three calls that set the length of keys set one that is accepted. -/
lemma update_accepts (hs : s.algorithm.acceptsKeyLength s.keyLength = true)
    (h : s.update call = .ok s') : s'.algorithm.acceptsKeyLength s'.keyLength = true := by
  cases call with
  | setKey raw => exact setKey_accepts h
  | setKeyLength bits =>
    rw [update] at h
    split at h
    · rename_i hb
      cases h
      exact hb.2
    · cases h
  | setPassword password options =>
    rw [update] at h
    split at h
    · cases h
    · exact setKey_accepts h
  | setMode mode =>
    cases hm : s.algorithm.checkMode mode with
    | error e => rw [update, hm] at h; cases h
    | ok u => rw [update, hm] at h; cases h; exact hs
  | _ => cases h; exact hs

/-- As long as a lost stream is not forgotten, it stays under its key, and goes on. -/
lemma update_of_not_clears (h : s.update call = .ok s') (hc : call.clears = false) :
    s'.key = s.key ∧ (s.continuous = true → s'.continuous = true) := by
  cases call with
  | setKeyLength bits =>
    rw [update] at h
    split at h <;> cases h
    exact ⟨rfl, id⟩
  | setMode mode =>
    cases hm : s.algorithm.checkMode mode with
    | error e => rw [update, hm] at h; cases h
    | ok u => rw [update, hm] at h; cases h; exact ⟨rfl, id⟩
  | setContinuous on =>
    cases h
    cases on with
    | false => cases hc
    | true => exact ⟨rfl, fun _ => rfl⟩
  | setPadding on => cases h; exact ⟨rfl, id⟩
  | prefer engine => cases h; exact ⟨rfl, id⟩
  | process direction data => cases h; exact ⟨rfl, id⟩
  | _ => cases hc

end Settings

/-! ## Well-formed contexts -/

namespace Context

variable {c c' : Context} {m : Machine} {backends : List Backend}

/-- What is true of a context at any time. -/
structure WellFormed (c : Context) (backends : List Backend) : Prop where
  offered : c.backends = backends
  supports : c.algorithm.supports c.mode = true
  iv : c.iv.length = c.algorithm.blockSize
  keyLength : c.algorithm.acceptsKeyLength c.keyLength = true
  /-- The key is in the form that the algorithm takes. -/
  key : ∀ {key : Bytes}, c.key = some key → c.algorithm.normalizeKey key = .ok key
  desynchronized : c.desynchronized = true → c.key ≠ none ∧ c.continuous = true
  /-- Unless settings have changed, there is a machine for them, and its engine is known. -/
  current : ¬c.Stale → ∃ engine m key, c.engine? = some engine ∧ c.machinery.machine? = some m ∧
    c.key = some key ∧ m.BuiltFor backends c.algorithm c.mode key engine

/-- What a context is made of is in order: its settings are valid, and a machine that counts was
built for them. -/
structure Maintained (c : Context) (backends : List Backend) : Prop where
  offered : c.backends = backends
  valid : c.settings.Valid
  keyLength : c.algorithm.acceptsKeyLength c.keyLength = true
  lost : c.desynchronized = true → c.key ≠ none ∧ c.continuous = true
  built : ∀ {engine : Engine} {m : Machine}, c.machinery = .current engine m →
    ∃ key, c.key = some key ∧ m.BuiltFor backends c.algorithm c.mode key engine

namespace Maintained

/-- A new context is in order. -/
lemma of_create {algorithm : Algorithm} {mode : Mode}
    (h : create algorithm mode backends = .ok c) : c.Maintained backends := by
  cases hm : algorithm.checkMode mode with
  | error e => rw [create, hm] at h; cases h
  | ok u =>
    rw [create, hm] at h
    cases h
    refine ⟨rfl, Settings.valid_initial hm, by cases algorithm <;> rfl, fun hd => ?_, fun hc => ?_⟩
    · cases hd
    · cases hc

/-- A setting keeps a context in shape, as it notes what has to be built again. -/
lemma adopt (h : c.Maintained backends) {call : Call} {s : Settings}
    (hu : c.settings.update call = .ok s) : (c.adopt call s).Maintained backends := by
  refine ⟨h.offered, h.valid.update hu, Settings.update_accepts h.keyLength hu, fun hd => ?_,
    fun hm => ?_⟩
  · obtain ⟨hd, hc⟩ := Bool.and_eq_true_iff.1 hd
    obtain ⟨hkey, hcont⟩ := Settings.update_of_not_clears hu (by simpa using hc)
    obtain ⟨hk, hon⟩ := h.lost hd
    exact ⟨fun hn => hk (hkey.symm.trans hn), hcont hon⟩
  · cases he : call.effect with
    | none =>
      obtain ⟨keyLength, padding, rfl⟩ := Settings.update_of_effect_none hu he
      simp only [Context.adopt, he] at hm
      exact h.built hm
    | restart =>
      obtain ⟨iv, rfl⟩ := Settings.update_of_effect_restart hu he
      simp only [Context.adopt, he] at hm
      exact h.built hm
    | rebuild =>
      -- what is outdated does not count
      simp only [Context.adopt, he] at hm
      cases hc : c.machinery with
      | _ => rw [hc] at hm; cases hm

/-- A context that is ready has a machine that was built for its settings. -/
lemma ready (h : c.Maintained backends) (hr : c.ready = .ok (m, c')) :
    ∃ key engine ledger, c.key = some key ∧
      m.BuiltFor backends c.algorithm c.mode key engine ∧
      c' = { c with machinery := .current engine m, restarting := false, ledger := ledger } := by
  obtain ⟨-, key, engine, ledger, hk, hready, hc'⟩ := of_ready hr
  refine ⟨key, engine, ledger, hk, ?_, hc'⟩
  cases hready with
  | kept current continuous continues =>
    obtain ⟨key', hk', hb⟩ := h.built current
    cases hk.symm.trans hk'
    exact hb
  | restarted current restart starts =>
    obtain ⟨key', hk', hb⟩ := h.built current
    cases hk.symm.trans hk'
    exact hb.restart restart
  | built stale selected =>
    rw [Context.selected, h.offered] at selected
    exact .of_ofSelection h.valid.supports selected

/-- Data keeps a context in order. -/
lemma process (h : c.Maintained backends) (direction : Direction) (data : Bytes) :
    (c.process direction data).2.Maintained backends := by
  rcases c.process_cases direction data with
    ⟨e, -, hsame⟩ | ⟨m, c', m', lost, hr, hran, hlost, hleft⟩
  · rw [hsame]
    exact h
  · obtain ⟨key, engine, ledger, hk, hb, rfl⟩ := h.ready hr
    have hb' : m'.BuiltFor backends c.algorithm c.mode key engine := by
      rcases hran with rfl | ⟨x, rfl⟩
      · exact hb
      · exact hb.apply direction x
    rw [hleft]
    refine ⟨h.offered, h.valid, h.keyLength, fun hd => ?_, ?_⟩
    -- the stream was lost before, or is lost by this call, which had a key
    · rcases Bool.or_eq_true_iff.1 hd with hd | hl
      · exact h.lost hd
      · exact ⟨fun hn => Option.some_ne_none key (hk.symm.trans hn), hlost hl⟩
    · rintro _ _ ⟨⟩
      exact ⟨key, hk, hb'⟩

/-- Any call keeps a context in order. -/
lemma perform (h : c.Maintained backends) (call : Call) : (c.perform call).2.Maintained backends :=
  c.perform_cases (motive := fun _ r => r.2.Maintained backends) (fun _ _ => h)
    (fun _ hu => h.adopt hu) (fun direction data => h.process direction data) call

/-- Any run keeps a context in order. -/
lemma run (h : c.Maintained backends) (calls : List Call) :
    (c.run calls).2.Maintained backends :=
  run_keeps (P := fun c => c.Maintained backends) perform h calls

/-- A context in order is well-formed. -/
theorem wellFormed (h : c.Maintained backends) : c.WellFormed backends where
  offered := h.offered
  supports := h.valid.supports
  iv := h.valid.iv
  keyLength := h.keyLength
  key hk := (h.valid.key hk).normalized
  desynchronized := h.lost
  current := by
    intro hs
    cases hm : c.machinery with
    | current engine m =>
      obtain ⟨key, hk, hb⟩ := h.built hm
      exact ⟨engine, m, key, by rw [engine?, hm], rfl, hk, hb⟩
    | _ => exact absurd (fun e m he => by rw [hm] at he; cases he) hs

end Maintained

/-- A password gives bytes of the length that is set, if it is one that is accepted, and they make
the key. -/
lemma setPassword_eq (h : c.algorithm.acceptsKeyLength c.keyLength = true)
    {options : PasswordOptions} (hl : options.keyLength = none) (hm : options.method = .pbkdf2)
    (hi : options.iterations ≠ 0) (password : Bytes) :
    ∃ raw key, PasswordKey.derive options password c.keyLength = .ok raw ∧
      raw.length = c.keyLength ∧ c.algorithm.normalizeKey raw = .ok key ∧
      c.setPassword password options = .ok
        { c.outdate with key := some key, keyLength := key.length, desynchronized := false } := by
  obtain ⟨raw, hraw, hlen⟩ :=
    PasswordKey.pbkdf2_ok hi password options.salt options.hash c.keyLength
  have hderive : PasswordKey.derive options password c.keyLength = .ok raw := by
    rw [PasswordKey.derive_pbkdf2 hm, hraw]
  rw [← hlen] at h
  obtain ⟨key, hkey⟩ := Algorithm.normalizeKey_ok h
  refine ⟨raw, key, hderive, hlen, hkey, ?_⟩
  simp only [setPassword, hl, Option.getD_none, hderive, setKey, hkey]

/-- A password of PBKDF2 gives a key of the length that is set, unless there are to be no
iterations. -/
lemma setPassword_ok (h : c.algorithm.acceptsKeyLength c.keyLength = true)
    {options : PasswordOptions} (hl : options.keyLength = none) (hm : options.method = .pbkdf2)
    (hi : options.iterations ≠ 0) (password : Bytes) :
    ∃ c', c.setPassword password options = .ok c' := by
  obtain ⟨_, _, -, -, -, hset⟩ := setPassword_eq h hl hm hi password
  exact ⟨_, hset⟩

/-- A call with data always leaves a machine for the settings, if there is a key and the stream is
not lost. -/
lemma not_stale_process (h : c.settings.Valid) (hk : c.key ≠ none) (hd : c.desynchronized = false)
    (direction : Direction) (data : Bytes) : ¬(c.process direction data).2.Stale := by
  rcases c.process_cases direction data with ⟨e, hr, hsame⟩ | ⟨m, c', m', lost, hr, -, -, hleft⟩
  · rw [hsame]
    rcases of_ready_error h hr with ⟨hd', -⟩ | ⟨-, ⟨hn, -⟩ | ⟨engine, m, hm, -⟩⟩
    · rw [hd] at hd'
      cases hd'
    · exact absurd hn hk
    · exact fun hs => hs engine m hm
  · obtain ⟨-, key, engine, ledger, -, -, rfl⟩ := of_ready hr
    rw [hleft]
    exact fun hs => hs engine m' rfl

/-- Over any backends and through any run of calls a context is well-formed. A password then gives a
key of the length that is set, software can run whatever key there is, and a call with data finds or
builds a machine, unless there is no key or the stream is lost. -/
theorem wellFormed_run {algorithm : Algorithm} {mode : Mode} (h : algorithm.supports mode = true)
    (backends : List Backend) :
    ∃ c, create algorithm mode backends = .ok c ∧ ∀ calls, ∃ answers c',
      c.run calls = (answers, c') ∧ c'.WellFormed backends ∧
      (∀ (password : Bytes) (options : PasswordOptions), options.keyLength = none →
        options.method = .pbkdf2 → options.iterations ≠ 0 →
        c'.keyLength ≤ PasswordKey.maxBlocks * options.hash.outputSize →
        ∃ c'', c'.setPassword password options = .ok c'') ∧
      (∀ key, c'.key = some key →
        ∃ m, Machine.software c'.algorithm c'.mode key c'.iv = .ok m) ∧
      (c'.key ≠ none → c'.desynchronized = false →
        ∀ direction data, ¬(c'.process direction data).2.Stale) := by
  obtain ⟨c, hc, -⟩ := create_ok h backends
  refine ⟨c, hc, fun calls => ?_⟩
  have hrun := (Maintained.of_create hc).run calls
  refine ⟨_, _, rfl, hrun.wellFormed, fun password options hl hm hi _ =>
    setPassword_ok hrun.keyLength hl hm hi password, fun key hk => ?_,
    not_stale_process hrun.valid⟩
  obtain ⟨m, hm, -, -⟩ :=
    Machine.software_ok hrun.valid.supports (hrun.valid.key hk) hrun.valid.iv
  exact ⟨m, hm⟩

/-- A context of AES in CBC over the built-in backend is well-formed after any run of calls. -/
theorem wellFormed_run_aes :
    Algorithm.aes.supports .cbc = true ∧
    ∃ c, create .aes .cbc [.provider] = .ok c ∧ ∀ calls, ∃ answers c',
      c.run calls = (answers, c') ∧ c'.WellFormed [.provider] ∧
      (∀ (password : Bytes) (options : PasswordOptions), options.keyLength = none →
        options.method = .pbkdf2 → options.iterations ≠ 0 →
        c'.keyLength ≤ PasswordKey.maxBlocks * options.hash.outputSize →
        ∃ c'', c'.setPassword password options = .ok c'') ∧
      (∀ key, c'.key = some key →
        ∃ m, Machine.software c'.algorithm c'.mode key c'.iv = .ok m) ∧
      (c'.key ≠ none → c'.desynchronized = false →
        ∀ direction data, ¬(c'.process direction data).2.Stale) :=
  ⟨rfl, wellFormed_run rfl _⟩

end Context

end SymmetricCipher
