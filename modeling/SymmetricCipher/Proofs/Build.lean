import SymmetricCipher.Proofs.Selection
import SymmetricCipher.Proofs.Session

/-!
# Building machines

Whatever the selection is, a machine for a normalized key comes out of it, at the start of its
stream: a backend that fails is replaced by software, and software does not fail.
-/

namespace SymmetricCipher

namespace Backend

/-- Of the built-in backend it is asked that its suite is faithful. A simulated one computes with
the ciphers of this library. -/
def Faithful : Backend → Prop
  | provider suite => suite.Faithful
  | simulated _ => True

/-- Whether a backend is the built-in one, which fails on no call that a context makes. -/
def IsProvider : Backend → Prop
  | provider _ => True
  | simulated _ => False

end Backend

/-- The ciphers of the built-in backend agree with those of this library. -/
lemma Provider.agrees_of_cipher {suite : Suite} (hf : suite.Faithful) {algorithm : Algorithm}
    {key : Bytes} {cipher software : BlockCipher} (hk : algorithm.IsKey key)
    (hs : algorithm.blockCipher key = .ok software)
    (h : Provider.cipher algorithm key suite = .ok cipher) : cipher.Agrees software := by
  rw [Provider.cipher] at h
  split at h
  · split at h
    · cases h
      exact hf.agrees hk ‹_› hs
    · cases h
  · cases h

namespace Backend

variable {backend : Backend} {algorithm : Algorithm} {mode : Mode} {key iv : Bytes}
  {cipher software : BlockCipher}

/-- The single blocks of a backend agree with those of this library. -/
lemma agrees_of_rawBlock (hb : backend.Faithful) (hk : algorithm.IsKey key)
    (hs : algorithm.blockCipher key = .ok software)
    (h : backend.rawBlock algorithm key = .ok cipher) : cipher.Agrees software := by
  cases backend with
  | provider suite => exact Provider.agrees_of_cipher hb hk hs h
  | simulated s =>
    simp only [rawBlock, Simulated.rawBlock] at h
    split at h
    · cases h
    · rw [hs] at h
      cases h
      exact .refl _

/-- A session starts where the mode starts over a cipher that agrees. -/
lemma Opened.runsAs {ticket : Nat} {s : Session} (hb : backend.Faithful)
    (hk : algorithm.IsKey key) (hs : algorithm.blockCipher key = .ok software)
    (h : backend.Opened ticket algorithm mode key iv s) :
    ∃ cipher, cipher.Agrees software ∧
      (Machine.session s).RunsAs (.chained cipher (.start mode iv)) := by
  cases h with
  | @provider suite cipher chain keyed starts =>
    exact ⟨cipher, Provider.agrees_of_cipher hb hk hs keyed,
      .provider (s := ⟨suite, mode, cipher, chain⟩) hb rfl (Provider.Chain.matches_start starts)⟩
  | simulated works keyed =>
    cases hs.symm.trans keyed
    exact ⟨software, .refl _, .simulated _⟩

end Backend

/-- What is selected is one of the backends, for an algorithm that has a block cipher. -/
lemma Selection.mem_of_select {backends : List Backend} {algorithm : Algorithm} {mode : Mode}
    {keyLength : Nat} {preferred : Option Engine} {backend : Backend} {emulate : Bool}
    (h : select backends algorithm mode keyLength preferred = accelerated backend emulate) :
    backend ∈ backends ∧ mode ≠ .stream ∧ algorithm ≠ .tripleDesInnerCbc ∧ algorithm ≠ .rc4 := by
  obtain ⟨-, hmay, hfirst, -⟩ := select_eq_accelerated_iff.1 h
  exact ⟨hfirst.mem, hmay.2.1, hmay.2.2, hmay.ne_rc4⟩

namespace Machine

variable {algorithm : Algorithm} {mode : Mode} {key iv : Bytes}

/-- A mode over a block cipher starts at the start of its stream. -/
lemma Keyed.start {cipher software : BlockCipher} (hs : algorithm.blockCipher key = .ok software)
    (ha : cipher.Agrees software) (hm : mode ≠ .stream) (hiv : iv.length = algorithm.blockSize) :
    Keyed algorithm mode key (.chained cipher (.start mode iv)) := by
  refine @Keyed.chained _ _ _ _ (.start mode iv) hs ha hm ?_
  rw [ha.blockSize, Algorithm.blockSize_blockCipher hs, ← hiv]
  exact Duplex.fits_start mode iv

/-- Software takes every normalized key. -/
lemma software_ok (hs : algorithm.supports mode = true) (hk : algorithm.IsKey key)
    (hiv : iv.length = algorithm.blockSize) :
    ∃ m, software algorithm mode key iv = .ok m ∧ m.Keyed algorithm mode key ∧
      m.restart iv = .ok m := by
  -- the layered Triple DES and the stream cipher have machines of their own
  by_cases hi : algorithm = .tripleDesInnerCbc
  · subst hi
    obtain rfl : mode = .cbc := eq_of_beq hs
    obtain ⟨ciphers, hc⟩ := hk.innerLayers_ok
    obtain ⟨h1, h2, h3⟩ := TripleDes.blockSize_layers hc
    refine ⟨.layered ciphers ⟨.start .cbc iv, .start .cbc iv, .start .cbc iv⟩, ?_, ?_, rfl⟩
    · rw [software, hc]
    · exact .layered hc (.start (h1.trans hiv.symm) (h2.trans hiv.symm) (h3.trans hiv.symm))
  · by_cases hr : algorithm = .rc4
    · subst hr
      obtain rfl : mode = .stream := eq_of_beq hs
      obtain ⟨fresh, hf⟩ := hk.keystream_ok
      refine ⟨.keystream (.start fresh), ?_, .keystream hf, rfl⟩
      simp only [software, hf]
    · obtain ⟨cipher, hc⟩ := hk.blockCipher_ok hi hr
      have hm : mode ≠ .stream := by
        rintro rfl
        cases algorithm <;> first | exact hi rfl | exact hr rfl | cases hs
      refine ⟨.chained cipher (.start mode iv), ?_, .start hc (.refl cipher) hm hiv, rfl⟩
      cases algorithm with
      | tripleDesInnerCbc => exact absurd rfl hi
      | _ => cases mode <;> first | exact absurd rfl hm | simp only [software, hc]

/-- A machine on a backend starts as a machine over block ciphers does. -/
lemma accelerated_spec {backend : Backend} {emulate : Bool} {ticket : Nat} {m : Machine}
    (hb : backend.Faithful) (hk : algorithm.IsKey key) (hm : mode ≠ .stream)
    (hi : algorithm ≠ .tripleDesInnerCbc) (hr : algorithm ≠ .rc4)
    (hiv : iv.length = algorithm.blockSize)
    (h : accelerated backend emulate ticket algorithm mode key iv = .ok m) :
    ∃ core, m.RunsAs core ∧ core.Keyed algorithm mode key ∧ core.restart iv = .ok core := by
  obtain ⟨software, hs⟩ := hk.blockCipher_ok hi hr
  rcases accelerated_eq_ok_iff.1 h with ⟨-, cipher, hc, rfl⟩ | ⟨-, s, hopened, rfl⟩
  · have hkeyed := Keyed.start hs (Backend.agrees_of_rawBlock hb hk hs hc) hm hiv
    exact ⟨_, hkeyed.runsAs, hkeyed, rfl⟩
  · obtain ⟨cipher, hagrees, hruns⟩ := hopened.runsAs hb hk hs
    exact ⟨_, hruns, .start hs hagrees hm hiv, rfl⟩

/-- Whatever is selected, a machine for a normalized key is built. -/
lemma ofSelection_ok (hs : algorithm.supports mode = true) (hk : algorithm.IsKey key)
    (hiv : iv.length = algorithm.blockSize) (selection : Selection) (ticket : Nat) :
    ∃ r, ofSelection selection ticket algorithm mode key iv = .ok r := by
  obtain ⟨m, hm, -, -⟩ := software_ok hs hk hiv
  cases selection with
  | software =>
    refine ⟨(.software, m), ?_⟩
    rw [ofSelection, hm]
    rfl
  | accelerated backend emulate =>
    cases hacc : accelerated backend emulate ticket algorithm mode key iv with
    | error e =>
      refine ⟨(.software, m), ?_⟩
      simp only [ofSelection, hacc, hm]
      rfl
    | ok m =>
      refine ⟨(.accelerated, m), ?_⟩
      simp only [ofSelection, hacc]

/-- The machine for a selection runs on the backend that was selected, or on software. -/
lemma ofSelection_cases {selection : Selection} {ticket : Nat} {engine : Engine} {m : Machine}
    (h : ofSelection selection ticket algorithm mode key iv = .ok (engine, m)) :
    (engine = .software ∧ software algorithm mode key iv = .ok m) ∨
      engine = .accelerated ∧ ∃ backend emulate, selection = .accelerated backend emulate ∧
        accelerated backend emulate ticket algorithm mode key iv = .ok m := by
  have fallback (h : ((software algorithm mode key iv).map fun machine =>
      (Engine.software, machine)) = .ok (engine, m)) :
      engine = .software ∧ software algorithm mode key iv = .ok m := by
    cases hm : software algorithm mode key iv with
    | error e => rw [hm] at h; cases h
    | ok machine => rw [hm] at h; cases h; exact ⟨rfl, rfl⟩
  cases selection with
  | software => exact .inl (fallback h)
  | accelerated backend emulate =>
    cases hacc : accelerated backend emulate ticket algorithm mode key iv with
    | error e =>
      simp only [ofSelection, hacc] at h
      exact .inl (fallback h)
    | ok machine =>
      simp only [ofSelection, hacc] at h
      cases h
      exact .inr ⟨rfl, backend, emulate, rfl, hacc⟩

/-- The machine for a selection starts as a machine over block ciphers does. -/
lemma ofSelection_spec {backends : List Backend} (hb : ∀ b ∈ backends, b.Faithful)
    (hs : algorithm.supports mode = true) (hk : algorithm.IsKey key)
    (hiv : iv.length = algorithm.blockSize) {preferred : Option Engine} {ticket : Nat}
    {engine : Engine} {m : Machine}
    (h : ofSelection (Selection.select backends algorithm mode key.length preferred) ticket
      algorithm mode key iv = .ok (engine, m)) :
    ∃ core, m.RunsAs core ∧ core.Keyed algorithm mode key ∧ core.restart iv = .ok core := by
  rcases ofSelection_cases h with ⟨-, hsoft⟩ | ⟨-, backend, emulate, hsel, hacc⟩
  · obtain ⟨soft, hsoft', hkeyed, hstart⟩ := software_ok hs hk hiv
    cases hsoft.symm.trans hsoft'
    exact ⟨m, hkeyed.runsAs, hkeyed, hstart⟩
  · obtain ⟨hmem, hm, hi, hr⟩ := Selection.mem_of_select hsel
    exact accelerated_spec (hb backend hmem) hk hm hi hr hiv hacc

/-- A machine of software holds no session. -/
lemma ticket?_software {m : Machine} (h : software algorithm mode key iv = .ok m) :
    m.ticket? = none := by
  unfold software at h
  split at h <;> split at h <;> cases h <;> rfl

/-- The built-in backend has nothing to release. -/
lemma ticket?_accelerated {backend : Backend} (hb : backend.IsProvider) {emulate : Bool}
    {ticket : Nat} {m : Machine}
    (h : accelerated backend emulate ticket algorithm mode key iv = .ok m) : m.ticket? = none := by
  rcases accelerated_eq_ok_iff.1 h with ⟨-, cipher, -, rfl⟩ | ⟨-, s, hopened, rfl⟩
  · rfl
  · cases hopened with
    | provider keyed starts => rfl
    | simulated works keyed => cases hb

/-- A machine that comes out of a selection among built-in backends holds nothing to release. -/
lemma ticket?_ofSelection {backends : List Backend} (hb : ∀ b ∈ backends, b.IsProvider)
    {preferred : Option Engine} {ticket : Nat} {engine : Engine} {m : Machine}
    (h : ofSelection (Selection.select backends algorithm mode key.length preferred) ticket
      algorithm mode key iv = .ok (engine, m)) : m.ticket? = none := by
  rcases ofSelection_cases h with ⟨-, hsoft⟩ | ⟨-, backend, emulate, hsel, hacc⟩
  · exact ticket?_software hsoft
  · exact ticket?_accelerated (hb backend (Selection.mem_of_select hsel).1) hacc

end Machine

end SymmetricCipher
