import SymmetricCipher.Proofs.Separation
import SymmetricCipher.Proofs.Session

/-!
# Sessions of the built-in backend

A session with the built-in backend and a duplex over the same cipher chain blocks each on their
own: the one makes a new chain for a restart, the other sets its registers back. They stay in step
through any list of steps, `Machine.InStep`, and so give the same bytes. Of the suite it is asked
only that it chains a single block as CBC does; whatever the cipher is, both run the same one.

A session refuses data that is not made of whole blocks, as a duplex does, and a restart in CBC for
an initialization vector of another length, which a duplex must not be asked for. `Step.isTaken`
tells such steps from the others. What is refused leaves both as they are.
-/

namespace SymmetricCipher

/-- Whether a step is taken in a block mode: data of whole blocks, and a restart for an
initialization vector of one block, or for any in ECB. -/
def Machine.Step.isTaken (mode : Mode) (blockSize : Nat) : Step → Bool
  | process _ data => data.length % blockSize == 0
  | restart iv => mode == .ecb || iv.length == blockSize

namespace Provider.Chain

variable {mode : Mode} {n : Nat} {iv : Bytes}

/-- A restart that is taken finds a chain. -/
lemma start_of_isTaken (hm : mode = .ecb ∨ mode = .cbc)
    (h : (Machine.Step.restart iv).isTaken mode n = true) :
    ∃ chain, Chain.start mode n iv = .ok chain := by
  rcases hm with rfl | rfl
  · exact ⟨_, rfl⟩
  · exact start_ok rfl (eq_of_beq h)

/-- Any other restart fails. -/
lemma start_of_not_isTaken (hm : mode = .ecb ∨ mode = .cbc)
    (h : (Machine.Step.restart iv).isTaken mode n = false) :
    ∃ reason, Chain.start mode n iv = .error (.backendFailed name reason) := by
  rcases hm with rfl | rfl
  · cases h
  · exact ⟨_, if_neg (ne_of_beq_false h)⟩

end Provider.Chain

namespace Machine

/-- A machine on a session with the built-in backend, and a machine over the cipher of that session
that runs the same mode and holds the same masks. -/
inductive InStep (mode : Mode) (cipher : BlockCipher) : Machine → Machine → Prop where
  | intro {s : Provider.Session} {duplex : Duplex} (chainsBlocks : s.suite.ChainsBlocks)
      (cipher_eq : s.cipher = cipher) (mode_eq : s.mode = mode) (mode_duplex : duplex.mode = mode)
      (chain : s.chain.Matches duplex) (fits : mode = .cbc → duplex.Fits cipher.blockSize) :
      InStep mode cipher (.session (.provider s)) (.chained cipher duplex)

namespace InStep

variable {mode : Mode} {cipher : BlockCipher} {m n : Machine} {step : Step}

/-- A step that is taken is answered alike. -/
lemma perform (h : InStep mode cipher m n) (hm : mode = .ecb ∨ mode = .cbc)
    (ht : step.isTaken mode cipher.blockSize = true) :
    ∃ out m' n', m.perform step = (.ok out, m') ∧ n.perform step = (.ok out, n') ∧
      InStep mode cipher m' n' := by
  obtain @⟨s, duplex, hs, rfl, rfl, hmode, hchain, hfits⟩ := h
  cases step with
  | process direction data =>
    have ha : data.length % s.cipher.blockSize = 0 := eq_of_beq ht
    obtain ⟨out, chain, duplex', hout, happly, hmode', hmatch⟩ :=
      Provider.Session.transform_eq hs hchain (fun hcbc => hfits (hmode.symm.trans hcbc))
        direction ha
    refine ⟨out, _, _, ?_, apply_chained_iff.2 ⟨duplex', happly, rfl⟩,
      .intro (s := { s with chain := chain }) hs rfl rfl (hmode'.trans hmode) hmatch
        fun hcbc => (hfits hcbc).apply happly⟩
    simp only [Machine.perform, Machine.apply, Session.transform, hout]
  | restart iv =>
    obtain ⟨chain, hc⟩ := Provider.Chain.start_of_isTaken hm ht
    have hmatch : chain.Matches (duplex.reset iv) := by
      rw [Duplex.reset, hmode]
      exact Provider.Chain.matches_start hc
    refine ⟨[], _, _, ?_, rfl,
      .intro (s := { s with chain := chain }) hs rfl rfl hmode hmatch fun hcbc => ?_⟩
    · simp only [Machine.perform, restart_session_iff.2 ⟨_, .provider hc, rfl⟩]
    · have hiv : iv.length = s.cipher.blockSize := by
        rw [hcbc] at ht
        exact eq_of_beq ht
      exact hiv ▸ Duplex.fits_start _ iv

/-- Any other step is a failure of the backend, and changes nothing. -/
lemma perform_refused (h : InStep mode cipher m n) (hm : mode = .ecb ∨ mode = .cbc)
    (ht : step.isTaken mode cipher.blockSize = false) :
    ∃ reason, m.perform step = (.error (.backendFailed Provider.name reason), m) := by
  obtain @⟨s, duplex, -, rfl, rfl, -⟩ := h
  cases step with
  | process direction data =>
    have hs : ∃ reason,
        s.transform direction data = .error (.backendFailed Provider.name reason) :=
      ⟨_, if_pos (ne_of_beq_false ht)⟩
    obtain ⟨reason, hs⟩ := hs
    refine ⟨reason, ?_⟩
    simp only [Machine.perform, Machine.apply, Session.transform, hs]
  | restart iv =>
    obtain ⟨reason, hc⟩ := Provider.Chain.start_of_not_isTaken hm ht
    refine ⟨reason, ?_⟩
    simp only [Machine.perform, Machine.restart, Session.restart, Provider.Session.restart, hc]
    rfl

/-- Through any steps the two stay in step, the second one without those that are refused. -/
lemma run (h : InStep mode cipher m n) (hm : mode = .ecb ∨ mode = .cbc) (steps : List Step) :
    picked (Step.isTaken mode cipher.blockSize) steps (m.run steps).1 =
        (n.run (steps.filter (Step.isTaken mode cipher.blockSize))).1 ∧
      InStep mode cipher (m.run steps).2
        (n.run (steps.filter (Step.isTaken mode cipher.blockSize))).2 := by
  refine mapState_picked (Q := fun _ => True) ?_ ?_ h steps fun _ _ => trivial
  · intro m n step _ ht h
    obtain ⟨reason, hm'⟩ := h.perform_refused hm ht
    rwa [hm']
  · intro m n step _ ht h
    obtain ⟨out, m', n', hm', hn', h'⟩ := h.perform hm ht
    rw [hm', hn']
    exact ⟨rfl, h'⟩

end InStep

end Machine

/-! ## Main result -/

namespace Provider.Session

variable {suite : Suite} {algorithm : Algorithm} {key iv : Bytes} {cipher : BlockCipher}
  {mode : Mode}

/-- A vector of one block opens a session in the modes that the backend has. -/
lemma init_ok (hk : Provider.cipher algorithm key suite = .ok cipher)
    (hm : mode = .ecb ∨ mode = .cbc) (hiv : iv.length = cipher.blockSize) :
    ∃ chain, Chain.start mode cipher.blockSize iv = .ok chain ∧
      init suite algorithm mode key iv = .ok ⟨suite, mode, cipher, chain⟩ := by
  have hblock : mode.isBlockMode = true := by rcases hm with rfl | rfl <;> rfl
  obtain ⟨chain, hc⟩ := Chain.start_ok hblock hiv
  refine ⟨chain, hc, ?_⟩
  simp only [init, hk, hc]

/-- A session that is opened for an initialization vector of one block answers the steps that it
takes as a duplex over its cipher does that goes through the same steps, and the two end with the
same masks. Every other step is a failure of the backend and changes nothing, and the duplex refuses
such data without a trace as well. -/
theorem init_run_eq_duplex_run (hs : suite.ChainsBlocks)
    (hk : Provider.cipher algorithm key suite = .ok cipher) (hm : mode = .ecb ∨ mode = .cbc)
    (hiv : iv.length = cipher.blockSize) :
    ∃ s, init suite algorithm mode key iv = .ok s ∧ ∀ steps : List Machine.Step,
      ∃ answers s' duplex', (Machine.session (.provider s)).run steps =
          (answers, .session (.provider s')) ∧
        (Machine.chained cipher (.start mode iv)).run
            (steps.filter (Machine.Step.isTaken mode cipher.blockSize)) =
          (picked (Machine.Step.isTaken mode cipher.blockSize) steps answers,
            .chained cipher duplex') ∧
        s'.chain.Matches duplex' ∧
        (∀ step, step.isTaken mode cipher.blockSize = true →
          ∃ out m', (Machine.session (.provider s')).perform step = (.ok out, m')) ∧
        (∀ step, step.isTaken mode cipher.blockSize = false →
          ∃ reason, (Machine.session (.provider s')).perform step =
            (.error (.backendFailed name reason), .session (.provider s'))) ∧
        ∀ direction data, data.length % cipher.blockSize ≠ 0 →
          (Machine.chained cipher duplex').apply direction data =
            (.error (.misalignedInput data.length cipher.blockSize), .chained cipher duplex') := by
  obtain ⟨chain, hc, hinit⟩ := init_ok hk hm hiv
  refine ⟨_, hinit, fun steps => ?_⟩
  have hstart : Machine.InStep mode cipher (.session (.provider ⟨suite, mode, cipher, chain⟩))
      (.chained cipher (.start mode iv)) :=
    .intro hs rfl rfl rfl (Chain.matches_start hc) fun _ => hiv ▸ Duplex.fits_start mode iv
  obtain ⟨hanswers, hend⟩ := hstart.run hm steps
  rcases hrun : (Machine.session (.provider ⟨suite, mode, cipher, chain⟩)).run steps with
    ⟨answers, m⟩
  rcases hrun' : (Machine.chained cipher (.start mode iv)).run
    (steps.filter (Machine.Step.isTaken mode cipher.blockSize)) with ⟨answers', n⟩
  rw [hrun, hrun'] at hanswers hend
  obtain rfl : _ = answers' := hanswers
  have h := hend
  obtain @⟨s', duplex', -, -, -, -, hmatch, -⟩ := hend
  refine ⟨answers, s', duplex', rfl, rfl, hmatch, fun step ht => ?_,
    fun step ht => h.perform_refused hm ht, fun direction data ha => ?_⟩
  · obtain ⟨out, m', -, hstep, -⟩ := h.perform hm ht
    exact ⟨out, m', hstep⟩
  · simp only [Machine.apply, Duplex.apply, if_pos (And.intro hmatch.isBlockMode ha)]

/-- A session with DES in CBC, where a call that breaks off inside a block and a restart for half a
block stand between the others. -/
theorem init_run_eq_duplex_run_des :
    Suite.standard.ChainsBlocks ∧
    Provider.cipher .des (List.replicate 8 1) .standard =
      .ok (Des.cipherOf (Des.roundKeys (List.replicate 8 1))) ∧
    (Mode.cbc = .ecb ∨ Mode.cbc = .cbc) ∧ (List.replicate 8 7 : Bytes).length = 8 ∧
    ∃ s, init .standard .des .cbc (List.replicate 8 1) (List.replicate 8 7) = .ok s ∧
      ∃ answers s' duplex', (Machine.session (.provider s)).run
          [.process .encrypt (List.replicate 16 2), .process .encrypt [3, 4, 5],
            .restart [0, 0, 0, 0], .process .encrypt (List.replicate 8 6)] =
          (answers, .session (.provider s')) ∧
        (Machine.chained (Des.cipherOf (Des.roundKeys (List.replicate 8 1)))
            (.start .cbc (List.replicate 8 7))).run
            [.process .encrypt (List.replicate 16 2), .process .encrypt (List.replicate 8 6)] =
          (picked (Machine.Step.isTaken .cbc 8)
            [.process .encrypt (List.replicate 16 2), .process .encrypt [3, 4, 5],
              .restart [0, 0, 0, 0], .process .encrypt (List.replicate 8 6)] answers,
            .chained (Des.cipherOf (Des.roundKeys (List.replicate 8 1))) duplex') ∧
        s'.chain.Matches duplex' ∧
        ∃ reason, (Machine.session (.provider s')).perform (.restart [0, 0, 0, 0]) =
          (.error (.backendFailed name reason), .session (.provider s')) := by
  have hs : Suite.standard.ChainsBlocks := Suite.faithful_standard.chainsBlocks
  have hk : Provider.cipher .des (List.replicate 8 1) .standard =
      .ok (Des.cipherOf (Des.roundKeys (List.replicate 8 1))) := rfl
  have hm : Mode.cbc = .ecb ∨ Mode.cbc = .cbc := .inr rfl
  obtain ⟨s, hinit, hrun⟩ := init_run_eq_duplex_run hs hk hm
    (show (List.replicate 8 7 : Bytes).length = _ from rfl)
  obtain ⟨answers, s', duplex', hsteps, htaken, hmatch, -, hrefused, -⟩ := hrun
    [.process .encrypt (List.replicate 16 2), .process .encrypt [3, 4, 5], .restart [0, 0, 0, 0],
      .process .encrypt (List.replicate 8 6)]
  exact ⟨hs, hk, hm, rfl, s, hinit, answers, s', duplex', hsteps, htaken, hmatch,
    hrefused (.restart [0, 0, 0, 0]) rfl⟩

end Provider.Session

end SymmetricCipher
