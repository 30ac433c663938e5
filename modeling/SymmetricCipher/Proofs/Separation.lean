import SymmetricCipher.Proofs.Cipher.Invertible
import SymmetricCipher.Proofs.Stepping

/-!
# Directions apart

The two directions of a machine never see each other. Machines that are the same for a direction,
`Machine.SameFor`, give the same answers in it and stay the same for it, and a call in the opposite
direction leaves them so. In three layers the directions cross: the middle layer decrypts where the
other two encrypt, so that each direction has three of the six states to itself. From this follows,
for two runs side by side, that the answers of a direction are those of a run without any data of
the other one: `Machine.run_separates`.

Neither do refused calls leave a trace. The layers take the data one after the other, and keep what
they took; `Machine.apply_layered_eq_callLayers` says that none of them refuses what the one before
it has passed on.
-/

namespace SymmetricCipher

/-! ## Two runs side by side -/

/-- The results of the inputs that are picked. -/
def picked {α β : Type} (p : α → Bool) (xs : List α) (ys : List β) : List β :=
  ((xs.zip ys).filter fun xy => p xy.1).map (·.2)

section picked

variable {α β : Type} {p : α → Bool} {x : α} {y : β} {xs : List α} {ys : List β}

/-- The result of an input that is picked comes first. -/
lemma picked_cons_of_pos (h : p x = true) :
    picked p (x :: xs) (y :: ys) = y :: picked p xs ys := by
  have hp : ((x, y) :: xs.zip ys).filter (fun xy => p xy.1) =
      (x, y) :: (xs.zip ys).filter fun xy => p xy.1 :=
    List.filter_cons_of_pos h
  rw [picked, List.zip_cons_cons, hp, List.map_cons, picked]

/-- The result of any other input is left out. -/
lemma picked_cons_of_neg (h : p x = false) : picked p (x :: xs) (y :: ys) = picked p xs ys := by
  have hp : ((x, y) :: xs.zip ys).filter (fun xy => p xy.1) =
      (xs.zip ys).filter fun xy => p xy.1 :=
    List.filter_cons_of_neg (Bool.not_eq_true _ ▸ h)
  rw [picked, List.zip_cons_cons, hp, picked]

end picked

/-- Two systems are run side by side, the second on the picked inputs only. If the other inputs keep
the first system related to the second, and the picked ones give the same results and keep the two
related, then the picked results are those of the second run. -/
lemma mapState_picked {σ τ α β : Type} {step : σ → α → β × σ} {step' : τ → α → β × τ}
    {R : σ → τ → Prop} {p : α → Bool} {Q : α → Prop}
    (skip : ∀ s t x, Q x → p x = false → R s t → R (step s x).2 t)
    (pick : ∀ s t x, Q x → p x = true → R s t →
      (step s x).1 = (step' t x).1 ∧ R (step s x).2 (step' t x).2)
    {s : σ} {t : τ} (h : R s t) (xs : List α) (hxs : ∀ x ∈ xs, Q x) :
    picked p xs (mapState step s xs).1 = (mapState step' t (xs.filter p)).1 ∧
      R (mapState step s xs).2 (mapState step' t (xs.filter p)).2 := by
  induction xs generalizing s t with
  | nil => exact ⟨rfl, h⟩
  | cons x xs ih =>
    have hx := hxs x List.mem_cons_self
    have htail : ∀ y ∈ xs, Q y := fun y hy => hxs y (List.mem_cons_of_mem x hy)
    rw [mapState_cons]
    cases hp : p x with
    | false =>
      rw [picked_cons_of_neg hp, List.filter_cons_of_neg (by rw [hp]; exact nofun)]
      exact ih (skip s t x hx hp h) htail
    | true =>
      obtain ⟨hout, hnext⟩ := pick s t x hx hp h
      obtain ⟨hres, hrel⟩ := ih hnext htail
      rw [picked_cons_of_pos hp, List.filter_cons_of_pos hp, mapState_cons, hout, hres]
      exact ⟨rfl, hrel⟩

/-- Two systems refuse for the same reason, or give the same and stay related. -/
inductive Alike {ε σ τ β : Type} (R : σ → τ → Prop) :
    Except ε (β × σ) → Except ε (β × τ) → Prop where
  | error (e : ε) : Alike R (.error e) (.error e)
  | ok (out : β) {s : σ} {t : τ} (related : R s t) : Alike R (.ok (out, s)) (.ok (out, t))

/-- Systems that are alike stay alike if what is done next is. -/
lemma Alike.bind {ε σ τ σ' τ' β γ : Type} {R : σ → τ → Prop} {R' : σ' → τ' → Prop}
    {x : Except ε (β × σ)} {y : Except ε (β × τ)} (h : Alike R x y)
    {f : β × σ → Except ε (γ × σ')} {g : β × τ → Except ε (γ × τ')}
    (hfg : ∀ out s t, R s t → Alike R' (f (out, s)) (g (out, t))) :
    Alike R' (x >>= f) (y >>= g) := by
  cases h with
  | error e => exact .error e
  | ok out related => exact hfg out _ _ related

/-! ## States that are the same for a direction -/

/-- Two duplexes have the same mode, and the same state of a direction. -/
def Duplex.SameFor (direction : Direction) (d e : Duplex) : Prop :=
  d.mode = e.mode ∧ d.state direction = e.state direction

namespace Duplex.SameFor

variable {direction : Direction} {d e : Duplex}

/-- What a call answers, and where it leaves the state of its direction, depends on the mode and on
that state only. -/
lemma apply (h : d.SameFor direction e) (cipher : BlockCipher) (data : Bytes) :
    Alike (SameFor direction) (d.apply cipher direction data) (e.apply cipher direction data) := by
  obtain ⟨hm, hs⟩ := h
  rw [Duplex.apply, Duplex.apply, hm, hs]
  split
  · exact .error _
  · cases runMode e.mode cipher direction (e.state direction) data with
    | error x => exact .error x
    | ok r =>
      refine .ok r.1 ⟨?_, ?_⟩
      · rw [mode_setState, mode_setState, hm]
      · rw [state_setState_self, state_setState_self]

/-- A call in another direction is nothing to this one. -/
lemma apply_other (h : d.SameFor direction e) {cipher : BlockCipher} {other : Direction}
    {data out : Bytes} {d' : Duplex} (hrun : d.apply cipher other data = .ok (out, d'))
    (ho : direction ≠ other) : d'.SameFor direction e := by
  obtain ⟨hm, hs⟩ := Duplex.apply_other hrun direction ho
  exact ⟨hm.trans h.1, hs.trans h.2⟩

end Duplex.SameFor

/-- Three duplexes are the same for a direction of the layers, which the middle one runs the other
way. -/
def TripleDes.Layers.SameFor (direction : Direction) (d e : Layers Duplex) : Prop :=
  d.first.SameFor direction e.first ∧ d.second.SameFor direction.opposite e.second ∧
    d.third.SameFor direction e.third

namespace TripleDes.Layers.SameFor

variable {direction : Direction} {d e : Layers Duplex}

/-- Three layers answer alike from the same states, as the middle one runs the other way. -/
lemma applyLayers (h : d.SameFor direction e) (ciphers : Layers BlockCipher) (data : Bytes) :
    Alike (SameFor direction) (Machine.applyLayers ciphers d direction data)
      (Machine.applyLayers ciphers e direction data) := by
  obtain ⟨h1, h2, h3⟩ := h
  cases direction with
  | encrypt =>
    refine (h1.apply ciphers.first data).bind fun a first first' h1' => ?_
    refine (h2.apply ciphers.second a).bind fun b second second' h2' => ?_
    refine (h3.apply ciphers.third b).bind fun out third third' h3' => ?_
    exact .ok out ⟨h1', h2', h3'⟩
  | decrypt =>
    refine (h3.apply ciphers.third data).bind fun a third third' h3' => ?_
    refine (h2.apply ciphers.second a).bind fun b second second' h2' => ?_
    refine (h1.apply ciphers.first b).bind fun out first first' h1' => ?_
    exact .ok out ⟨h1', h2', h3'⟩

/-- The directions cross in the middle layer, and so a call in the opposite direction touches the
other three of the six states. -/
lemma applyLayers_opposite (h : d.SameFor direction e) {ciphers : Layers BlockCipher}
    {data out : Bytes} {d' : Layers Duplex}
    (hrun : Machine.applyLayers ciphers d direction.opposite data = .ok (out, d')) :
    d'.SameFor direction e := by
  obtain ⟨h1, h2, h3⟩ := h
  cases direction with
  | encrypt =>
    obtain ⟨a, b, e3, e2, e1⟩ := Machine.applyLayers_decrypt_iff.1 hrun
    exact ⟨h1.apply_other e1 nofun, h2.apply_other e2 nofun, h3.apply_other e3 nofun⟩
  | decrypt =>
    obtain ⟨a, b, e1, e2, e3⟩ := Machine.applyLayers_encrypt_iff.1 hrun
    exact ⟨h1.apply_other e1 nofun, h2.apply_other e2 nofun, h3.apply_other e3 nofun⟩

end TripleDes.Layers.SameFor

/-- Where the keystream of a direction stands. -/
def StreamDuplex.state (d : StreamDuplex) : Direction → Rc4
  | .encrypt => d.encrypting
  | .decrypt => d.decrypting

namespace Machine

/-- Two machines run the same, and are in the same state for a direction. -/
inductive SameFor (direction : Direction) : Machine → Machine → Prop where
  | chained {cipher : BlockCipher} {d e : Duplex} (same : d.SameFor direction e) :
      SameFor direction (.chained cipher d) (.chained cipher e)
  | layered {ciphers : TripleDes.Layers BlockCipher} {d e : TripleDes.Layers Duplex}
      (same : d.SameFor direction e) : SameFor direction (.layered ciphers d) (.layered ciphers e)
  | keystream {d e : StreamDuplex} (fresh : d.fresh = e.fresh)
      (state : d.state direction = e.state direction) :
      SameFor direction (.keystream d) (.keystream e)

/-- Whether a step bears on a direction: its own data does, and every restart. -/
def Step.concerns (direction : Direction) : Step → Bool
  | .process other _ => other == direction
  | .restart _ => true

variable {kind : Kind} {m n : Machine} {direction : Direction} {iv : Bytes}

namespace SameFor

/-- A machine is the same as itself. -/
lemma refl (h : kind.Runs m) (direction : Direction) : m.SameFor direction m := by
  cases h with
  | chained => exact .chained ⟨rfl, rfl⟩
  | layered => exact .layered ⟨⟨rfl, rfl⟩, ⟨rfl, rfl⟩, ⟨rfl, rfl⟩⟩
  | keystream => exact .keystream rfl rfl

/-- What a call answers depends on the states of its own direction only. -/
lemma apply (h : m.SameFor direction n) (data : Bytes) :
    (m.apply direction data).1 = (n.apply direction data).1 ∧
      (m.apply direction data).2.SameFor direction (n.apply direction data).2 := by
  cases h with
  | @chained cipher d e same =>
    have halike := same.apply cipher data
    simp only [Machine.apply]
    revert halike
    generalize d.apply cipher direction data = x
    generalize e.apply cipher direction data = y
    rintro (_ | ⟨_, same'⟩)
    · exact ⟨rfl, .chained same⟩
    · exact ⟨rfl, .chained same'⟩
  | @layered ciphers d e same =>
    have halike := same.applyLayers ciphers data
    simp only [Machine.apply]
    revert halike
    generalize applyLayers ciphers d direction data = x
    generalize applyLayers ciphers e direction data = y
    rintro (_ | ⟨_, same'⟩)
    · exact ⟨rfl, .layered same⟩
    · exact ⟨rfl, .layered same'⟩
  | @keystream d e fresh state =>
    cases direction with
    | encrypt =>
      have state : d.encrypting = e.encrypting := state
      simp only [Machine.apply, StreamDuplex.apply, state]
      exact ⟨trivial, .keystream fresh rfl⟩
    | decrypt =>
      have state : d.decrypting = e.decrypting := state
      simp only [Machine.apply, StreamDuplex.apply, state]
      exact ⟨trivial, .keystream fresh rfl⟩

/-- A call in the opposite direction touches none of the states of this one. -/
lemma apply_opposite (h : m.SameFor direction n) (data : Bytes) :
    (m.apply direction.opposite data).2.SameFor direction n := by
  cases h with
  | @chained cipher d e same =>
    cases hrun : d.apply cipher direction.opposite data with
    | error x =>
      simp only [Machine.apply, hrun]
      exact .chained same
    | ok r =>
      simp only [Machine.apply, hrun]
      exact .chained (same.apply_other hrun direction.opposite_ne.symm)
  | @layered ciphers d e same =>
    cases hrun : applyLayers ciphers d direction.opposite data with
    | error x =>
      simp only [Machine.apply, hrun]
      exact .layered same
    | ok r =>
      simp only [Machine.apply, hrun]
      exact .layered (same.applyLayers_opposite hrun)
  | keystream fresh state =>
    cases direction with
    | encrypt => exact .keystream fresh state
    | decrypt => exact .keystream fresh state

/-- A step that does not bear on the direction touches none of its states. -/
lemma perform_left (h : m.SameFor direction n) {step : Step}
    (hc : step.concerns direction = false) : (m.perform step).2.SameFor direction n := by
  cases step with
  | process other data =>
    rcases direction.eq_or_eq_opposite other with rfl | rfl
    · rw [Step.concerns, beq_self_eq_true] at hc
      cases hc
    · exact h.apply_opposite data
  | restart iv => cases hc

/-- A step that bears on the direction is answered alike. -/
lemma perform (h : m.SameFor direction n) (hm : kind.Runs m) (hn : kind.Runs n) {step : Step}
    (hstep : ∀ iv, step = .restart iv → kind.TakesIv iv) (hc : step.concerns direction = true) :
    (m.perform step).1 = (n.perform step).1 ∧
      (m.perform step).2.SameFor direction (n.perform step).2 := by
  cases step with
  | process other data =>
    obtain rfl : other = direction := eq_of_beq hc
    exact h.apply data
  | restart iv =>
    rw [Machine.perform, Machine.perform, hm.restart iv, hn.restart iv]
    exact ⟨rfl, .refl (Kind.runs_start (hstep iv rfl)) direction⟩

/-- Steps that do not bear on the direction may be left out of a run. -/
lemma run (h : m.SameFor direction n) (hm : kind.Runs m) (hn : kind.Runs n) {steps : List Step}
    (hsteps : ∀ iv, .restart iv ∈ steps → kind.TakesIv iv) :
    picked (Step.concerns direction) steps (m.run steps).1 =
        (n.run (steps.filter (Step.concerns direction))).1 ∧
      (m.run steps).2.SameFor direction (n.run (steps.filter (Step.concerns direction))).2 := by
  have hruns : picked (Step.concerns direction) steps (m.run steps).1 =
        (n.run (steps.filter (Step.concerns direction))).1 ∧
      kind.Runs (m.run steps).2 ∧ kind.Runs (n.run (steps.filter (Step.concerns direction))).2 ∧
      (m.run steps).2.SameFor direction (n.run (steps.filter (Step.concerns direction))).2 := by
    refine mapState_picked (R := fun m n => kind.Runs m ∧ kind.Runs n ∧ m.SameFor direction n)
      (Q := fun step => ∀ iv, step = .restart iv → kind.TakesIv iv) ?_ ?_ ⟨hm, hn, h⟩ steps
      fun step hmem iv e => hsteps iv (e ▸ hmem)
    · rintro m n step hstep hc ⟨hm, hn, h⟩
      exact ⟨hm.perform hstep, hn, h.perform_left hc⟩
    · rintro m n step hstep hc ⟨hm, hn, h⟩
      obtain ⟨hanswer, hnext⟩ := h.perform hm hn hstep hc
      exact ⟨hanswer, hm.perform hstep, hn.perform hstep, hnext⟩
  exact ⟨hruns.1, hruns.2.2.2⟩

end SameFor

/-! ## Main results -/

/-- Runs data through three layers one after the other. A layer that refuses ends the call, and the
layers before it keep what they took. -/
def callLayers (ciphers : TripleDes.Layers BlockCipher) (d : TripleDes.Layers Duplex) :
    Direction → Bytes → Except CipherError Bytes × TripleDes.Layers Duplex
  | .encrypt, data =>
    match d.first.apply ciphers.first .encrypt data with
    | .error e => (.error e, d)
    | .ok (a, first) =>
      match d.second.apply ciphers.second .decrypt a with
      | .error e => (.error e, { d with first := first })
      | .ok (b, second) =>
        match d.third.apply ciphers.third .encrypt b with
        | .error e => (.error e, { d with first := first, second := second })
        | .ok (out, third) => (.ok out, ⟨first, second, third⟩)
  | .decrypt, data =>
    match d.third.apply ciphers.third .decrypt data with
    | .error e => (.error e, d)
    | .ok (a, third) =>
      match d.second.apply ciphers.second .encrypt a with
      | .error e => (.error e, { d with third := third })
      | .ok (b, second) =>
        match d.first.apply ciphers.first .decrypt b with
        | .error e => (.error e, { d with second := second, third := third })
        | .ok (out, first) => (.ok out, ⟨first, second, third⟩)

/-- The first layer to see the data is the only one that ever refuses it, and so a call of the
layers that is refused has touched none of them. -/
theorem apply_layered_eq_callLayers {ciphers : TripleDes.Layers BlockCipher}
    {d : TripleDes.Layers Duplex} (h : kind.Runs (.layered ciphers d)) (direction : Direction)
    (data : Bytes) :
    (layered ciphers d).apply direction data =
      ((callLayers ciphers d direction data).1,
        layered ciphers (callLayers ciphers d direction data).2) := by
  cases h with
  | layered hsecond hthird chained =>
    by_cases ha : Mode.cbc.Aligned ciphers.first.blockSize data
    · obtain ⟨out, d', hrun, -, -⟩ :=
        applyLayers_ok chained ⟨rfl, hsecond, hthird⟩ direction ha
      rw [apply_layered_iff.2 ⟨d', hrun, rfl⟩]
      cases direction with
      | encrypt =>
        obtain ⟨a, b, e1, e2, e3⟩ := applyLayers_encrypt_iff.1 hrun
        simp only [callLayers, e1, e2, e3]
      | decrypt =>
        obtain ⟨a, b, e3, e2, e1⟩ := applyLayers_decrypt_iff.1 hrun
        simp only [callLayers, e1, e2, e3]
    · -- the layers have blocks of one size, and the outer one refuses
      cases direction with
      | encrypt =>
        cases hrun : d.first.apply ciphers.first .encrypt data with
        | error e => simp only [apply, applyLayers, bind, Except.bind, callLayers, hrun]
        | ok r =>
          have hfirst := (Duplex.apply_eq_ok_iff.1 hrun).1
          rw [chained.mode_first] at hfirst
          exact absurd hfirst ha
      | decrypt =>
        cases hrun : d.third.apply ciphers.third .decrypt data with
        | error e => simp only [apply, applyLayers, bind, Except.bind, callLayers, hrun]
        | ok r =>
          have hlast := (Duplex.apply_eq_ok_iff.1 hrun).1
          rw [chained.mode_third, hthird] at hlast
          exact absurd hlast ha

/-- In any interleaving of steps, the answers of a direction and the states that it ends in are
those of the run without the data of the other direction. A call that is refused changes nothing, in
three layers because none but the outer one ever refuses, and a restart is a start for the new
initialization vector. -/
theorem run_separates (hiv : kind.TakesIv iv) {steps : List Step}
    (hsteps : ∀ iv, .restart iv ∈ steps → kind.TakesIv iv) (direction : Direction) :
    ∃ answers m n, (kind.start iv).run steps = (answers, m) ∧
      (kind.start iv).run (steps.filter (Step.concerns direction)) =
        (picked (Step.concerns direction) steps answers, n) ∧
      m.SameFor direction n ∧
      (∀ other data e m', m.apply other data = (.error e, m') → m' = m) ∧
      (∀ ciphers d, m = layered ciphers d → ∀ other data, m.apply other data =
        ((callLayers ciphers d other data).1,
          layered ciphers (callLayers ciphers d other data).2)) ∧
      ∀ iv, m.restart iv = .ok (kind.start iv) := by
  have hstart := Kind.runs_start hiv
  have hm := hstart.run hsteps
  obtain ⟨hanswers, hsame⟩ := (SameFor.refl hstart direction).run hstart hstart hsteps
  refine ⟨_, _, _, rfl, Prod.ext hanswers.symm rfl, hsame,
    fun _ _ _ _ he => eq_of_apply_error hm he, fun ciphers d hd other data => ?_, hm.restart⟩
  have hlayered : kind.Runs (layered ciphers d) := hd ▸ hm
  exact hd ▸ apply_layered_eq_callLayers hlayered other data

/-- Three DES layers under a key each. -/
def Kind.desLayers : Kind :=
  .layered ⟨Des.cipherOf (Des.roundKeys [0x13, 0x34, 0x57, 0x79, 0x9b, 0xbc, 0xdf, 0xf1]),
    Des.cipherOf (Des.roundKeys [1, 2, 3, 4, 5, 6, 7, 8]),
    Des.cipherOf (Des.roundKeys [0x0e, 0x32, 0x92, 0x32, 0xea, 0x6d, 0x0d, 0x73])⟩

/-- Calls in both directions, one of them of a length that is refused, and a restart between
them. -/
def mixedSteps : List Step :=
  [.process .encrypt (List.replicate 8 1), .process .decrypt (List.replicate 16 2),
    .process .encrypt [3], .restart (List.replicate 8 0), .process .decrypt (List.replicate 8 4)]

/-- Three DES layers decrypt as if there were nothing between. -/
theorem run_separates_des :
    Kind.desLayers.TakesIv (List.replicate 8 7) ∧
    (∀ iv, .restart iv ∈ mixedSteps → Kind.desLayers.TakesIv iv) ∧
    ∃ answers m n,
      (Kind.desLayers.start (List.replicate 8 7)).run mixedSteps = (answers, m) ∧
      (Kind.desLayers.start (List.replicate 8 7)).run
          [.process .decrypt (List.replicate 16 2), .restart (List.replicate 8 0),
            .process .decrypt (List.replicate 8 4)] =
        (picked (Step.concerns .decrypt) mixedSteps answers, n) ∧
      m.SameFor .decrypt n := by
  have hiv : Kind.desLayers.TakesIv (List.replicate 8 7) := ⟨rfl, rfl, rfl⟩
  have hsteps : ∀ iv, .restart iv ∈ mixedSteps → Kind.desLayers.TakesIv iv := by
    intro iv hmem
    rcases hmem with _ | ⟨_, _ | ⟨_, _ | ⟨_, _ | ⟨_, _ | ⟨_, ⟨⟩⟩⟩⟩⟩⟩
    exact ⟨rfl, rfl, rfl⟩
  obtain ⟨answers, m, n, hrun, hpicked, hsame, -⟩ := run_separates hiv hsteps .decrypt
  exact ⟨hiv, hsteps, answers, m, n, hrun, hpicked, hsame⟩

end Machine

end SymmetricCipher
