import SymmetricCipher.Context.Summary
import SymmetricCipher.Proofs.Processing

/-!
# Contexts refine the reference

A context whose backends do not fail answers every call as the reference context does, whatever the
order of the calls. The simulation is `Context.Follows`. Two contexts that follow the same reference
cannot be told apart by their answers, which is why the built-in backend may take the place of
software.
-/

namespace SymmetricCipher

namespace Context

/-- A context whose machine cannot fail. -/
structure Reliable (c : Context) : Prop where
  synchronized : c.desynchronized = false
  backends : ∀ b ∈ c.backends, b.IsProvider
  holds : ∀ {engine : Engine} {m : Machine}, c.machinery = .current engine m → m.ticket? = none

/-- A context that does what a reference context does. -/
structure Follows (c : Context) (r : Reference) : Prop where
  settings : c.settings = r.settings
  sound : c.Sound r.logs
  reliable : c.Reliable

namespace Reliable

variable {c c' : Context} {logs : Logs} {m : Machine}

/-- The machine of a reliable context is ready as soon as there is a key. -/
lemma of_ready_error (h : c.Reliable) (hs : c.Sound logs) {e : CipherError}
    (hr : c.ready = .error e) : c.key = none ∧ e = .keyNotSet := by
  rcases Context.of_ready_error hs.valid hr with ⟨hd, -⟩ | ⟨-, hk | ⟨engine, m, hm, hrestart⟩⟩
  · rw [h.synchronized] at hd
    cases hd
  · exact hk
  · obtain ⟨key, core, -, hruns, hkeyed, -⟩ := hs.serves hm
    obtain ⟨m', hok⟩ := hruns.restart_ok hkeyed (h.holds hm) hs.valid.iv
    cases hok.symm.trans hrestart

/-- A machine that is ready in a reliable context holds nothing to release. -/
lemma ticket?_of_readies (h : c.Reliable) {key : Bytes} {engine : Engine}
    (hr : c.Readies key engine m) : m.ticket? = none := by
  cases hr with
  | kept current => exact h.holds current
  | restarted current restart => rw [Machine.ticket?_restart restart, h.holds current]
  | built stale selected => exact Machine.ticket?_ofSelection h.backends selected

/-- A machine that cannot fail keeps a context reliable. -/
lemma of_ticket? (h : c.Reliable) (hm : m.ticket? = none) (engine : Engine) (ledger : Ledger) :
    Reliable { c with machinery := .current engine m, restarting := false, ledger := ledger } := by
  refine ⟨h.synchronized, h.backends, ?_⟩
  rintro _ _ ⟨⟩
  exact hm

/-- A reliable context answers a call with data as its settings and its logs demand. -/
lemma process (h : c.Reliable) (hs : c.Sound logs) (direction : Direction) (data : Bytes) :
    (c.process direction data).1 =
        c.settings.respond (c.settings.opening logs direction) direction data ∧
      (c.process direction data).2.Follows
        ⟨c.settings, c.settings.record (c.settings.opening logs) direction data⟩ := by
  cases hr : c.ready with
  | error e =>
    -- without a key both refuse, whatever the data is
    obtain ⟨hk, rfl⟩ := h.of_ready_error hs hr
    have ha : c.settings.accept direction data = .error .keyNotSet := by
      have hk : c.settings.key = none := hk
      rw [Settings.accept, hk]
    rw [(process_of_error hr).1, Settings.respond, Settings.record, ha]
    exact ⟨rfl, rfl, hs.opening, h⟩
  | ok r =>
    obtain ⟨m, c'⟩ := r
    obtain ⟨-, key, engine, ledger, -, hready, -⟩ := of_ready hr
    obtain ⟨engine, m', ledger, -, ht, hp, hs'⟩ :=
      hs.process_of_ticket? hr (h.ticket?_of_readies hready) direction data
    rw [hp] at hs' ⊢
    exact ⟨rfl, rfl, hs', h.of_ticket? ht engine ledger⟩

/-- Settings make no machine fail. -/
lemma adopt (h : c.Reliable) (call : Call) (s : Settings) : (c.adopt call s).Reliable := by
  refine ⟨?_, h.backends, fun hm => ?_⟩
  · rw [Context.adopt, h.synchronized, Bool.false_and]
  · cases he : call.effect with
    | rebuild =>
      simp only [Context.adopt, he] at hm
      cases hc : c.machinery with
      | _ => rw [hc] at hm; cases hm
    | _ =>
      simp only [Context.adopt, he] at hm
      exact h.holds hm

end Reliable

/-- A context answers a call with data as its reference does, and follows it on. -/
lemma Follows.process {c : Context} {s : Settings} {logs : Logs} (h : c.Follows ⟨s, logs⟩)
    (direction : Direction) (data : Bytes) :
    (c.process direction data).1 = s.respond (s.opening logs direction) direction data ∧
      (c.process direction data).2.Follows ⟨s, s.record (s.opening logs) direction data⟩ := by
  obtain ⟨rfl, hs, hr⟩ := h
  exact hr.process hs direction data

/-- A context follows its reference through every call, with the same answer. -/
theorem Follows.perform {c : Context} {r : Reference} (h : c.Follows r) (call : Call) :
    (c.perform call).1 = (r.perform call).1 ∧ (c.perform call).2.Follows (r.perform call).2 := by
  obtain ⟨settings, logs⟩ := r
  obtain ⟨rfl, hs, hr⟩ := h
  refine c.perform_cases (motive := fun call r => r.1 = (Reference.perform _ call).1 ∧
    r.2.Follows (Reference.perform _ call).2) ?_ ?_ ?_ call
  · intro call e hc hu
    rw [Reference.perform_setting _ hc, hu]
    exact ⟨rfl, rfl, hs, hr⟩
  · intro call s hc hu
    rw [Reference.perform_setting _ hc, hu]
    exact ⟨rfl, rfl, hs.adopt hu, hr.adopt call s⟩
  · intro direction data
    obtain ⟨ha, hf⟩ := hr.process hs direction data
    exact ⟨congrArg (Except.map some) ha, hf⟩

/-- A context follows its reference through every run of calls, with the same answers. -/
theorem Follows.run {c : Context} {r : Reference} (h : c.Follows r) (calls : List Call) :
    (c.run calls).1 = (r.run calls).1 ∧ (c.run calls).2.Follows (r.run calls).2 := by
  induction calls generalizing c r with
  | nil => exact ⟨rfl, h⟩
  | cons call calls ih =>
    obtain ⟨ha, hf⟩ := h.perform call
    obtain ⟨has, hfs⟩ := ih hf
    simp only [Context.run, Reference.run, mapState_cons] at has hfs ⊢
    rw [ha, has]
    exact ⟨rfl, hfs⟩

/-- No single pass that the reference asks for fails. -/
lemma Follows.total {c : Context} {r : Reference} (h : c.Follows r) : r.Total := by
  intro direction data key x ha
  obtain ⟨settings, logs⟩ := r
  obtain ⟨rfl, hs, hrel⟩ := h
  have hkey : c.key = some key := (Settings.of_accept ha).1
  cases hr : c.ready with
  | error e =>
    rw [(hrel.of_ready_error hs hr).1] at hkey
    cases hkey
  | ok r =>
    obtain ⟨-, key', engine, ledger, hk, hready, -⟩ := of_ready hr
    cases hk.symm.trans hkey
    obtain ⟨core, hserves⟩ := hs.serves_of_readies hk hready
    exact hserves.oneShot_ok ha

/-- A context over built-in backends follows the reference from the start. -/
lemma Follows.of_created {c : Context} {algorithm : Algorithm} {mode : Mode}
    {backends : List Backend} (h : c.Created algorithm mode backends)
    (hf : ∀ b ∈ backends, b.Faithful) (hp : ∀ b ∈ backends, b.IsProvider) :
    c.Follows (.create algorithm mode) := by
  refine ⟨h.settings, .of_created h hf, h.synchronized, by rw [h.backends]; exact hp,
    fun hm => ?_⟩
  rw [h.machinery] at hm
  cases hm

/-- What software can run is a matter of the settings. -/
lemma isValidEngine_software_congr {c d : Context} (h : c.settings = d.settings) :
    c.isValidEngine .software = d.isValidEngine .software := by
  have ha : c.algorithm = d.algorithm := congrArg Settings.algorithm h
  have hm : c.mode = d.mode := congrArg Settings.mode h
  simp only [isValidEngine, Selection.isValid, ha, hm]

/-- The summaries of contexts with the same settings differ in the engine at most. -/
lemma summary_of_settings {c d : Context} (h : c.settings = d.settings) :
    ∃ front back, c.summary = front ++ c.engineSummary ++ back ∧
      d.summary = front ++ d.engineSummary ++ back := by
  have ha : c.algorithm = d.algorithm := congrArg Settings.algorithm h
  have hm : c.mode = d.mode := congrArg Settings.mode h
  have hk : c.key = d.key := congrArg Settings.key h
  have hc : c.continuous = d.continuous := congrArg Settings.continuous h
  have hp : c.padding = d.padding := congrArg Settings.padding h
  refine ⟨_, _, rfl, ?_⟩
  rw [ha, hm, hk, hc, hp]
  rfl

/-! ## Main results -/

/-- A context over software alone and the reference context give the same answers to the same calls,
in any number and order, and have the same settings then. The single passes of the reference are
always there to answer with. -/
theorem run_software_eq_reference {algorithm : Algorithm} {mode : Mode}
    (h : algorithm.supports mode = true) :
    ∃ c, Context.create algorithm mode [] = .ok c ∧ ∀ calls, ∃ answers c' r,
      c.run calls = (answers, c') ∧ (Reference.create algorithm mode).run calls = (answers, r) ∧
      c'.settings = r.settings ∧ r.Total := by
  obtain ⟨c, hc, hcreated⟩ := create_ok h []
  refine ⟨c, hc, fun calls => ?_⟩
  obtain ⟨ha, hf'⟩ := (Follows.of_created hcreated nofun nofun).run calls
  exact ⟨_, _, _, Prod.ext ha rfl, rfl, hf'.settings, hf'.total⟩

/-- Software AES in CBC is such a context. -/
theorem run_software_eq_reference_aes :
    Algorithm.aes.supports .cbc = true ∧
    ∃ c, Context.create .aes .cbc [] = .ok c ∧ ∀ calls, ∃ answers c' r,
      c.run calls = (answers, c') ∧ (Reference.create .aes .cbc).run calls = (answers, r) ∧
      c'.settings = r.settings ∧ r.Total :=
  ⟨rfl, run_software_eq_reference rfl⟩

/-- A context over the built-in backend and a context over software alone give the same answers to
the same calls, whatever engine is asked for in between. They have the same settings then, and their
summaries differ in the engine at most. -/
theorem run_provider_eq_run_software {suite : Provider.Suite} (hf : suite.Faithful)
    {algorithm : Algorithm} {mode : Mode} (h : algorithm.supports mode = true) :
    ∃ p s, Context.create algorithm mode [.provider suite] = .ok p ∧
      Context.create algorithm mode [] = .ok s ∧ ∀ calls, ∃ answers p' s',
        p.run calls = (answers, p') ∧ s.run calls = (answers, s') ∧
        p'.settings = s'.settings ∧
        p'.isValidEngine .software = s'.isValidEngine .software ∧
        ∃ front back, p'.summary = front ++ p'.engineSummary ++ back ∧
          s'.summary = front ++ s'.engineSummary ++ back := by
  have hfaithful : ∀ b ∈ [Backend.provider suite], b.Faithful := by
    intro b hb
    cases List.mem_singleton.1 hb
    exact hf
  have hprovider : ∀ b ∈ [Backend.provider suite], b.IsProvider := by
    intro b hb
    cases List.mem_singleton.1 hb
    trivial
  obtain ⟨p, hp, hcp⟩ := create_ok h [.provider suite]
  obtain ⟨s, hs, hcs⟩ := create_ok h []
  refine ⟨p, s, hp, hs, fun calls => ?_⟩
  obtain ⟨hap, hfp'⟩ := (Follows.of_created hcp hfaithful hprovider).run calls
  obtain ⟨has, hfs'⟩ := (Follows.of_created hcs nofun nofun).run calls
  have hsettings := hfp'.settings.trans hfs'.settings.symm
  exact ⟨_, _, _, Prod.ext hap rfl, Prod.ext has rfl, hsettings,
    isValidEngine_software_congr hsettings, summary_of_settings hsettings⟩

/-- The ciphers of this library make such a backend. -/
theorem run_provider_eq_run_software_standard :
    Provider.Suite.standard.Faithful ∧ Algorithm.aes.supports .cbc = true ∧
    ∃ p s, Context.create .aes .cbc [.provider .standard] = .ok p ∧
      Context.create .aes .cbc [] = .ok s ∧ ∀ calls, ∃ answers p' s',
        p.run calls = (answers, p') ∧ s.run calls = (answers, s') ∧
        p'.settings = s'.settings ∧
        p'.isValidEngine .software = s'.isValidEngine .software ∧
        ∃ front back, p'.summary = front ++ p'.engineSummary ++ back ∧
          s'.summary = front ++ s'.engineSummary ++ back :=
  ⟨Provider.Suite.faithful_standard, rfl,
    run_provider_eq_run_software Provider.Suite.faithful_standard rfl⟩

end Context

end SymmetricCipher
