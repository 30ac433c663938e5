import SymmetricCipher.Proofs.Refusals

/-!
# The engine in use

A context tells which engine it uses, once it has built a machine for its settings. What it tells is
the truth after every run: `Context.engine?_perform` says what a call makes of it, and from that it
follows which call the engine dates from, and why it is this one. `Context.Supplied` ties the engine
to the machine, and so to whoever computes the data.
-/

namespace SymmetricCipher

/-! ## Where a machine comes from -/

namespace Machine

/-- What a machine becomes by running data and by going back to the start. -/
inductive Becomes (start : Machine) : Machine → Prop where
  | same : Becomes start start
  | applied {m : Machine} (h : Becomes start m) (direction : Direction) (data : Bytes) :
      Becomes start (m.apply direction data).2
  | restarted {m m' : Machine} (h : Becomes start m) {iv : Bytes} (hr : m.restart iv = .ok m') :
      Becomes start m'

end Machine

namespace Context

variable {c c' : Context} {m start : Machine} {engine : Engine} {key : Bytes} {call : Call}
  {direction : Direction} {data : Bytes}

/-- What is selected for the key. -/
def selection (c : Context) (key : Bytes) : Selection :=
  Selection.select c.backends c.algorithm c.mode key.length c.preferred

/-- The backend that is selected opens a session or, where it is to stand in for the mode, gives
single blocks. -/
def Opens (c : Context) : Prop :=
  ∃ key, c.key = some key ∧
    match c.selection key with
    | .software => False
    | .accelerated backend false =>
      ∃ s, backend.init c.close.ledger.nextTicket c.algorithm c.mode key c.iv = .ok s
    | .accelerated backend true => ∃ cipher, backend.rawBlock c.algorithm key = .ok cipher

/-- A machine that an engine starts with under the settings: of this library, or of the backend that
is selected. -/
def Provides (c : Context) : Engine → Machine → Prop
  | .software, start =>
    ∃ key iv, c.key = some key ∧ Machine.software c.algorithm c.mode key iv = .ok start
  | .accelerated, start =>
    ∃ key iv backend emulate ticket, c.key = some key ∧
      c.selection key = .accelerated backend emulate ∧
      Machine.accelerated backend emulate ticket c.algorithm c.mode key iv = .ok start

/-- All that a selection is made by. -/
structure SameChoice (c' c : Context) : Prop where
  backends : c'.backends = c.backends
  algorithm : c'.algorithm = c.algorithm
  mode : c'.mode = c.mode
  key : c'.key = c.key
  preferred : c'.preferred = c.preferred

/-! ## Calls -/

/-- A call with data that is not turned away for want of a key or for a lost stream. -/
def Engages (c : Context) : Call → Prop
  | .process direction data =>
    (c.process direction data).1 ≠ .error .keyNotSet ∧
      (c.process direction data).1 ≠ .error .streamDesynchronized
  | _ => False

/-- A setting that the machine has to be built again for, and that is not refused. -/
def Outdates (c : Context) (call : Call) : Prop :=
  call.effect = .rebuild ∧ ∃ answer, (c.perform call).1 = .ok answer

/-- A setting takes up no data. -/
lemma not_engages (h : call.IsSetting) : ¬c.Engages call := by
  cases call with
  | process direction data => exact h.elim
  | _ => exact id

/-- Data does not outdate a machine. -/
lemma not_outdates_process : ¬c.Outdates (.process direction data) := fun h => nomatch h.1

/-- Nothing is known of an engine while there is no machine for the settings. -/
lemma engine?_eq_none_iff : c.engine? = none ↔ c.Stale := by
  rw [engine?, Stale]
  cases c.machinery with
  | current engine m => exact ⟨nofun, fun h => absurd rfl (h engine m)⟩
  | _ =>
    refine ⟨fun _ engine m h => ?_, fun _ => rfl⟩
    cases h

/-- An engine is told exactly if it runs a machine for the settings. -/
lemma engine?_eq_some_iff : c.engine? = some engine ↔ ∃ m, c.machinery = .current engine m := by
  rw [engine?]
  cases c.machinery with
  | current engine' m =>
    constructor
    · rintro ⟨⟩
      exact ⟨m, rfl⟩
    · rintro ⟨m', ⟨⟩⟩
      rfl
  | _ =>
    refine ⟨fun h => ?_, fun ⟨m, h⟩ => ?_⟩
    all_goals cases h

/-- A setting outdates the machine if it is one of those that do so and is not refused. -/
lemma outdates_setting_iff (h : call.IsSetting) :
    c.Outdates call ↔ call.effect = .rebuild ∧ ∃ s, c.settings.update call = .ok s := by
  rw [Outdates, perform_setting c h]
  refine and_congr_right fun _ => ?_
  cases c.settings.update call with
  | error e =>
    refine ⟨fun ⟨answer, h⟩ => ?_, fun ⟨s, h⟩ => ?_⟩
    all_goals cases h
  | ok s => exact ⟨fun _ => ⟨s, rfl⟩, fun _ => ⟨none, rfl⟩⟩

/-- What a call makes of the engine that is told. -/
inductive EngineStep (c : Context) (call : Call) (after : Option Engine) : Prop where
  | outdated (outdates : c.Outdates call) (told : after = none)
  | kept (keeps : ¬c.Outdates call) (idle : ¬(c.engine? = none ∧ c.Engages call))
    (told : after = c.engine?)
  | built {key : Bytes} {engine : Engine} {m : Machine} (keeps : ¬c.Outdates call)
    (stale : c.engine? = none) (engages : c.Engages call) (hk : c.key = some key)
    (selected : c.selected key c.close.ledger.nextTicket = .ok (engine, m))
    (told : after = some engine)

/-- Data is turned away, and changes nothing, or it finds a machine for the settings, or it builds
one. -/
lemma engine?_process (hv : c.settings.Valid) (direction : Direction) (data : Bytes) :
    c.EngineStep (.process direction data) (c.process direction data).2.engine? := by
  by_cases he : c.Engages (.process direction data)
  · rcases c.process_cases direction data with
      ⟨e, hr, hsame⟩ | ⟨m, c', m', lost, hr, -, -, hleft⟩
    · -- it is a restart that is refused, and so there is a machine
      have hanswer : (c.process direction data).1 = .error e :=
        congrArg Prod.fst (process_of_error hr).1
      rcases of_ready_error hv hr with ⟨-, rfl⟩ | ⟨-, ⟨-, rfl⟩ | ⟨engine, m, hm, -⟩⟩
      · exact absurd hanswer he.2
      · exact absurd hanswer he.1
      · refine .kept not_outdates_process (fun h => ?_) (by rw [hsame])
        exact engine?_eq_none_iff.1 h.1 engine m hm
    · obtain ⟨-, key, engine, hk, hcases⟩ := ready_cases hr
      rw [hleft]
      rcases hcases with ⟨hm, -, -, rfl⟩ | ⟨old, hm, -, -, rfl⟩ | ⟨hstale, hselected, rfl⟩
      · refine .kept not_outdates_process (fun h => ?_) ?_
        · exact engine?_eq_none_iff.1 h.1 engine m hm
        · simp only [engine?, keep, Machinery.replace, hm]
      · refine .kept not_outdates_process (fun h => ?_) ?_
        · exact engine?_eq_none_iff.1 h.1 engine old hm
        · simp only [engine?, keep, Machinery.replace, hm]
      · exact .built not_outdates_process (engine?_eq_none_iff.2 hstale) he hk hselected rfl
  · refine .kept not_outdates_process (fun h => he h.2) ?_
    rw [Engages, not_and_or, not_not, not_not] at he
    rcases he with he | he
    · rw [process_of_unready (.inl rfl) he]
    · rw [process_of_unready (.inr rfl) he]

/-- A call outdates the machine, or builds one that is missing, or leaves the engine as it is. -/
lemma engine?_perform (hv : c.settings.Valid) (call : Call) :
    c.EngineStep call (c.perform call).2.engine? := by
  refine c.perform_cases (motive := fun call r => c.EngineStep call r.2.engine?) ?_ ?_
    (fun direction data => engine?_process hv direction data) call
  · intro call e hc hu
    refine .kept ?_ (fun h => not_engages hc h.2) rfl
    rw [outdates_setting_iff hc, hu]
    rintro ⟨-, s, ⟨⟩⟩
  · intro call s hc hu
    by_cases he : call.effect = .rebuild
    · refine .outdated ((outdates_setting_iff hc).2 ⟨he, s, hu⟩) ?_
      simp only [engine?, adopt, he]
      cases c.machinery <;> rfl
    · refine .kept (fun h => he h.1) (fun h => not_engages hc h.2) ?_
      simp only [engine?, adopt]

/-- Only what outdates a machine changes what is selected. -/
lemma sameChoice_perform (h : ¬c.Outdates call) : (c.perform call).2.SameChoice c := by
  refine c.perform_cases (motive := fun call r => ¬c.Outdates call → r.2.SameChoice c) ?_ ?_ ?_
    call h
  · exact fun _ _ _ => ⟨rfl, rfl, rfl, rfl, rfl⟩
  · intro call s hc hu hn
    cases he : call.effect with
    | none =>
      obtain ⟨keyLength, padding, rfl⟩ := Settings.update_of_effect_none hu he
      exact ⟨rfl, rfl, rfl, rfl, rfl⟩
    | restart =>
      obtain ⟨iv, rfl⟩ := Settings.update_of_effect_restart hu he
      exact ⟨rfl, rfl, rfl, rfl, rfl⟩
    | rebuild => exact absurd ((outdates_setting_iff hc).2 ⟨he, s, hu⟩) hn
  · intro direction data _
    rcases c.process_cases direction data with
      ⟨e, -, hsame⟩ | ⟨m, c', m', lost, hr, -, -, hleft⟩
    · rw [hsame]
      exact ⟨rfl, rfl, rfl, rfl, rfl⟩
    · obtain ⟨-, key, engine, ledger, -, -, rfl⟩ := of_ready hr
      rw [hleft]
      exact ⟨rfl, rfl, rfl, rfl, rfl⟩

/-! ## Why it is this engine -/

/-- Once there is a key, the length of the next one is not asked for. -/
lemma SameChoice.isValidEngine (h : c'.SameChoice c) (hk : c.key = some key) (engine : Engine) :
    c'.isValidEngine engine = c.isValidEngine engine := by
  have hk' : c'.key = some key := h.key.trans hk
  simp only [Context.isValidEngine, effectiveKeyLength, hk, hk', h.backends, h.algorithm, h.mode]

/-- Some backend is selected exactly if software is not preferred and an accelerated engine could
run the mode. -/
lemma selection_accelerated_iff (hk : c.key = some key) :
    (∃ backend emulate, c.selection key = .accelerated backend emulate) ↔
      c.preferred ≠ some .software ∧ c.isValidEngine .accelerated = true := by
  have hvalid : c.isValidEngine .accelerated = true ↔ ∃ backend emulate,
      Selection.select c.backends c.algorithm c.mode key.length none =
        .accelerated backend emulate := by
    rw [Context.isValidEngine, effectiveKeyLength, hk, Selection.isValid_accelerated_iff,
      Selection.engine_eq_accelerated_iff]
  have hnone : (none : Option Engine) ≠ some .software := (Option.some_ne_none _).symm
  simp only [hvalid, selection, Selection.select_eq_accelerated_iff, and_iff_right hnone,
    exists_and_left]

/-- A backend opens exactly if a machine can be built on it. -/
lemma opens_iff (hk : c.key = some key) :
    c.Opens ↔ ∃ backend emulate m, c.selection key = .accelerated backend emulate ∧
      Machine.accelerated backend emulate c.close.ledger.nextTicket c.algorithm c.mode key c.iv =
        .ok m := by
  have hkey : c.Opens ↔
      match c.selection key with
      | .software => False
      | .accelerated backend false =>
        ∃ s, backend.init c.close.ledger.nextTicket c.algorithm c.mode key c.iv = .ok s
      | .accelerated backend true => ∃ cipher, backend.rawBlock c.algorithm key = .ok cipher := by
    simp only [Opens, hk, Option.some.injEq, exists_eq_left']
  rw [hkey]
  cases c.selection key with
  | software => simp
  | accelerated backend emulate =>
    simp only [Selection.accelerated.injEq, and_assoc, exists_and_left, exists_eq_left']
    cases emulate <;> simp [Machine.accelerated_eq_ok_iff, Backend.init_eq_ok_iff]

/-- A machine is built on the backend that is selected if there is one and it opens. -/
lemma eq_accelerated_iff_of_selected (hk : c.key = some key)
    (hs : c.selected key c.close.ledger.nextTicket = .ok (engine, m)) :
    engine = .accelerated ↔
      c.preferred ≠ some .software ∧ c.isValidEngine .accelerated = true ∧ c.Opens := by
  rw [← and_assoc, ← selection_accelerated_iff hk, opens_iff hk]
  constructor
  · rintro rfl
    rcases Machine.ofSelection_cases hs with ⟨⟨⟩, -⟩ | ⟨-, backend, emulate, hsel, hacc⟩
    exact ⟨⟨backend, emulate, hsel⟩, backend, emulate, m, hsel, hacc⟩
  · rintro ⟨-, backend, emulate, m', hsel, hacc⟩
    have hsel : Selection.select c.backends c.algorithm c.mode key.length c.preferred =
      .accelerated backend emulate := hsel
    simp only [selected, Machine.ofSelection, hsel, hacc] at hs
    cases hs
    rfl

/-! ## Who computes the data -/

/-- What an engine starts with depends on the choice only. -/
lemma Provides.congr (hp : c.Provides engine start) (h : c'.SameChoice c) :
    c'.Provides engine start := by
  cases engine with
  | software =>
    obtain ⟨key, iv, hk, hm⟩ := hp
    refine ⟨key, iv, h.key.trans hk, ?_⟩
    rw [h.algorithm, h.mode]
    exact hm
  | accelerated =>
    obtain ⟨key, iv, backend, emulate, ticket, hk, hsel, hm⟩ := hp
    refine ⟨key, iv, backend, emulate, ticket, h.key.trans hk, ?_, ?_⟩
    · rw [selection, h.backends, h.algorithm, h.mode, h.preferred]
      exact hsel
    · rw [h.algorithm, h.mode]
      exact hm

/-- No engine starts without a key. -/
lemma Provides.key_eq (hp : c.Provides engine start) : ∃ key, c.key = some key := by
  cases engine with
  | software => exact ⟨hp.choose, hp.choose_spec.choose_spec.1⟩
  | accelerated =>
    obtain ⟨key, -, -, -, -, hk, -⟩ := hp
    exact ⟨key, hk⟩

/-- What is built for a selection is what its engine starts with. -/
lemma provides_of_selected (hk : c.key = some key) {ticket : Nat}
    (hs : c.selected key ticket = .ok (engine, m)) : c.Provides engine m := by
  rcases Machine.ofSelection_cases hs with
    ⟨rfl, hsoft⟩ | ⟨rfl, backend, emulate, hsel, hacc⟩
  · exact ⟨key, c.iv, hk, hsoft⟩
  · exact ⟨key, c.iv, backend, emulate, ticket, hk, hsel, hacc⟩

/-- The machine for the settings comes from what its engine starts with. -/
def Supplied (c : Context) : Prop :=
  ∀ {engine : Engine} {m : Machine}, c.machinery = .current engine m →
    ∃ start : Machine, c.Provides engine start ∧ start.Becomes m

namespace Supplied

/-- A machine that is made ready comes from what its engine starts with. -/
lemma ready (h : c.Supplied) (hr : c.ready = .ok (m, c')) :
    ∃ engine start, c.Provides engine start ∧ start.Becomes m ∧
      c'.machinery = .current engine m := by
  obtain ⟨-, key, engine, ledger, hk, hready, rfl⟩ := of_ready hr
  cases hready with
  | kept current continuous continues =>
    obtain ⟨start, hp, hb⟩ := h current
    exact ⟨engine, start, hp, hb, rfl⟩
  | restarted current restart starts =>
    obtain ⟨start, hp, hb⟩ := h current
    exact ⟨engine, start, hp, hb.restarted restart, rfl⟩
  | built stale selected => exact ⟨engine, m, provides_of_selected hk selected, .same, rfl⟩

/-- Data leaves such a machine. -/
lemma process (h : c.Supplied) (direction : Direction) (data : Bytes) :
    (c.process direction data).2.Supplied := by
  have hsame : (c.process direction data).2.SameChoice c :=
    sameChoice_perform not_outdates_process
  intro engine m hm
  rcases c.process_cases direction data with ⟨e, -, heq⟩ | ⟨m', c', m'', lost, hr, hran, -, hleft⟩
  · rw [heq] at hm
    obtain ⟨start, hp, hb⟩ := h hm
    exact ⟨start, hp.congr hsame, hb⟩
  · obtain ⟨engine', start, hp, hb, hcurrent⟩ := h.ready hr
    rw [hleft, keep, hcurrent] at hm
    cases hm
    refine ⟨start, hp.congr hsame, ?_⟩
    rcases hran with rfl | ⟨x, rfl⟩
    · exact hb
    · exact hb.applied direction x

/-- Every call leaves such a machine: a setting that would change the choice outdates it. -/
lemma perform (h : c.Supplied) (call : Call) : (c.perform call).2.Supplied := by
  refine c.perform_cases (motive := fun _ r => r.2.Supplied) (fun _ _ => h) ?_
    (fun direction data => h.process direction data) call
  intro call s hc hu engine m hm
  by_cases ho : c.Outdates call
  · -- what is outdated does not count
    simp only [adopt, ho.1] at hm
    cases hc : c.machinery with
    | _ => rw [hc] at hm; cases hm
  · have he : call.effect ≠ .rebuild := fun he => ho ((outdates_setting_iff hc).2 ⟨he, s, hu⟩)
    have hsame := sameChoice_perform ho
    rw [perform_setting c hc, hu] at hsame
    simp only [adopt] at hm
    obtain ⟨start, hp, hb⟩ := h hm
    exact ⟨start, hp.congr hsame, hb⟩

/-- Every run leaves such a machine. -/
lemma run (h : c.Supplied) (calls : List Call) : (c.run calls).2.Supplied :=
  run_keeps (P := Supplied) perform h calls

/-- Data that is answered was computed by what the engine started with that is told afterwards. -/
lemma computes (h : c.Supplied) {out : Bytes} (ho : (c.process direction data).1 = .ok out) :
    ∃ engine start m raw, (c.process direction data).2.engine? = some engine ∧
      c.Provides engine start ∧ start.Becomes m ∧
      (m.apply direction (c.settings.prepare direction data)).1 = .ok raw ∧
      c.settings.finish direction raw = .ok out := by
  have hends := c.process_ends direction data
  generalize c.process direction data = r at ho hends ⊢
  cases hends with
  | unready hr => cases ho
  | refused hr ha => cases ho
  | failed hr ha hm => cases ho
  | @passed m m' c' key x raw hr ha hm =>
    obtain ⟨engine, start, hp, hb, hcurrent⟩ := h.ready hr
    obtain ⟨-, rfl, -⟩ := Settings.of_accept ha
    refine ⟨engine, start, m, raw, ?_, hp, hb, congrArg Prod.fst hm, ho⟩
    show (c'.keep m' false).engine? = some engine
    rw [engine?, keep, hcurrent]
    rfl

end Supplied

/-! ## Main result -/

/-- What a context tells of its engine, after the calls of a run. -/
structure TellsEngine (c : Context) (calls : List Call) : Prop where
  /-- No engine is told exactly if no data was taken up since the last setting that outdates
  machines. -/
  pending : (c.run calls).2.engine? = none ↔ ¬c.Since Engages Outdates calls
  /-- An engine dates from data that found none. It is the backend if software is not preferred, if
  an accelerated engine could run the mode, and if the backend that is selected opened then. -/
  built : ∀ {engine : Engine}, (c.run calls).2.engine? = some engine →
    c.Since (fun origin call => origin.engine? = none ∧ origin.Engages call ∧
      (engine = .accelerated ↔ (c.run calls).2.preferred ≠ some .software ∧
        (c.run calls).2.isValidEngine .accelerated = true ∧ origin.Opens)) Outdates calls
  /-- Data that is answered is computed by the engine that is told afterwards: by a machine of this
  library, or by one of the backend that is selected. -/
  computes : ∀ {direction : Direction} {data out : Bytes},
    ((c.run calls).2.process direction data).1 = .ok out →
    ∃ engine start m raw, ((c.run calls).2.process direction data).2.engine? = some engine ∧
      (c.run calls).2.Provides engine start ∧ start.Becomes m ∧
      (m.apply direction ((c.run calls).2.settings.prepare direction data)).1 = .ok raw ∧
      (c.run calls).2.settings.finish direction raw = .ok out
  /-- Other settings, and calls that fail, leave the engine as it is, but for data that builds the
  machine that is missing. -/
  kept : ∀ {call : Call},
    (call.effect ≠ .rebuild ∨ ∃ e, ((c.run calls).2.perform call).1 = .error e) →
    ((c.run calls).2.perform call).2.engine? = (c.run calls).2.engine? ∨
      (c.run calls).2.engine? = none ∧ (c.run calls).2.Engages call

/-- No engine is told after a run exactly if no data was taken up since the machine was last
outdated. -/
lemma pending_run (hv : c.settings.Valid) (hs : c.engine? = none) (calls : List Call) :
    (c.run calls).2.engine? = none ↔ ¬c.Since Engages Outdates calls := by
  induction calls using List.reverseRecOn with
  | nil => exact ⟨fun _ => c.not_since_nil, fun _ => hs⟩
  | append_singleton calls call ih =>
    rw [run_snoc, since_snoc]
    cases engine?_perform (valid_run hv calls) call with
    | outdated outdates told =>
      have he : ¬(c.run calls).2.Engages call := by
        cases call with
        | process direction data => exact absurd outdates not_outdates_process
        | _ => exact id
      simp only [told, outdates, he, not_true_eq_false, and_false, or_self, not_false_eq_true]
    | kept keeps idle told =>
      rw [told, ih, not_or, not_and_not_right]
      refine ⟨fun h => ⟨fun he => idle ⟨ih.2 h, he⟩, fun hsince => absurd hsince h⟩, ?_⟩
      rintro ⟨-, h⟩ hsince
      exact keeps (h hsince)
    | built keeps stale engages hk selected told =>
      rw [told]
      exact ⟨nofun, fun h => absurd (.inl engages) h⟩

/-- The engine that is told dates from the data it was built for, and is the backend's exactly if
that was selected and opened then. -/
lemma built_run (hv : c.settings.Valid) (hs : c.engine? = none) (hsupplied : c.Supplied)
    (calls : List Call) {engine : Engine} (h : (c.run calls).2.engine? = some engine) :
    c.Since (fun origin call => origin.engine? = none ∧ origin.Engages call ∧
      (engine = .accelerated ↔ (c.run calls).2.preferred ≠ some .software ∧
        (c.run calls).2.isValidEngine .accelerated = true ∧ origin.Opens)) Outdates calls := by
  induction calls using List.reverseRecOn generalizing engine with
  | nil =>
    rw [show (c.run []).2 = c from rfl, hs] at h
    cases h
  | append_singleton calls call ih =>
    rw [run_snoc] at h ⊢
    rw [since_snoc]
    cases engine?_perform (valid_run hv calls) call with
    | outdated outdates told =>
      rw [told] at h
      cases h
    | kept keeps idle told =>
      -- the engine dates from where it did before the call
      rw [told] at h
      obtain ⟨m, hm⟩ := engine?_eq_some_iff.1 h
      obtain ⟨start, hp, -⟩ := hsupplied.run calls hm
      obtain ⟨key, hk⟩ := hp.key_eq
      have hchoice := sameChoice_perform keeps
      rw [hchoice.preferred, hchoice.isValidEngine hk]
      exact .inr ⟨ih h, keeps⟩
    | built keeps stale engages hk selected told =>
      rw [told] at h
      cases h
      have hchoice := sameChoice_perform keeps
      rw [hchoice.preferred, hchoice.isValidEngine hk]
      exact .inl ⟨stale, engages, eq_accelerated_iff_of_selected hk selected⟩

/-- A call that outdates nothing leaves the engine, or builds the first one. -/
lemma engine?_perform_of_not_outdates (hv : c.settings.Valid) (hn : ¬c.Outdates call) :
    (c.perform call).2.engine? = c.engine? ∨ c.engine? = none ∧ c.Engages call := by
  cases engine?_perform hv call with
  | outdated outdates => exact absurd outdates hn
  | kept _ _ told => exact .inl told
  | built _ stale engages => exact .inr ⟨stale, engages⟩

/-- Over any backends, a context tells the truth about its engine after every run. -/
theorem tellsEngine_run {algorithm : Algorithm} {mode : Mode} (h : algorithm.supports mode = true)
    (backends : List Backend) :
    ∃ c, create algorithm mode backends = .ok c ∧ ∀ calls, c.TellsEngine calls := by
  obtain ⟨c, hc, hcreated⟩ := create_ok h backends
  have hnone : c.engine? = none := by rw [engine?, hcreated.machinery]
  have hsupplied : c.Supplied := fun hm => by rw [hcreated.machinery] at hm; cases hm
  refine ⟨c, hc, fun calls => ?_⟩
  have hv := valid_run hcreated.valid calls
  refine ⟨pending_run hcreated.valid hnone calls, built_run hcreated.valid hnone hsupplied calls,
    fun ho => Supplied.computes (Supplied.run hsupplied calls) ho, fun {call} hcall => ?_⟩
  refine engine?_perform_of_not_outdates hv fun ho => ?_
  rcases hcall with he | ⟨e, he⟩
  · exact he ho.1
  · obtain ⟨-, answer, hanswer⟩ := ho
    cases he.symm.trans hanswer

/-- A backend that could run AES in CBC but cannot be opened: software is told, and told the truth
of. -/
theorem tellsEngine_run_unopened :
    Algorithm.aes.supports .cbc = true ∧
    ∃ c, create .aes .cbc
        [.simulated (.ofOffers "fake" [(.cbc, ⟨.aes, none⟩)] [] { onInit := true })] = .ok c ∧
      (∀ calls, c.TellsEngine calls) ∧
      (c.run [.setKey (List.replicate 16 0), .process .encrypt []]).2.engine? = some .software ∧
      (c.run [.setKey (List.replicate 16 0)]).2.isValidEngine .accelerated = true := by
  have hs : Algorithm.aes.supports .cbc = true := rfl
  obtain ⟨c, hc, htells⟩ := tellsEngine_run hs
    [.simulated (.ofOffers "fake" [(.cbc, ⟨.aes, none⟩)] [] { onInit := true })]
  refine ⟨hs, c, hc, htells, ?_⟩
  cases hc
  exact ⟨by decide +kernel, by decide +kernel⟩

/-- The built-in backend is told as soon as data comes, until the next setting that it has to be
built again for. -/
example :
    (create .aes .ctr [.provider]).toOption.map (fun c =>
      ([[.setKey (List.replicate 16 0)], [.setKey (List.replicate 16 0), .process .encrypt [1]],
        [.setKey (List.replicate 16 0), .process .encrypt [1], .reset, .setKey []],
        [.setKey (List.replicate 16 0), .process .encrypt [1], .setContinuous false]]).map
          fun calls => (c.run calls).2.engine?) =
      some [none, some .accelerated, some .accelerated, none] := by
  decide +kernel

end Context

end SymmetricCipher
