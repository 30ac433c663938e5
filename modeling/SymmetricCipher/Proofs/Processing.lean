import SymmetricCipher.Proofs.Build
import SymmetricCipher.Proofs.Reference

/-!
# Processing data

What `Context.ready` and `Context.process` can do, said once, and the invariant that carries every
result about the output of a context. `Context.Sound` ties a context to logs: the machine runs as
one over block ciphers that were keyed for the settings, and stands behind the data of the logs if
the stream goes on. Every call keeps a context sound, with the logs that `Context.note` gives.
-/

namespace SymmetricCipher

/-! ## Settings that can be run -/

/-- Settings that a cipher can run under. -/
structure Settings.Valid (s : Settings) : Prop where
  supports : s.algorithm.supports s.mode = true
  iv : s.iv.length = s.algorithm.blockSize
  key : ∀ {key : Bytes}, s.key = some key → s.algorithm.IsKey key

namespace Settings

variable {s s' : Settings}

/-- A mode that passes the check is supported. -/
lemma supports_of_checkMode {algorithm : Algorithm} {mode : Mode} {u : Unit}
    (h : algorithm.checkMode mode = .ok u) : algorithm.supports mode = true := by
  rw [Algorithm.checkMode] at h
  split at h
  · assumption
  · cases h

/-- Nothing is wrong with what holds at first. -/
lemma valid_initial {algorithm : Algorithm} {mode : Mode} {u : Unit}
    (h : algorithm.checkMode mode = .ok u) : (initial algorithm mode).Valid where
  supports := supports_of_checkMode h
  iv := List.length_replicate
  key := nofun

/-- Settings stay valid when a key is set. -/
lemma Valid.setKey (h : s.Valid) {raw : Bytes} (hu : s.setKey raw = .ok s') : s'.Valid := by
  cases hk : s.algorithm.normalizeKey raw with
  | error e => rw [Settings.setKey, hk] at hu; cases hu
  | ok key =>
    rw [Settings.setKey, hk] at hu
    cases hu
    refine ⟨h.supports, h.iv, ?_⟩
    rintro _ ⟨⟩
    exact ⟨raw, hk⟩

/-- No call sets anything that a cipher cannot run under. -/
lemma Valid.update (h : s.Valid) {call : Call} (hu : s.update call = .ok s') : s'.Valid := by
  cases call with
  | setKey raw => exact h.setKey hu
  | setKeyLength bits =>
    rw [Settings.update] at hu
    split at hu <;> cases hu
    exact ⟨h.supports, h.iv, h.key⟩
  | setPassword password options =>
    rw [Settings.update] at hu
    split at hu
    · cases hu
    · exact h.setKey hu
  | setIv iv =>
    cases hu
    exact ⟨h.supports, Bytes.length_fit .., h.key⟩
  | setMode mode =>
    cases hm : s.algorithm.checkMode mode with
    | error e => rw [Settings.update, hm] at hu; cases hu
    | ok u =>
      rw [Settings.update, hm] at hu
      cases hu
      exact ⟨supports_of_checkMode hm, h.iv, h.key⟩
  | setContinuous on => cases hu; exact ⟨h.supports, h.iv, h.key⟩
  | setPadding on => cases hu; exact ⟨h.supports, h.iv, h.key⟩
  | prefer engine => cases hu; exact ⟨h.supports, h.iv, h.key⟩
  | reset => cases hu; exact h
  | process direction data => cases hu; exact h

/-- What is accepted is the data of the call as it goes to the cipher, under the key that is set. -/
lemma of_accept {direction : Direction} {data key x : Bytes}
    (h : s.accept direction data = .ok (key, x)) :
    s.key = some key ∧ x = s.prepare direction data ∧ s.mode.Aligned s.algorithm.blockSize x := by
  unfold accept at h
  split at h
  · cases h
  · rename_i hk
    dsimp only at h
    split at h
    · cases h
    · rename_i hn
      cases h
      refine ⟨hk, rfl, fun hm => ?_⟩
      exact Decidable.byContradiction fun ha => hn ⟨hm, ha⟩

end Settings

/-! ## What processing does -/

namespace Context

/-- A context that nothing was asked of yet. -/
structure Created (c : Context) (algorithm : Algorithm) (mode : Mode) (backends : List Backend) :
    Prop where
  settings : c.settings = .initial algorithm mode
  valid : c.settings.Valid
  backends : c.backends = backends
  machinery : c.machinery = .absent
  synchronized : c.desynchronized = false

/-- There is a context for every mode that an algorithm supports. -/
lemma create_ok {algorithm : Algorithm} {mode : Mode} (h : algorithm.supports mode = true)
    (backends : List Backend) :
    ∃ c, create algorithm mode backends = .ok c ∧ c.Created algorithm mode backends := by
  have hm : algorithm.checkMode mode = .ok () := if_pos h
  have hv := Settings.valid_initial hm
  simp only [create, hm]
  exact ⟨_, rfl, rfl, hv, rfl, rfl, rfl⟩

/-- No machine is built for the settings that hold. -/
def Stale (c : Context) : Prop := ∀ engine m, c.machinery ≠ .current engine m

/-- What comes of the backends for the settings that hold. -/
def selected (c : Context) (key : Bytes) (ticket : Nat) : Except CipherError (Engine × Machine) :=
  Machine.ofSelection (Selection.select c.backends c.algorithm c.mode key.length c.preferred) ticket
    c.algorithm c.mode key c.iv

/-- How a machine is made ready: it stays where it is, or goes back to the start, or is built. -/
inductive Readies (c : Context) (key : Bytes) : Engine → Machine → Prop where
  | kept {engine : Engine} {m : Machine} (current : c.machinery = .current engine m)
      (continuous : c.continuous = true) (continues : c.restarting = false) :
      Readies c key engine m
  | restarted {engine : Engine} {m m' : Machine} (current : c.machinery = .current engine m)
      (restart : m.restart c.iv = .ok m') (starts : c.continuous = true → c.restarting = true) :
      Readies c key engine m'
  | built {engine : Engine} {m : Machine} {ticket : Nat} (stale : c.Stale)
      (selected : c.selected key ticket = .ok (engine, m)) : Readies c key engine m

variable {c c' : Context} {m : Machine} {direction : Direction} {data : Bytes} {logs : Logs}

/-- A context holds the machine that is built for it, at the start of its stream. -/
lemma rebuild_eq (c : Context) (key : Bytes) :
    c.rebuild key =
      match c.selected key c.close.ledger.nextTicket with
      | .error e => .error e
      | .ok (engine, m) =>
        .ok (m, { c with
          machinery := .current engine m
          restarting := false
          ledger := c.close.ledger.noteOpened m.ticket? }) := rfl

/-- Without a machine for its settings, a context builds one. -/
lemma ready_of_stale (hd : c.desynchronized = false) {key : Bytes} (hk : c.key = some key)
    (hs : c.Stale) : c.ready = c.rebuild key := by
  simp only [ready, hd, hk]
  cases hm : c.machinery with
  | current engine m => exact absurd hm (hs engine m)
  | _ => rfl

/-- With a machine for its settings, a context keeps it where the stream goes on, and takes it back
to the start elsewhere. -/
lemma ready_of_current (hd : c.desynchronized = false) {key : Bytes} (hk : c.key = some key)
    {engine : Engine} (hm : c.machinery = .current engine m) :
    c.ready =
      if c.continuous && !c.restarting then .ok (m, c)
      else
        match m.restart c.iv with
        | .error e => .error e
        | .ok m => .ok (m, { c with machinery := .current engine m, restarting := false }) := by
  rw [ready, if_neg (Bool.not_eq_true _ ▸ hd)]
  split
  · rename_i hnone
    cases hk.symm.trans hnone
  · split
    · rename_i hcurrent
      cases hm.symm.trans hcurrent
      rfl
    · rename_i hs
      exact absurd hm (hs engine m)

/-- A machine is ready if the stream is not lost and there is a key. It is the one that is held,
where the stream goes on, or that one taken back to the start, or one that is built. -/
lemma ready_cases (h : c.ready = .ok (m, c')) :
    c.desynchronized = false ∧ ∃ key engine, c.key = some key ∧
      ((c.machinery = .current engine m ∧ c.continuous = true ∧ c.restarting = false ∧ c' = c) ∨
        (∃ old, c.machinery = .current engine old ∧ old.restart c.iv = .ok m ∧
          (c.continuous = true → c.restarting = true) ∧
          c' = { c with machinery := .current engine m, restarting := false }) ∨
        (c.Stale ∧ c.selected key c.close.ledger.nextTicket = .ok (engine, m) ∧
          c' = { c with
            machinery := .current engine m
            restarting := false
            ledger := c.close.ledger.noteOpened m.ticket? })) := by
  rw [ready] at h
  split at h
  · cases h
  · rename_i hd
    refine ⟨by simpa using hd, ?_⟩
    split at h
    · cases h
    · rename_i key hk
      split at h
      · rename_i engine machine hm
        split at h
        · rename_i hc
          cases h
          simp only [Bool.and_eq_true, Bool.not_eq_true'] at hc
          exact ⟨key, engine, hk, .inl ⟨hm, hc.1, hc.2, rfl⟩⟩
        · rename_i hc
          split at h
          · cases h
          · rename_i hr
            cases h
            refine ⟨key, engine, hk, .inr (.inl ⟨machine, hm, hr, fun hcont => ?_, rfl⟩)⟩
            rw [hcont, Bool.true_and] at hc
            exact Decidable.byContradiction fun hn => hc (by simpa using hn)
      · rename_i hm
        rw [rebuild_eq] at h
        split at h
        · cases h
        · rename_i engine machine hs
          cases h
          exact ⟨key, engine, hk, .inr (.inr ⟨fun e m he => hm e m he, hs, rfl⟩)⟩

/-- A context that holds a ready machine keeps all else. -/
lemma of_ready (h : c.ready = .ok (m, c')) :
    c.desynchronized = false ∧ ∃ key engine ledger, c.key = some key ∧ c.Readies key engine m ∧
      c' = { c with machinery := .current engine m, restarting := false, ledger := ledger } := by
  obtain ⟨hd, key, engine, hk, hcases⟩ := ready_cases h
  refine ⟨hd, key, engine, ?_⟩
  rcases hcases with ⟨hm, hc, hr, rfl⟩ | ⟨old, hm, hr, hc, rfl⟩ | ⟨hs, hb, rfl⟩
  · refine ⟨c'.ledger, hk, .kept hm hc hr, ?_⟩
    rw [← hm, ← hr]
  · exact ⟨_, hk, .restarted hm hr hc, rfl⟩
  · exact ⟨_, hk, .built hs hb, rfl⟩

/-- Under valid settings something always comes of the backends. -/
lemma selected_ok (hv : c.settings.Valid) {key : Bytes} (hk : c.key = some key) (ticket : Nat) :
    ∃ r, c.selected key ticket = .ok r :=
  Machine.ofSelection_ok hv.supports (hv.key hk) hv.iv _ ticket

/-- Under valid settings `rebuild` always gives a machine: its error, and what would be lost with
it, are never met. -/
lemma rebuild_ok (hv : c.settings.Valid) {key : Bytes} (hk : c.key = some key) :
    ∃ engine m c', c.rebuild key = .ok (m, c') ∧ c'.machinery = .current engine m := by
  obtain ⟨⟨engine, m⟩, hs⟩ := selected_ok hv hk c.close.ledger.nextTicket
  exact ⟨engine, m, _, by rw [rebuild_eq, hs], rfl⟩

/-- Under valid settings a machine is not ready only if the stream is lost, if there is no key, or
if a session does not go back to its start. -/
lemma of_ready_error (hv : c.settings.Valid) {e : CipherError} (h : c.ready = .error e) :
    (c.desynchronized = true ∧ e = .streamDesynchronized) ∨
      c.desynchronized = false ∧ ((c.key = none ∧ e = .keyNotSet) ∨
        ∃ engine m, c.machinery = .current engine m ∧ m.restart c.iv = .error e) := by
  rw [ready] at h
  split at h
  · rename_i hd
    cases h
    exact .inl ⟨hd, rfl⟩
  · rename_i hd
    refine .inr ⟨by simpa using hd, ?_⟩
    split at h
    · rename_i hk
      cases h
      exact .inl ⟨hk, rfl⟩
    · rename_i key hk
      split at h
      · rename_i engine machine hm
        split at h
        · cases h
        · split at h
          · rename_i hr
            cases h
            exact .inr ⟨engine, machine, hm, hr⟩
          · cases h
      · obtain ⟨_, _, _, hb, -⟩ := rebuild_ok hv hk
        rw [hb] at h
        cases h

/-- Making the machine ready sets nothing. -/
lemma settings_of_ready (h : c.ready = .ok (m, c')) : c'.settings = c.settings := by
  obtain ⟨-, key, engine, ledger, -, -, rfl⟩ := of_ready h
  rfl

/-- The settings prepare data as the context does. -/
lemma prepare_settings (c : Context) (direction : Direction) (data : Bytes) :
    c.settings.prepare direction data = c.prepare direction data := by
  cases direction <;> rfl

/-- The settings finish data as the context does. -/
lemma finish_settings (c : Context) (direction : Direction) (data : Bytes) :
    c.settings.finish direction data = c.finish direction data := by
  cases direction <;> rfl

/-- A ready machine runs the data that is accepted. -/
lemma process_of_ready (h : c.ready = .ok (m, c')) :
    c.process direction data =
      match c.settings.accept direction data with
      | .error e => (.error e, c')
      | .ok (_, x) =>
        match m.apply direction x with
        | (.error e, m) => (.error e, c'.keep m (c.settings.continuous && e.isBackendFailure))
        | (.ok out, m) => (c.settings.finish direction out, c'.keep m false) := by
  obtain ⟨-, key, -, -, hk, -, -⟩ := of_ready h
  have hk : c.settings.key = some key := hk
  rw [process, h]
  -- the length is looked at in the context that holds the ready machine
  rw [← settings_of_ready h] at hk ⊢
  simp only [Settings.accept, hk, prepare_settings, finish_settings]
  by_cases ha : c'.mode.isBlockMode ∧ (c'.prepare direction data).length % c'.blockSize ≠ 0
  · have ha' : c'.settings.mode.isBlockMode ∧
        (c'.prepare direction data).length % c'.settings.algorithm.blockSize ≠ 0 := ha
    rw [if_pos ha, if_pos ha']
    rfl
  · have ha' : ¬(c'.settings.mode.isBlockMode ∧
        (c'.prepare direction data).length % c'.settings.algorithm.blockSize ≠ 0) := ha
    rw [if_neg ha, if_neg ha']
    rfl

/-- A machine that did not fail is all that a call changes. -/
lemma keep_of_current (c : Context) (engine : Engine) (m m' : Machine) (ledger : Ledger) :
    keep { c with machinery := .current engine m, restarting := false, ledger := ledger } m' false =
      { c with machinery := .current engine m', restarting := false, ledger := ledger } := by
  simp only [keep, Machinery.replace, Bool.or_false]

/-- The data of a call that the machine takes, if it does. -/
def passed? (c : Context) (direction : Direction) (data : Bytes) : Option Bytes :=
  match c.ready with
  | .error _ => none
  | .ok (m, _) =>
    match c.settings.accept direction data with
    | .error _ => none
    | .ok (_, x) =>
      match m.apply direction x with
      | (.error _, _) => none
      | (.ok _, _) => some x

/-- A context that is not ready refuses the call. -/
lemma process_of_error {e : CipherError} (h : c.ready = .error e) :
    c.process direction data = (.error e, c) ∧ c.passed? direction data = none := by
  simp only [process, passed?, h, and_self]

/-- Data that is not accepted does not reach the machine. -/
lemma process_of_refused (h : c.ready = .ok (m, c')) {e : CipherError}
    (ha : c.settings.accept direction data = .error e) :
    c.process direction data = (.error e, c') ∧ c.passed? direction data = none := by
  simp only [process_of_ready h, passed?, h, ha, and_self]

/-- A machine that fails answers for the context. -/
lemma process_of_failed (h : c.ready = .ok (m, c')) {key x : Bytes} {e : CipherError}
    {m' : Machine} (ha : c.settings.accept direction data = .ok (key, x))
    (hm : m.apply direction x = (.error e, m')) :
    c.process direction data =
        (.error e, c'.keep m' (c.settings.continuous && e.isBackendFailure)) ∧
      c.passed? direction data = none := by
  simp only [process_of_ready h, passed?, h, ha, hm, and_self]

/-- What a machine gives is answered without its padding. -/
lemma process_of_passed (h : c.ready = .ok (m, c')) {key x out : Bytes} {m' : Machine}
    (ha : c.settings.accept direction data = .ok (key, x))
    (hm : m.apply direction x = (.ok out, m')) :
    c.process direction data = (c.settings.finish direction out, c'.keep m' false) ∧
      c.passed? direction data = some x := by
  simp only [process_of_ready h, passed?, h, ha, hm, and_self]

/-- How a call with data ends: the context is not ready, the data is not accepted, or a machine
fails or runs the data. -/
inductive Ends (c : Context) (direction : Direction) (data : Bytes) :
    Except CipherError Bytes × Context → Prop where
  | unready {e : CipherError} (unready : c.ready = .error e) : Ends c direction data (.error e, c)
  | refused {m : Machine} {c' : Context} {e : CipherError} (ready : c.ready = .ok (m, c'))
      (refuses : c.settings.accept direction data = .error e) :
      Ends c direction data (.error e, c')
  | failed {m m' : Machine} {c' : Context} {key x : Bytes} {e : CipherError}
      (ready : c.ready = .ok (m, c')) (accepts : c.settings.accept direction data = .ok (key, x))
      (fails : m.apply direction x = (.error e, m')) :
      Ends c direction data
        (.error e, c'.keep m' (c.settings.continuous && e.isBackendFailure))
  | passed {m m' : Machine} {c' : Context} {key x out : Bytes}
      (ready : c.ready = .ok (m, c')) (accepts : c.settings.accept direction data = .ok (key, x))
      (passes : m.apply direction x = (.ok out, m')) :
      Ends c direction data (c.settings.finish direction out, c'.keep m' false)

/-- There is no other way for a call with data to end. -/
lemma process_ends (c : Context) (direction : Direction) (data : Bytes) :
    c.Ends direction data (c.process direction data) := by
  cases hr : c.ready with
  | error e =>
    rw [(process_of_error hr).1]
    exact .unready hr
  | ok r =>
    obtain ⟨m, c'⟩ := r
    cases ha : c.settings.accept direction data with
    | error e =>
      rw [(process_of_refused hr ha).1]
      exact .refused hr ha
    | ok r =>
      cases hm : m.apply direction r.2 with
      | mk result m' =>
        cases result with
        | error e =>
          rw [(process_of_failed hr ha hm).1]
          exact .failed hr ha hm
        | ok out =>
          rw [(process_of_passed hr ha hm).1]
          exact .passed hr ha hm

/-- A call with data leaves the context as it was, if that is not ready, or with a ready machine,
which ran nothing or ran the data. The stream is lost only if it was to go on. -/
lemma process_cases (c : Context) (direction : Direction) (data : Bytes) :
    (∃ e, c.ready = .error e ∧ (c.process direction data).2 = c) ∨
      ∃ m c' m' lost, c.ready = .ok (m, c') ∧
        (m' = m ∨ ∃ x, m' = (m.apply direction x).2) ∧ (lost = true → c.continuous = true) ∧
        (c.process direction data).2 = c'.keep m' lost := by
  have hends := c.process_ends direction data
  generalize c.process direction data = r at hends ⊢
  cases hends with
  | unready hr => exact .inl ⟨_, hr, rfl⟩
  | refused hr ha =>
    obtain ⟨-, key, engine, ledger, -, -, rfl⟩ := of_ready hr
    exact .inr ⟨_, _, _, false, hr, .inl rfl, nofun, (keep_of_current ..).symm⟩
  | failed hr ha hm =>
    exact .inr ⟨_, _, _, _, hr, .inr ⟨_, (congrArg Prod.snd hm).symm⟩,
      fun hl => (Bool.and_eq_true_iff.1 hl).1, rfl⟩
  | passed hr ha hm =>
    exact .inr ⟨_, _, _, false, hr, .inr ⟨_, (congrArg Prod.snd hm).symm⟩, nofun, rfl⟩

/-- Data does not change settings. -/
lemma settings_process (c : Context) (direction : Direction) (data : Bytes) :
    (c.process direction data).2.settings = c.settings := by
  rcases c.process_cases direction data with ⟨e, -, hsame⟩ | ⟨m, c', m', lost, hr, -, -, hleft⟩
  · rw [hsame]
  · rw [hleft]
    exact (show (c'.keep m' lost).settings = c'.settings from rfl).trans (settings_of_ready hr)

/-- Every call leaves settings that a cipher can run under. -/
lemma valid_perform (h : c.settings.Valid) (call : Call) : (c.perform call).2.settings.Valid := by
  refine c.perform_cases (motive := fun _ r => r.2.settings.Valid) (fun _ _ => h)
    (fun _ hu => h.update hu) (fun direction data => ?_) call
  rw [settings_process]
  exact h

end Context

/-! ## Contexts that stand behind logs -/

/-- A machine for the settings, which stands behind the data of the logs. -/
structure Machine.Serves (m core : Machine) (s : Settings) (key : Bytes) (logs : Logs) : Prop where
  runs : m.RunsAs core
  keyed : core.Keyed s.algorithm s.mode key
  continues : core.Continues s.algorithm s.mode key s.iv logs

/-- Behind the data of the logs there is a single pass for any data that is accepted. -/
lemma Machine.Serves.oneShot_ok {m core : Machine} {s : Settings} {key : Bytes} {logs : Logs}
    (h : m.Serves core s key logs) {direction : Direction} {data x : Bytes}
    (ha : s.accept direction data = .ok (key, x)) :
    ∃ out, s.algorithm.oneShot s.mode key s.iv direction (logs direction ++ x) = .ok out ∧
      out.length = (logs direction ++ x).length := by
  obtain ⟨front, out, -, -, hlen, hfront, hshot⟩ :=
    h.continues direction x (Settings.of_accept ha).2.2
  exact ⟨front ++ out, hshot, by rw [List.length_append, List.length_append, hfront, hlen]⟩

/-- A call either fails, which only a simulated session does, and adds nothing to the logs, or
answers as the settings demand, and adds its data. -/
lemma Machine.Serves.apply {m core : Machine} {s : Settings} {key : Bytes} {logs : Logs}
    (h : m.Serves core s key logs) {direction : Direction} {data x : Bytes}
    (ha : s.accept direction data = .ok (key, x)) :
    (∃ e m', m.apply direction x = (.error e, m') ∧ m'.Serves core s key logs ∧
        m.ticket? ≠ none) ∨
      ∃ out m' core', m.apply direction x = (.ok out, m') ∧
        m'.Serves core' s key (logs.append direction x) ∧
        s.respond (logs direction) direction data = s.finish direction out := by
  obtain ⟨-, -, haligned⟩ := Settings.of_accept ha
  rcases h.runs.apply h.keyed direction haligned with
    ⟨e, m', hm, hruns, ht⟩ | ⟨out, m', core', hm, hcore, hruns⟩
  · exact .inl ⟨e, m', hm, ⟨hruns, h.keyed, h.continues⟩, ht⟩
  · -- the other machine stands behind the logs, and its answer is the end of the single pass
    obtain ⟨out', core'', hrun, -, hkeyed⟩ := h.keyed.apply_ok direction haligned
    obtain ⟨front, out'', _, hrun', hlen, -, hshot⟩ := h.continues direction x haligned
    rw [hcore] at hrun hrun'
    cases hrun
    cases hrun'
    refine .inr ⟨out, m', core', hm, ⟨hruns, hkeyed, h.continues.apply h.keyed haligned hcore⟩, ?_⟩
    have hcut : (front ++ out).drop ((front ++ out).length - x.length) = out := by
      rw [List.length_append, hlen, Nat.add_sub_cancel, List.drop_left]
    simp only [Settings.respond, ha, hshot, hcut]

namespace Context

/-- A context whose machine stands behind the data of the logs, unless its stream starts again. -/
structure Sound (c : Context) (logs : Logs) : Prop where
  valid : c.settings.Valid
  backends : ∀ b ∈ c.backends, b.Faithful
  serves : ∀ {engine : Engine} {m : Machine}, c.machinery = .current engine m →
    ∃ key core, c.key = some key ∧ m.RunsAs core ∧ core.Keyed c.algorithm c.mode key ∧
      (c.continuous = true → c.restarting = false → m.Serves core c.settings key logs)
  fresh : c.restarting = true ∨ c.Stale → logs = .empty

namespace Sound

variable {c c' : Context} {m : Machine} {direction : Direction} {data : Bytes} {logs : Logs}

/-- Where every call stands alone, logs can be forgotten. -/
lemma opening (h : c.Sound logs) : c.Sound (c.settings.opening logs) := by
  rw [Settings.opening]
  split
  · exact h
  · rename_i hc
    refine ⟨h.valid, h.backends, fun hm => ?_, fun _ => rfl⟩
    obtain ⟨key, core, hk, hruns, hkeyed, -⟩ := h.serves hm
    exact ⟨key, core, hk, hruns, hkeyed, fun hcont => absurd hcont hc⟩

/-- A context that holds a machine for its settings stands behind the same logs. -/
lemma of_serves (h : c.Sound logs) {key : Bytes} {core : Machine} {logs' : Logs}
    (hk : c.key = some key) (hm : m.Serves core c.settings key logs') (engine : Engine)
    (ledger : Ledger) (lost : Bool) :
    Sound { c with machinery := .current engine m, restarting := false, ledger := ledger,
                   desynchronized := lost } logs' := by
  refine ⟨h.valid, h.backends, ?_, ?_⟩
  · rintro _ _ ⟨⟩
    exact ⟨key, core, hk, hm.runs, hm.keyed, fun _ _ => hm⟩
  · rintro (hr | hs)
    · cases hr
    · exact absurd rfl (hs engine m)

/-- A machine that is ready stands behind the logs that the call starts from. -/
lemma serves_of_readies (h : c.Sound logs) {key : Bytes} (hk : c.key = some key) {engine : Engine}
    (hr : c.Readies key engine m) :
    ∃ core, m.Serves core c.settings key (c.settings.opening logs) := by
  -- a call at the start of the stream finds empty logs, or may forget what is in them
  have starts (hc : c.continuous = true → logs = .empty) : c.settings.opening logs = .empty := by
    rw [Settings.opening]
    split
    · exact hc ‹_›
    · rfl
  cases hr with
  | kept current continuous continues =>
    obtain ⟨key', core, hk', -, -, hm⟩ := h.serves current
    cases hk.symm.trans hk'
    rw [Settings.opening_of_continuous continuous]
    exact ⟨core, hm continuous continues⟩
  | restarted current restart goesBack =>
    obtain ⟨key', core, hk', hruns, hkeyed, -⟩ := h.serves current
    cases hk.symm.trans hk'
    obtain ⟨core', hcore, hruns'⟩ := hruns.restart restart
    obtain ⟨core'', hcore', hstart, hkeyed'⟩ := hkeyed.restart_ok h.valid.iv
    cases hcore.symm.trans hcore'
    rw [starts fun hc => h.fresh (.inl (goesBack hc))]
    exact ⟨core', hruns', hkeyed', hkeyed'.continues_empty hstart⟩
  | built stale selected =>
    obtain ⟨core, hruns, hkeyed, hstart⟩ := Machine.ofSelection_spec h.backends h.valid.supports
      (h.valid.key hk) h.valid.iv selected
    rw [starts fun _ => h.fresh (.inr stale)]
    exact ⟨core, hruns, hkeyed, hkeyed.continues_empty hstart⟩

/-- Settings keep a context sound, and empty the logs if the stream starts again. -/
lemma adopt (h : c.Sound logs) {call : Call} {s : Settings}
    (hu : c.settings.update call = .ok s) :
    (c.adopt call s).Sound (if call.effect = .none then logs else .empty) := by
  have hvalid := h.valid.update hu
  cases he : call.effect with
  | none =>
    -- nothing is set that the machine was built for
    obtain ⟨keyLength, padding, rfl⟩ := Settings.update_of_effect_none hu he
    simp only [Context.adopt, he]
    refine ⟨hvalid, h.backends, fun hm => ?_, h.fresh⟩
    obtain ⟨key, core, hk, hruns, hkeyed, hserves⟩ := h.serves hm
    exact ⟨key, core, hk, hruns, hkeyed, fun hc hr =>
      ⟨hruns, hkeyed, (hserves hc hr).continues⟩⟩
  | restart =>
    -- the machine stands behind other data, but goes back before it runs again
    obtain ⟨iv, rfl⟩ := Settings.update_of_effect_restart hu he
    simp only [Context.adopt, he]
    refine ⟨hvalid, h.backends, fun hm => ?_, fun _ => rfl⟩
    obtain ⟨key, core, hk, hruns, hkeyed, -⟩ := h.serves hm
    exact ⟨key, core, hk, hruns, hkeyed, fun hc hr => by cases hr⟩
  | rebuild =>
    -- the machine does not count any more
    simp only [Context.adopt, he]
    refine ⟨hvalid, h.backends, fun hm => ?_, fun _ => rfl⟩
    cases hc : c.machinery with
    | current engine m => rw [hc] at hm; cases hm
    | _ => rw [hc] at hm; cases hm

end Sound

/-- The logs after a call. Data stays there if the machine took it, and a call that starts the
stream again empties them. -/
def note (c : Context) (logs : Logs) (call : Call) : Logs :=
  match call with
  | .process direction data =>
    match c.passed? direction data with
    | none => c.settings.opening logs
    | some x => (c.settings.opening logs).append direction x
  | call =>
    match (c.perform call).1 with
    | .error _ => logs
    | .ok _ => if call.effect = .none then logs else .empty

/-- A setting empties the logs if the stream starts again with it. -/
lemma note_setting {c : Context} {logs : Logs} {call : Call} (h : call.IsSetting) :
    c.note logs call =
      match c.settings.update call with
      | .error _ => logs
      | .ok _ => if call.effect = .none then logs else .empty := by
  have hn : c.note logs call =
      match (c.perform call).1 with
      | .error _ => logs
      | .ok _ => if call.effect = .none then logs else .empty := by
    cases call with
    | process direction data => exact h.elim
    | _ => rfl
  rw [hn, perform_setting c h]
  cases c.settings.update call <;> rfl

/-- What went through each direction in a run of calls. -/
def history (c : Context) (logs : Logs) : List Call → Logs
  | [] => logs
  | call :: calls => (c.perform call).2.history (c.note logs call) calls

namespace Sound

variable {c : Context} {logs : Logs}

/-- A call with data either fails and leaves the logs, or answers as the settings demand and adds
its data to them. -/
lemma process (h : c.Sound logs) (direction : Direction) (data : Bytes) :
    (∃ e, (c.process direction data).1 = .error e ∧ c.passed? direction data = none ∧
        (c.process direction data).2.Sound (c.settings.opening logs)) ∨
      ∃ x, c.passed? direction data = some x ∧
        (c.process direction data).1 =
          c.settings.respond (c.settings.opening logs direction) direction data ∧
        (c.process direction data).2.Sound ((c.settings.opening logs).append direction x) := by
  cases hr : c.ready with
  | error e =>
    obtain ⟨hp, hq⟩ := process_of_error hr
    rw [hp, hq]
    exact .inl ⟨e, rfl, rfl, h.opening⟩
  | ok r =>
    obtain ⟨m, c'⟩ := r
    obtain ⟨-, key, engine, ledger, hk, hready, rfl⟩ := of_ready hr
    obtain ⟨core, hserves⟩ := h.serves_of_readies hk hready
    cases ha : c.settings.accept direction data with
    | error e =>
      obtain ⟨hp, hq⟩ := process_of_refused hr ha
      rw [hp, hq]
      exact .inl ⟨e, rfl, rfl, h.of_serves hk hserves engine ledger _⟩
    | ok r =>
      obtain ⟨key', x⟩ := r
      cases hk.symm.trans (Settings.of_accept ha).1
      rcases hserves.apply ha with ⟨e, m', hm, hserves', -⟩ | ⟨out, m', core', hm, hserves', ho⟩
      · obtain ⟨hp, hq⟩ := process_of_failed hr ha hm
        rw [hp, hq]
        exact .inl ⟨e, rfl, rfl, h.of_serves hk hserves' engine ledger _⟩
      · obtain ⟨hp, hq⟩ := process_of_passed hr ha hm
        rw [hp, hq]
        exact .inr ⟨x, rfl, ho.symm, h.of_serves hk hserves' engine ledger _⟩

/-- A machine that is ready and cannot fail answers as the settings demand. -/
lemma process_of_ticket? (h : c.Sound logs) {m : Machine} {c' : Context}
    (hr : c.ready = .ok (m, c')) (ht : m.ticket? = none) (direction : Direction) (data : Bytes) :
    ∃ engine m' ledger, c'.machinery = .current engine m ∧ m'.ticket? = none ∧
      c.process direction data =
        (c.settings.respond (c.settings.opening logs direction) direction data,
          { c with machinery := .current engine m', restarting := false, ledger := ledger }) ∧
      (c.process direction data).2.Sound
        (c.settings.record (c.settings.opening logs) direction data) := by
  obtain ⟨-, key, engine, ledger, hk, hready, rfl⟩ := of_ready hr
  obtain ⟨core, hserves⟩ := h.serves_of_readies hk hready
  cases ha : c.settings.accept direction data with
  | error e =>
    refine ⟨engine, m, ledger, rfl, ht, ?_⟩
    rw [(process_of_refused hr ha).1, Settings.respond, Settings.record, ha]
    exact ⟨rfl, h.of_serves hk hserves engine ledger _⟩
  | ok r =>
    obtain ⟨key', x⟩ := r
    cases hk.symm.trans (Settings.of_accept ha).1
    rcases hserves.apply ha with ⟨e, m', -, -, hn⟩ | ⟨out, m', core', hm, hserves', ho⟩
    · exact absurd ht hn
    · have ht' := Machine.ticket?_apply m direction x
      rw [hm, ht] at ht'
      refine ⟨engine, m', ledger, rfl, ht', ?_⟩
      rw [(process_of_passed hr ha hm).1, Settings.record, ha, ho, keep_of_current]
      exact ⟨rfl, h.of_serves hk hserves' engine ledger _⟩

/-- Every call keeps a context sound. -/
theorem perform (h : c.Sound logs) (call : Call) : (c.perform call).2.Sound (c.note logs call) := by
  refine c.perform_cases (motive := fun call r => r.2.Sound (c.note logs call)) ?_ ?_ ?_ call
  · intro call e hc hu
    rw [note_setting hc, hu]
    exact h
  · intro call s hc hu
    rw [note_setting hc, hu]
    exact h.adopt hu
  · intro direction data
    rw [note]
    rcases h.process direction data with ⟨e, -, hp, hs⟩ | ⟨x, hp, -, hs⟩
    · rw [hp]
      exact hs
    · rw [hp]
      exact hs

/-- Every run keeps a context sound. -/
theorem run (h : c.Sound logs) (calls : List Call) :
    (c.run calls).2.Sound (c.history logs calls) := by
  induction calls generalizing c logs with
  | nil => exact h
  | cons call calls ih => exact ih (h.perform call)

/-- A context that nothing was asked of yet is sound. -/
lemma of_created {algorithm : Algorithm} {mode : Mode} {backends : List Backend}
    (h : c.Created algorithm mode backends) (hb : ∀ b ∈ backends, b.Faithful) :
    c.Sound .empty := by
  refine ⟨h.valid, by rw [h.backends]; exact hb, fun hm => ?_, fun _ => rfl⟩
  rw [h.machinery] at hm
  cases hm

end Sound

end Context

end SymmetricCipher
