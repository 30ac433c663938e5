import SymmetricCipher.Proofs.Processing

/-!
# Contexts field by field

A `Context` keeps together what belongs together: whether settings have changed, the machine and its
engine are one `Machinery`, and a setting that is refused gives no context at all. In `Fields` each
of them is a field by itself, and any combination of them is a state. A call assigns one field after
the other; where it is refused it ends, and what it has assigned by then stays.

Nothing is lost by keeping them together. From `Fields.create` on, every run of calls is answered
alike (`run_fields`), and the fields are always in one of the combinations that a `Machinery` has,
`Machinery.Holds`. Where building a machine fails, the two would differ: by then the fields have
lost their old machine, and the context has not. It never fails, since every selection can be built
under settings that were accepted.
-/

namespace SymmetricCipher

/-- What is kept to process data, each part on its own. -/
structure Fields extends Settings where
  backends : List Backend
  /-- The engine of the last machine that was built. -/
  engine : Option Engine
  /-- The last machine that was built. -/
  machine : Option Machine
  /-- Whether a machine has to be built before the next data. -/
  changed : Bool
  /-- Whether the next data starts a stream again. -/
  restarting : Bool
  /-- Whether a backend failed in the middle of the stream. -/
  desynchronized : Bool
  /-- The sessions that were opened and closed. -/
  ledger : Ledger

/-- Assigns fields one after the other, and may be refused in between. -/
abbrev Operation := ExceptT CipherError (StateM Fields)

namespace Fields

/-- The fields before anything is set. -/
def create (algorithm : Algorithm) (mode : Mode) (backends : List Backend) :
    Except CipherError Fields :=
  (algorithm.checkMode mode).map fun _ => {
    toSettings := .initial algorithm mode
    backends := backends
    engine := none
    machine := none
    changed := true
    restarting := false
    desynchronized := false
    ledger := [] }

/-! ## Settings -/

/-- Notes that a machine has to be built. -/
def markChanged : Operation Unit := modify fun f => { f with changed := true }

/-- Sets the key, in its normalized form, and its length with it. -/
def setKey (raw : Bytes) : Operation Unit := do
  let key ← ofExcept ((← get).algorithm.normalizeKey raw)
  modify fun f => { f with keyLength := key.length }
  modify fun f => { f with key := some key }
  modify fun f => { f with desynchronized := false }
  markChanged

/-- Sets the length in bits of a key to be derived from a password. -/
def setKeyLength (bits : Nat) : Operation Unit := do
  let f ← get
  if bits % 8 ≠ 0 ∨ f.algorithm.acceptsKeyLength (bits / 8) = false then
    throw (.invalidKeyLength f.algorithm (bits / 8))
  modify fun f => { f with keyLength := bits / 8 }

/-- Derives the key from a password. -/
def setPassword (password : Bytes) (options : PasswordOptions) : Operation Unit := do
  let length := options.keyLength.getD (← get).keyLength
  let key ← ofExcept (PasswordKey.derive options password length)
  setKey key

/-- Sets the initialization vector, cut or filled up to a block, and starts the stream again. -/
def setIv (iv : Bytes) : Operation Unit := do
  modify fun f => { f with iv := Bytes.fit f.algorithm.blockSize iv }
  modify fun f => { f with restarting := true }
  modify fun f => { f with desynchronized := false }

/-- Sets the mode. -/
def setMode (mode : Mode) : Operation Unit := do
  ofExcept ((← get).algorithm.checkMode mode)
  modify fun f => { f with mode := mode }
  markChanged

/-- Says whether one call continues the stream of the call before it. A lost stream is forgotten
when calls are to stand alone. -/
def setContinuous (on : Bool) : Operation Unit := do
  modify fun f => { f with continuous := on }
  unless on do
    modify fun f => { f with desynchronized := false }
  markChanged

/-- Says whether data is padded in ECB and CBC. -/
def setPadding (on : Bool) : Operation Unit := modify fun f => { f with padding := on }

/-- Asks for an engine, or leaves the choice open. -/
def prefer (engine : Option Engine) : Operation Unit := do
  modify fun f => { f with preferred := engine }
  markChanged

/-- Starts the stream again. -/
def reset : Operation Unit := do
  modify fun f => { f with restarting := true }
  modify fun f => { f with desynchronized := false }

/-! ## Data -/

/-- Gives up the old machine, closes its session, and builds a machine for the settings that
hold. -/
def setup : Operation Unit := do
  modify fun f => { f with
    machine := none
    ledger := f.ledger.noteClosed (f.machine.bind Machine.ticket?) }
  modify fun f => { f with engine := none }
  let f ← get
  let some key := f.key | throw .keyNotSet
  let selection := Selection.select f.backends f.algorithm f.mode key.length f.preferred
  let (engine, machine) ← ofExcept
    (Machine.ofSelection selection f.ledger.nextTicket f.algorithm f.mode key f.iv)
  modify fun f => { f with
    machine := some machine
    ledger := f.ledger.noteOpened machine.ticket? }
  modify fun f => { f with engine := some engine }
  modify fun f => { f with changed := false }
  modify fun f => { f with restarting := false }

/-- Takes the machine back to the start of a stream. -/
def restart : Operation Unit := do
  let f ← get
  if let some machine := f.machine then
    let machine ← ofExcept (machine.restart f.iv)
    modify fun f => { f with machine := some machine }
  modify fun f => { f with restarting := false }

/-- Builds a machine, or takes it back to the start of a stream, if there is need to. -/
def ensureReady : Operation Unit := do
  let f ← get
  if f.desynchronized then throw .streamDesynchronized
  if f.key.isNone then throw .keyNotSet
  if f.changed || f.machine.isNone then setup
  else if !f.continuous || f.restarting then restart

/-- Refuses data of a length that is misaligned. -/
def checkAlignment (length : Nat) : Operation Unit := do
  let f ← get
  if f.mode.isBlockMode ∧ length % f.algorithm.blockSize ≠ 0 then
    throw (.misalignedInput length f.algorithm.blockSize)

/-- Runs data through the machine, and notes whether a backend lost the stream. -/
def transform (direction : Direction) (data : Bytes) : Operation Bytes := do
  let f ← get
  let some machine := f.machine | throw .keyNotSet
  let (result, machine) := machine.apply direction data
  modify fun f => { f with machine := some machine }
  match result with
  | .ok out => return out
  | .error e =>
    if e.isBackendFailure && f.continuous then
      modify fun f => { f with desynchronized := true }
    throw e

/-- Encrypts or decrypts data. -/
def process (direction : Direction) (data : Bytes) : Operation Bytes := do
  ensureReady
  let data := (← get).prepare direction data
  checkAlignment data.length
  let out ← transform direction data
  ofExcept ((← get).finish direction out)

/-- Answers a call. -/
def call : Call → Operation (Option Bytes)
  | .setKey key => do setKey key; return none
  | .setKeyLength bits => do setKeyLength bits; return none
  | .setPassword password options => do setPassword password options; return none
  | .setIv iv => do setIv iv; return none
  | .setMode mode => do setMode mode; return none
  | .setContinuous on => do setContinuous on; return none
  | .setPadding on => do setPadding on; return none
  | .prefer engine => do prefer engine; return none
  | .reset => do reset; return none
  | .process direction data => return some (← process direction data)

/-- What an operation answers, and the fields that it leaves. -/
def outcome {α : Type} (x : Operation α) (f : Fields) : Except CipherError α × Fields :=
  (x.run.run f).run

/-- The answer to a call, and the fields after it. -/
def perform (f : Fields) (c : Call) : Answer × Fields := outcome (call c) f

/-- Answers calls one after the other. -/
def run (f : Fields) (calls : List Call) : List Answer × Fields := mapState perform f calls

/-- The engine in use, if data came since the last change of the settings. -/
def engine? (f : Fields) : Option Engine := if f.changed then none else f.engine

end Fields

/-! ## What a context keeps together -/

/-- The values of the three fields that a machinery stands for. Of an outdated machine the engine is
not known any more. -/
inductive Machinery.Holds : Machinery → Option Engine → Option Machine → Bool → Prop where
  | absent : Holds .absent none none true
  | outdated (engine : Engine) (m : Machine) : Holds (.outdated m) (some engine) (some m) true
  | current (engine : Engine) (m : Machine) : Holds (.current engine m) (some engine) (some m) false

namespace Context

/-- The fields of a context, with the given values for those that its machinery keeps together. -/
def fields (c : Context) (engine : Option Engine) (machine : Option Machine) (changed : Bool) :
    Fields where
  toSettings := c.settings
  backends := c.backends
  engine := engine
  machine := machine
  changed := changed
  restarting := c.restarting
  desynchronized := c.desynchronized
  ledger := c.ledger

/-- Fields that a context stands for. -/
inductive Splits (c : Context) : Fields → Prop where
  | intro {engine : Option Engine} {machine : Option Machine} {changed : Bool}
      (holds : c.machinery.Holds engine machine changed) :
      Splits c (c.fields engine machine changed)

end Context

namespace Machinery.Holds

variable {machinery : Machinery} {engine : Option Engine} {machine : Option Machine}
  {changed : Bool}

/-- Once settings have changed, the machine and its engine are left as they are. -/
lemma outdate (h : machinery.Holds engine machine changed) :
    machinery.outdate.Holds engine machine true := by
  cases h with
  | absent => exact .absent
  | outdated engine m => exact .outdated engine m
  | current engine m => exact .outdated engine m

/-- The session that is closed with the machine is the same. -/
lemma ticket?_eq (h : machinery.Holds engine machine changed) :
    machine.bind Machine.ticket? = machinery.ticket? := by
  cases h <;> rfl

/-- A machine that is not one for the settings that hold has to be built again. -/
lemma changed_eq_true (h : machinery.Holds engine machine changed)
    (hs : ∀ engine m, machinery ≠ .current engine m) : changed = true := by
  cases h with
  | current engine m => exact absurd rfl (hs engine m)
  | _ => rfl

end Machinery.Holds

/-! ## Operations, one step at a time -/

namespace Fields

variable {α β : Type}

/-- An operation that is refused is not continued. -/
lemma outcome_bind (x : Operation α) (k : α → Operation β) (f : Fields) :
    outcome (x >>= k) f =
      match outcome x f with
      | (.error e, f) => (.error e, f)
      | (.ok a, f) => outcome (k a) f := by
  cases h : outcome x f with
  | mk r f' =>
    have h : (x.run.run f).run = (r, f') := h
    simp only [outcome, ExceptT.run_bind, StateT.run_bind, Id.run_bind, h]
    cases r <;> rfl

/-- An answer leaves the fields as they are. -/
lemma outcome_pure (a : α) (f : Fields) : outcome (pure a) f = (.ok a, f) := rfl

/-- A refusal leaves the fields as they are by then. -/
lemma outcome_throw (e : CipherError) (f : Fields) :
    outcome (throw e : Operation α) f = (.error e, f) := rfl

/-- Reading the fields leaves them as they are. -/
lemma outcome_get (f : Fields) : outcome get f = (.ok f, f) := rfl

/-- An assignment is never refused. -/
lemma outcome_modify (g : Fields → Fields) (f : Fields) :
    outcome (modify g) f = (.ok (), g f) := rfl

/-- A value that could not be computed is a refusal. -/
lemma outcome_ofExcept (r : Except CipherError α) (f : Fields) :
    outcome (ofExcept r) f = (r, f) := by
  cases r <;> rfl

/-- A condition chooses between the outcomes. -/
lemma outcome_ite (p : Prop) [Decidable p] (x y : Operation α) (f : Fields) :
    outcome (if p then x else y) f = if p then outcome x f else outcome y f := by
  split <;> rfl

/-! ## Settings -/

/-- The fields after a call that sets what is given. -/
def adopt (f : Fields) (call : Call) (s : Settings) : Fields where
  toSettings := s
  backends := f.backends
  engine := f.engine
  machine := f.machine
  changed := match call.effect with
    | .rebuild => true
    | _ => f.changed
  restarting := match call.effect with
    | .restart => true
    | _ => f.restarting
  desynchronized := f.desynchronized && !call.clears
  ledger := f.ledger

/-- A setting looks at all that it may be refused for before it assigns anything: refused, it leaves
the fields as they were. -/
theorem perform_eq_of_isSetting (f : Fields) {call : Call} (h : call.IsSetting) :
    f.perform call =
      match f.toSettings.update call with
      | .error e => (.error e, f)
      | .ok s => (.ok none, f.adopt call s) := by
  obtain ⟨s, backends, engine, machine, changed, restarting, desynchronized, ledger⟩ := f
  -- the flag of a lost stream after a call that clears it, and after one that does not
  have forget : (desynchronized && !true) = false := Bool.and_false _
  have retain : (desynchronized && !false) = desynchronized := Bool.and_true _
  cases call with
  | setKey raw =>
    simp only [perform, Fields.call, setKey, markChanged, outcome_bind, outcome_get,
      outcome_ofExcept, outcome_modify, outcome_pure, Settings.update, Settings.setKey]
    cases s.algorithm.normalizeKey raw with
    | error e => rfl
    | ok key => simp only [Except.map, adopt, Call.effect, Call.clears, forget]
  | setKeyLength bits =>
    simp only [perform, Fields.call, setKeyLength, outcome_bind, outcome_get, outcome_ite,
      outcome_throw, outcome_modify, outcome_pure, Settings.update]
    have refused : (bits % 8 ≠ 0 ∨ s.algorithm.acceptsKeyLength (bits / 8) = false) ↔
        ¬(bits % 8 = 0 ∧ s.algorithm.acceptsKeyLength (bits / 8) = true) := by
      rw [Decidable.not_and_iff_or_not, Bool.not_eq_true]
    by_cases hb : bits % 8 = 0 ∧ s.algorithm.acceptsKeyLength (bits / 8) = true
    · rw [if_neg fun h => refused.mp h hb, if_pos hb]
      simp only [adopt, Call.effect, Call.clears, retain]
    · rw [if_pos (refused.mpr hb), if_neg hb]
  | setPassword password options =>
    simp only [perform, Fields.call, setPassword, setKey, markChanged, outcome_bind, outcome_get,
      outcome_ofExcept, outcome_modify, outcome_pure, Settings.update, Settings.setKey]
    cases PasswordKey.derive options password (options.keyLength.getD s.keyLength) with
    | error e => rfl
    | ok raw =>
      dsimp only
      cases s.algorithm.normalizeKey raw with
      | error e => rfl
      | ok key => simp only [Except.map, adopt, Call.effect, Call.clears, forget]
  | setIv iv =>
    simp only [perform, Fields.call, setIv, outcome_bind, outcome_modify, outcome_pure,
      Settings.update, adopt, Call.effect, Call.clears, forget]
  | setMode mode =>
    simp only [perform, Fields.call, setMode, markChanged, outcome_bind, outcome_get,
      outcome_ofExcept, outcome_modify, outcome_pure, Settings.update]
    cases s.algorithm.checkMode mode with
    | error e => rfl
    | ok _ => simp only [Except.map, adopt, Call.effect, Call.clears, retain]
  | setContinuous on =>
    simp only [perform, Fields.call, setContinuous, markChanged, outcome_bind, outcome_modify,
      outcome_ite, outcome_pure, Settings.update]
    cases on with
    | true => simp only [adopt, Call.effect, Call.clears, Bool.not_true, retain, ↓reduceIte]
    | false =>
      simp only [adopt, Call.effect, Call.clears, Bool.not_false, forget, Bool.false_eq_true,
        ↓reduceIte]
  | setPadding on =>
    simp only [perform, Fields.call, setPadding, outcome_bind, outcome_modify, outcome_pure,
      Settings.update, adopt, Call.effect, Call.clears, retain]
  | prefer engine =>
    simp only [perform, Fields.call, prefer, markChanged, outcome_bind, outcome_modify,
      outcome_pure, Settings.update, adopt, Call.effect, Call.clears, retain]
  | reset =>
    simp only [perform, Fields.call, reset, outcome_bind, outcome_modify, outcome_pure,
      Settings.update, adopt, Call.effect, Call.clears, forget]
  | process direction data => exact h.elim

/-- What makes fields ready for data, in the order in which it is looked at. -/
lemma outcome_ensureReady (f : Fields) :
    outcome ensureReady f =
      if f.desynchronized then (.error .streamDesynchronized, f)
      else if f.key.isNone then (.error .keyNotSet, f)
      else if f.changed || f.machine.isNone then outcome setup f
      else if !f.continuous || f.restarting then outcome restart f
      else (.ok (), f) := by
  simp only [ensureReady, outcome_bind, outcome_get, outcome_ite, outcome_throw, outcome_pure]

end Fields

/-! ## A context and its fields, call by call -/

namespace Context

open Fields

variable {c : Context} {f : Fields} {engine : Option Engine} {machine : Option Machine}
  {changed : Bool}

/-- Everything that a caller has set is a field of the context. -/
lemma settings_fields (c : Context) (engine : Option Engine) (machine : Option Machine)
    (changed : Bool) : (c.fields engine machine changed).toSettings = c.settings := rfl

/-- A context and its fields have the same settings. -/
lemma Splits.toSettings_eq (h : c.Splits f) : f.toSettings = c.settings := by
  cases h
  rfl

/-- A context and its fields tell the same engine. -/
lemma Splits.engine?_eq (h : c.Splits f) : f.engine? = c.engine? := by
  obtain ⟨holds⟩ := h
  rw [Context.engine?]
  generalize c.machinery = machinery at holds
  cases holds <;> rfl

/-- A context and its fields adopt a setting alike. -/
lemma Splits.adopt (h : c.Splits f) (call : Call) (s : Settings) :
    (c.adopt call s).Splits (f.adopt call s) := by
  obtain @⟨engine, machine, changed, holds⟩ := h
  have adopted : (c.adopt call s).machinery.Holds engine machine
      ((c.fields engine machine changed).adopt call s).changed := by
    simp only [Context.adopt, Fields.adopt]
    cases call.effect with
    | none => exact holds
    | restart => exact holds
    | rebuild => exact holds.outdate
  exact ⟨adopted⟩

/-- Under valid settings a machine can be built, and the fields come to hold it as the context
does. -/
lemma outcome_setup (hv : c.settings.Valid) {key : Bytes} (hk : c.key = some key)
    (holds : c.machinery.Holds engine machine changed) :
    ∃ engine' m c', c.rebuild key = .ok (m, c') ∧ c'.machinery = .current engine' m ∧
      outcome setup (c.fields engine machine changed) =
        (.ok (), c'.fields (some engine') (some m) false) := by
  obtain ⟨⟨engine', m⟩, hs⟩ := selected_ok hv hk c.close.ledger.nextTicket
  refine ⟨engine', m, _, by rw [rebuild_eq, hs], rfl, ?_⟩
  -- the session that is closed first is the one that the context closes
  rw [selected, close, ← holds.ticket?_eq] at hs
  simp only [setup, outcome_bind, outcome_get, outcome_modify, outcome_ofExcept, fields, settings,
    hk, hs]
  rw [holds.ticket?_eq]
  rfl

/-- A machine goes back to its start, unless a session refuses to, which changes nothing. -/
lemma outcome_restart (c : Context) (engine : Engine) (m : Machine) :
    outcome restart (c.fields (some engine) (some m) false) =
      match m.restart c.iv with
      | .error e => (.error e, c.fields (some engine) (some m) false)
      | .ok m' => (.ok (),
          fields { c with machinery := .current engine m', restarting := false }
            (some engine) (some m') false) := by
  simp only [restart, outcome_bind, outcome_get, outcome_ofExcept, outcome_modify, fields, settings]
  cases m.restart c.iv <;> rfl

/-- With a machine at hand there is nothing to be built, and it is taken back to the start unless the
stream goes on. -/
lemma ensureReady_current (hd : c.desynchronized = false) {key : Bytes} (hk : c.key = some key)
    {engine : Engine} {m : Machine} (hm : c.machinery = .current engine m) :
    (∃ e, c.ready = .error e ∧ outcome ensureReady (c.fields (some engine) (some m) false) =
      (.error e, c.fields (some engine) (some m) false)) ∨
      ∃ m' c', c.ready = .ok (m', c') ∧ c'.machinery = .current engine m' ∧
        outcome ensureReady (c.fields (some engine) (some m) false) =
          (.ok (), c'.fields (some engine) (some m') false) := by
  have keyed : ¬(c.fields (some engine) (some m) false).key.isNone := by
    rw [Option.isNone_iff_eq_none]
    exact fun h => Option.some_ne_none key (hk.symm.trans h)
  have synchronized : ¬(c.fields (some engine) (some m) false).desynchronized = true :=
    Bool.not_eq_true _ ▸ hd
  rw [outcome_ensureReady, if_neg synchronized, if_neg keyed, if_neg (by exact Bool.false_ne_true),
    outcome_restart, ready_of_current hd hk hm]
  have starts : (!c.continuous || c.restarting) = !(c.continuous && !c.restarting) := by
    rw [Bool.not_and, Bool.not_not]
  cases hc : (c.continuous && !c.restarting) with
  | true =>
    rw [hc] at starts
    exact .inr ⟨m, c, rfl, hm, if_neg (Bool.not_eq_true _ ▸ starts)⟩
  | false =>
    rw [hc] at starts
    cases hr : m.restart c.iv with
    | error e => exact .inl ⟨e, rfl, if_pos starts⟩
    | ok m' => exact .inr ⟨m', _, rfl, rfl, if_pos starts⟩

/-- A context and its fields are made ready alike: both hold the same machine then, or they are
refused for the same reason and are left as they were. -/
lemma ensureReady_splits (hv : c.settings.Valid) (h : c.Splits f) :
    (∃ e, c.ready = .error e ∧ outcome ensureReady f = (.error e, f)) ∨
      ∃ engine m c', c.ready = .ok (m, c') ∧ c'.machinery = .current engine m ∧
        outcome ensureReady f = (.ok (), c'.fields (some engine) (some m) false) := by
  obtain @⟨engine, machine, changed, holds⟩ := h
  cases hd : c.desynchronized with
  | true =>
    rw [outcome_ensureReady]
    exact .inl ⟨_, by rw [ready, if_pos hd], if_pos hd⟩
  | false =>
    have synchronized : ¬(c.fields engine machine changed).desynchronized = true :=
      Bool.not_eq_true _ ▸ hd
    cases hk : c.key with
    | none =>
      have keyless : (c.fields engine machine changed).key.isNone :=
        Option.isNone_iff_eq_none.2 hk
      rw [outcome_ensureReady, if_neg synchronized]
      exact .inl ⟨_, by simp only [ready, hd, hk, Bool.false_eq_true, if_false], if_pos keyless⟩
    | some key =>
      have keyed : ¬(c.fields engine machine changed).key.isNone := by
        rw [Option.isNone_iff_eq_none]
        exact fun h => Option.some_ne_none key (hk.symm.trans h)
      cases hm : c.machinery with
      | current engine' m =>
        rw [hm] at holds
        cases holds
        rcases ensureReady_current hd hk hm with refused | ⟨m', c', ready⟩
        · exact .inl refused
        · exact .inr ⟨engine', m', c', ready⟩
      | _ =>
        have stale : c.Stale := by
          intro engine m h
          rw [hm] at h
          cases h
        obtain ⟨engine', m, c', hr, hm, ho⟩ := outcome_setup hv hk holds
        have hc : (c.fields engine machine changed).changed = true := holds.changed_eq_true stale
        refine .inr ⟨engine', m, c', (ready_of_stale hd hk stale).trans hr, hm, ?_⟩
        rw [outcome_ensureReady, if_neg synchronized, if_neg keyed,
          if_pos (by rw [hc, Bool.true_or]), ho]

/-- Fields refuse data of the lengths that the context refuses. -/
lemma outcome_checkAlignment (c : Context) (engine : Option Engine) (machine : Option Machine)
    (changed : Bool) (length : Nat) :
    outcome (checkAlignment length) (c.fields engine machine changed) =
      if c.mode.isBlockMode ∧ length % c.blockSize ≠ 0 then
        (.error (.misalignedInput length c.blockSize), c.fields engine machine changed)
      else (.ok (), c.fields engine machine changed) := by
  simp only [checkAlignment, outcome_bind, outcome_get, outcome_ite, outcome_throw, outcome_pure]
  rfl

/-- The machine runs data, and whether its stream is lost is noted as in the context. -/
lemma outcome_transform (c : Context) (engine : Engine) (m : Machine) (direction : Direction)
    (data : Bytes) :
    outcome (transform direction data) (c.fields (some engine) (some m) false) =
      match m.apply direction data with
      | (.error e, m') => (.error e,
          (c.keep m' (c.continuous && e.isBackendFailure)).fields (some engine) (some m') false)
      | (.ok out, m') => (.ok out, (c.keep m' false).fields (some engine) (some m') false) := by
  simp only [transform, outcome_bind, outcome_get, fields]
  obtain ⟨r, m'⟩ := m.apply direction data
  cases r with
  | error e =>
    simp only [outcome_modify, keep, settings]
    cases hl : (c.continuous && e.isBackendFailure) with
    | true =>
      rw [Bool.and_comm] at hl
      simp only [hl, if_true, outcome_bind, outcome_modify, outcome_throw, Bool.or_true]
    | false =>
      rw [Bool.and_comm] at hl
      simp only [hl, Bool.false_eq_true, if_false, outcome_throw, Bool.or_false]
  | ok out => simp only [outcome_modify, outcome_pure, keep, settings, Bool.or_false]

/-- A context and its fields process data alike. -/
lemma process_splits (hv : c.settings.Valid) (h : c.Splits f) (direction : Direction)
    (data : Bytes) :
    (outcome (Fields.process direction data) f).1 = (c.process direction data).1 ∧
      (c.process direction data).2.Splits (outcome (Fields.process direction data) f).2 := by
  rcases ensureReady_splits hv h with ⟨e, hr, ho⟩ | ⟨engine, m, c', hr, hm, ho⟩
  · simp only [Fields.process, Context.process, outcome_bind, hr, ho]
    exact ⟨trivial, h⟩
  · have holds : c'.machinery.Holds (some engine) (some m) false := hm ▸ .current engine m
    have kept (m' : Machine) (lost : Bool) :
        (c'.keep m' lost).machinery.Holds (some engine) (some m') false := by
      rw [keep, hm]
      exact .current engine m'
    simp only [Fields.process, Context.process, outcome_bind, outcome_get, hr, ho, settings_fields,
      prepare_settings, outcome_checkAlignment]
    by_cases ha : c'.mode.isBlockMode ∧ (c'.prepare direction data).length % c'.blockSize ≠ 0
    · rw [if_pos ha, if_pos ha]
      exact ⟨rfl, ⟨holds⟩⟩
    · rw [if_neg ha, if_neg ha]
      simp only [outcome_transform]
      obtain ⟨r, m'⟩ := m.apply direction (c'.prepare direction data)
      cases r with
      | error e => exact ⟨rfl, ⟨kept m' _⟩⟩
      | ok out =>
        simp only [outcome_ofExcept, settings_fields, finish_settings]
        exact ⟨rfl, ⟨kept m' _⟩⟩

/-- A context and its fields answer every call alike, and go on to be a context and its fields. -/
lemma perform_splits (hv : c.settings.Valid) (h : c.Splits f) (call : Call) :
    (f.perform call).1 = (c.perform call).1 ∧ (c.perform call).2.Splits (f.perform call).2 := by
  have setting (hc : call.IsSetting) :
      (f.perform call).1 = (c.perform call).1 ∧ (c.perform call).2.Splits (f.perform call).2 := by
    rw [perform_eq_of_isSetting f hc, perform_setting c hc, h.toSettings_eq]
    cases c.settings.update call with
    | error e => exact ⟨rfl, h⟩
    | ok s => exact ⟨rfl, h.adopt call s⟩
  cases call with
  | process direction data =>
    obtain ⟨ha, hs⟩ := process_splits hv h direction data
    simp only [Fields.perform, Fields.call, outcome_bind, Context.perform, outcome_pure]
    rw [← ha]
    generalize outcome (Fields.process direction data) f = answer at hs
    obtain ⟨_ | out, f'⟩ := answer
    · exact ⟨rfl, hs⟩
    · exact ⟨rfl, hs⟩
  | _ => exact setting trivial

/-- A context and its fields answer every run of calls alike. -/
lemma run_splits (hv : c.settings.Valid) (h : c.Splits f) (calls : List Call) :
    (f.run calls).1 = (c.run calls).1 ∧ (c.run calls).2.Splits (f.run calls).2 := by
  induction calls generalizing c f with
  | nil => exact ⟨rfl, h⟩
  | cons call calls ih =>
    obtain ⟨ha, hs⟩ := perform_splits hv h call
    obtain ⟨hrest, hr⟩ := ih (valid_perform hv call) hs
    exact ⟨congr (congrArg List.cons ha) hrest, hr⟩

end Context

/-- There are fields where there is a context, and the same reason where there is none. -/
lemma create_fields (algorithm : Algorithm) (mode : Mode) (backends : List Backend) :
    Fields.create algorithm mode backends =
      (Context.create algorithm mode backends).map fun c => c.fields none none true := by
  rw [Fields.create, Context.create]
  cases algorithm.checkMode mode <;> rfl

/-- For every algorithm, mode and list of backends, a context and its fields answer every run of
calls alike. After it they tell the same engine, and the fields are in one of the combinations that
the machinery of the context stands for. -/
theorem run_fields {algorithm : Algorithm} {mode : Mode} {backends : List Backend} {c : Context}
    (h : Context.create algorithm mode backends = .ok c) :
    ∃ f, Fields.create algorithm mode backends = .ok f ∧ ∀ calls,
      (f.run calls).1 = (c.run calls).1 ∧
        (f.run calls).2.engine? = (c.run calls).2.engine? ∧
          (c.run calls).2.Splits (f.run calls).2 := by
  refine ⟨c.fields none none true, by rw [create_fields, h]; rfl, fun calls => ?_⟩
  obtain ⟨hv, hm⟩ : c.settings.Valid ∧ c.machinery = .absent := by
    rw [Context.create] at h
    cases hm : algorithm.checkMode mode with
    | error e => rw [hm] at h; cases h
    | ok u => rw [hm] at h; cases h; exact ⟨Settings.valid_initial hm, rfl⟩
  have holds : c.machinery.Holds none none true := hm ▸ .absent
  obtain ⟨ha, hs⟩ := Context.run_splits hv ⟨holds⟩ calls
  exact ⟨ha, hs.engine?_eq, hs⟩

end SymmetricCipher
