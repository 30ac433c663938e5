import Mathlib.Tactic.Lemma
import SymmetricCipher.Context.Call

/-!
# Settings

What a caller has set, apart from all that a context keeps to process data. `Settings.update` says
what a call sets, and `Context.perform_setting` that a context sets the same, and what it does to
its machine then: nothing, or it takes the machine back to the start before the next data, or it
builds the machine again.
-/

namespace SymmetricCipher

/-- What a caller has set. -/
structure Settings where
  algorithm : Algorithm
  mode : Mode
  key : Option Bytes
  keyLength : Nat
  iv : Bytes
  continuous : Bool
  padding : Bool
  preferred : Option Engine
  deriving DecidableEq, Repr

namespace Settings

/-- What holds before anything is set. -/
def initial (algorithm : Algorithm) (mode : Mode) : Settings where
  algorithm := algorithm
  mode := mode
  key := none
  keyLength := algorithm.defaultKeyLength
  iv := List.replicate algorithm.blockSize 0
  continuous := false
  padding := true
  preferred := none

/-- Sets the key to the normalized form of the given one. -/
def setKey (s : Settings) (raw : Bytes) : Except CipherError Settings :=
  (s.algorithm.normalizeKey raw).map fun key =>
    { s with key := some key, keyLength := key.length }

/-- What a call sets, or why it is refused. -/
def update (s : Settings) : Call → Except CipherError Settings
  | .setKey raw => s.setKey raw
  | .setKeyLength bits =>
    if bits % 8 = 0 ∧ s.algorithm.acceptsKeyLength (bits / 8) then
      .ok { s with keyLength := bits / 8 }
    else .error (.invalidKeyLength s.algorithm (bits / 8))
  | .setPassword password options =>
    match PasswordKey.derive options password (options.keyLength.getD s.keyLength) with
    | .error e => .error e
    | .ok raw => s.setKey raw
  | .setIv iv => .ok { s with iv := Bytes.fit s.algorithm.blockSize iv }
  | .setMode mode => (s.algorithm.checkMode mode).map fun _ => { s with mode := mode }
  | .setContinuous on => .ok { s with continuous := on }
  | .setPadding on => .ok { s with padding := on }
  | .prefer engine => .ok { s with preferred := engine }
  | .reset | .process _ _ => .ok s

end Settings

namespace Call

/-- What may become of the stream and its machine. -/
inductive Effect where
  /-- The stream goes on. -/
  | none
  /-- The stream starts again. -/
  | restart
  /-- The machine is built again, at the start of the stream. -/
  | rebuild
  deriving DecidableEq, Repr

/-- What a call means to the machine, unless the call is refused. -/
def effect : Call → Effect
  | setKeyLength _ | setPadding _ | process _ _ => .none
  | setIv _ | reset => .restart
  | setKey _ | setPassword _ _ | setMode _ | setContinuous _ | prefer _ => .rebuild

/-- Whether a lost stream is forgotten with the call, unless the call is refused. -/
def clears : Call → Bool
  | setKey _ | setPassword _ _ | setIv _ | reset => true
  | setContinuous on => !on
  | setKeyLength _ | setMode _ | setPadding _ | prefer _ | process _ _ => false

/-- Every call but those with data. -/
def IsSetting : Call → Prop
  | process _ _ => False
  | _ => True

end Call

namespace Settings

variable {s s' : Settings} {call : Call}

/-- While the stream goes on, nothing is set that it depends on. -/
lemma update_of_effect_none (h : s.update call = .ok s') (he : call.effect = .none) :
    ∃ keyLength padding, s' = { s with keyLength := keyLength, padding := padding } := by
  cases call with
  | setKeyLength bits =>
    rw [update] at h
    split at h <;> cases h
    exact ⟨_, _, rfl⟩
  | setPadding on => cases h; exact ⟨_, _, rfl⟩
  | process direction data => cases h; exact ⟨_, _, rfl⟩
  | _ => cases he

/-- Where the stream starts again with the same machine, at most another start is set. -/
lemma update_of_effect_restart (h : s.update call = .ok s') (he : call.effect = .restart) :
    ∃ iv, s' = { s with iv := iv } := by
  cases call with
  | setIv iv => cases h; exact ⟨_, rfl⟩
  | reset => cases h; exact ⟨_, rfl⟩
  | _ => cases he

end Settings

namespace Context

/-- What a caller has set in a context. -/
def settings (c : Context) : Settings where
  algorithm := c.algorithm
  mode := c.mode
  key := c.key
  keyLength := c.keyLength
  iv := c.iv
  continuous := c.continuous
  padding := c.padding
  preferred := c.preferred

/-- The context after a call that sets what is given. -/
def adopt (c : Context) (call : Call) (s : Settings) : Context where
  algorithm := s.algorithm
  mode := s.mode
  key := s.key
  keyLength := s.keyLength
  iv := s.iv
  continuous := s.continuous
  padding := s.padding
  preferred := s.preferred
  backends := c.backends
  machinery := match call.effect with
    | .rebuild => c.machinery.outdate
    | _ => c.machinery
  restarting := match call.effect with
    | .restart => true
    | _ => c.restarting
  desynchronized := c.desynchronized && !call.clears
  ledger := c.ledger

/-- A context sets what the settings alone would, and its machine is touched by the effect of the
call only. -/
theorem perform_setting (c : Context) {call : Call} (h : call.IsSetting) :
    c.perform call =
      match c.settings.update call with
      | .error e => (.error e, c)
      | .ok s => (.ok none, c.adopt call s) := by
  -- the flag of a lost stream after a call that clears it, and after one that does not
  have forget : (c.desynchronized && !true) = false := Bool.and_false _
  have retain : (c.desynchronized && !false) = c.desynchronized := Bool.and_true _
  cases call with
  | setKey raw =>
    simp only [perform, setKey, Settings.update, Settings.setKey, settings]
    cases c.algorithm.normalizeKey raw with
    | error e => rfl
    | ok key => simp only [settle, Except.map, outdate, adopt, Call.effect, Call.clears, forget]
  | setKeyLength bits =>
    by_cases hb : bits % 8 = 0 ∧ c.algorithm.acceptsKeyLength (bits / 8) = true
    · have hs : c.settings.update (.setKeyLength bits) =
          .ok { c.settings with keyLength := bits / 8 } := if_pos hb
      rw [hs, perform, setKeyLength, if_pos hb]
      simp only [settle, settings, adopt, Call.effect, Call.clears, retain]
    · have hs : c.settings.update (.setKeyLength bits) =
          .error (.invalidKeyLength c.algorithm (bits / 8)) := if_neg hb
      rw [hs, perform, setKeyLength, if_neg hb, settle]
  | setPassword password options =>
    simp only [perform, setPassword, Settings.update, settings]
    cases PasswordKey.derive options password (options.keyLength.getD c.keyLength) with
    | error e => rfl
    | ok raw =>
      simp only [setKey, Settings.setKey]
      cases c.algorithm.normalizeKey raw with
      | error e => rfl
      | ok key => simp only [settle, Except.map, outdate, adopt, Call.effect, Call.clears, forget]
  | setIv iv =>
    simp only [perform, setIv, blockSize, Settings.update, settings, adopt, Call.effect,
      Call.clears, forget]
  | setMode mode =>
    simp only [perform, setMode, Settings.update, settings]
    cases c.algorithm.checkMode mode with
    | error e => rfl
    | ok _ => simp only [settle, Except.map, outdate, adopt, Call.effect, Call.clears, retain]
  | setContinuous on =>
    simp only [perform, setContinuous, outdate, Settings.update, settings, adopt, Call.effect,
      Call.clears, Bool.not_not, Bool.and_comm]
  | setPadding on =>
    simp only [perform, setPadding, Settings.update, settings, adopt, Call.effect, Call.clears,
      retain]
  | prefer engine =>
    simp only [perform, prefer, outdate, Settings.update, settings, adopt, Call.effect,
      Call.clears, retain]
  | reset =>
    simp only [perform, reset, Settings.update, settings, adopt, Call.effect, Call.clears, forget]
  | process direction data => exact h.elim

/-- A call is refused and changes nothing, or sets something, or is one with data. -/
theorem perform_cases (c : Context) {motive : Call → Answer × Context → Prop}
    (refused : ∀ {call : Call} {e : CipherError}, call.IsSetting →
      c.settings.update call = .error e → motive call (.error e, c))
    (settled : ∀ {call : Call} {s : Settings}, call.IsSetting →
      c.settings.update call = .ok s → motive call (.ok none, c.adopt call s))
    (processed : ∀ (direction : Direction) (data : Bytes),
      motive (.process direction data)
        ((c.process direction data).1.map some, (c.process direction data).2))
    (call : Call) : motive call (c.perform call) := by
  have setting (hc : call.IsSetting) : motive call (c.perform call) := by
    rw [perform_setting c hc]
    cases hu : c.settings.update call with
    | error e => exact refused hc hu
    | ok s => exact settled hc hu
  cases call with
  | process direction data => exact processed direction data
  | _ => exact setting trivial

/-- What every call keeps is kept by a run. -/
lemma run_keeps {P : Context → Prop}
    (hstep : ∀ {c : Context}, P c → ∀ call, P (c.perform call).2) {c : Context} (h : P c)
    (calls : List Call) : P (c.run calls).2 := by
  induction calls generalizing c with
  | nil => exact h
  | cons call calls ih => exact ih (hstep h call)

end Context

end SymmetricCipher
