import SymmetricCipher.Proofs.Padding
import SymmetricCipher.Proofs.PasswordKey
import SymmetricCipher.Proofs.Reference

/-!
# Errors

Which errors come from where. Settings are refused for keys, modes and passwords, data for its
length and its padding, and a backend gives up in a session only. No one but a context itself speaks
of a lost stream.
-/

namespace SymmetricCipher

/-! ## Settings -/

/-- A key is refused for its length. -/
lemma Algorithm.normalizeKey_error {algorithm : Algorithm} {raw : Bytes} {e : CipherError}
    (h : algorithm.normalizeKey raw = .error e) : e = .invalidKeyLength algorithm raw.length := by
  cases algorithm with
  | twofish =>
    simp only [normalizeKey, Twofish.normalizeKey] at h
    split at h
    · rename_i hl
      cases h
      rw [hl]
    · split at h
      · cases h
      · split at h <;> cases h
  | tripleDes | tripleDesInnerCbc =>
    simp only [normalizeKey, TripleDes.expandKey] at h
    split at h
    · cases h
    · split at h
      · cases h
      · split at h
        · cases h
        · cases h
          rfl
  | _ =>
    simp only [normalizeKey] at h
    split at h
    · cases h
    · cases h
      rfl

/-- A mode is refused if the algorithm does not run in it. -/
lemma Algorithm.checkMode_error {algorithm : Algorithm} {mode : Mode} {e : CipherError}
    (h : algorithm.checkMode mode = .error e) : e = .unsupportedMode algorithm mode := by
  rw [checkMode] at h
  split at h
  · cases h
  · cases h
    rfl

namespace Settings

variable {s : Settings} {direction : Direction} {data : Bytes} {e : CipherError}

/-- What a setting is refused for. -/
inductive Refused (s : Settings) : CipherError → Prop where
  | keyLength (length : Nat) : Refused s (.invalidKeyLength s.algorithm length)
  | mode (mode : Mode) : Refused s (.unsupportedMode s.algorithm mode)
  | iterations : Refused s .invalidIterationCount
  | derivedLength (requested max : Nat) : Refused s (.derivedKeyTooLong requested max)

/-- What data is refused for before it is processed. -/
inductive Rejected (s : Settings) : CipherError → Prop where
  | key : Rejected s .keyNotSet
  | length (length : Nat) : Rejected s (.misalignedInput length s.algorithm.blockSize)

/-- A key is refused for its length only. -/
lemma setKey_error {raw : Bytes} (h : s.setKey raw = .error e) : s.Refused e := by
  cases hk : s.algorithm.normalizeKey raw with
  | error e' =>
    rw [setKey, hk] at h
    cases h
    cases Algorithm.normalizeKey_error hk
    exact .keyLength _
  | ok key => rw [setKey, hk] at h; cases h

/-- Every setting is refused for one of the reasons of `Refused`. -/
lemma update_error {call : Call} (h : s.update call = .error e) : s.Refused e := by
  cases call with
  | setKey raw => exact setKey_error h
  | setKeyLength bits =>
    rw [update] at h
    split at h
    · cases h
    · cases h
      exact .keyLength _
  | setPassword password options =>
    rw [update] at h
    split at h
    · rename_i he
      cases h
      rcases PasswordKey.derive_eq_error_iff.1 he with ⟨-, rfl⟩ | ⟨-, -, -, rfl⟩
      · exact .iterations
      · exact .derivedLength _ _
    · exact setKey_error h
  | setMode mode =>
    cases hm : s.algorithm.checkMode mode with
    | error e' =>
      rw [update, hm] at h
      cases h
      cases Algorithm.checkMode_error hm
      exact .mode mode
    | ok _ => rw [update, hm] at h; cases h
  | _ => cases h

/-- Before it is processed, data is refused for want of a key or for its length. -/
lemma accept_error (h : s.accept direction data = .error e) : s.Rejected e := by
  unfold accept at h
  split at h
  · cases h
    exact .key
  · dsimp only at h
    split at h
    · cases h
      exact .length _
    · cases h

/-- With a key it is the length. -/
lemma accept_error_of_key {key : Bytes} (hk : s.key = some key)
    (h : s.accept direction data = .error e) :
    ∃ length, e = .misalignedInput length s.algorithm.blockSize := by
  cases accept_error h with
  | key =>
    simp only [accept, hk] at h
    split at h <;> cases h
  | length length => exact ⟨length, rfl⟩

/-- What is decrypted is refused for its padding only. -/
lemma finish_error (h : s.finish direction data = .error e) : e = .invalidPadding := by
  cases direction with
  | encrypt => cases h
  | decrypt =>
    rw [finish] at h
    split at h
    · exact Padding.remove_error h
    · cases h

end Settings

/-! ## Machines -/

/-- What a mode of operation refuses: data that does not end with a whole block, and STREAM. -/
inductive CipherError.OfMode : CipherError → Prop where
  | misaligned (length blockSize : Nat) : OfMode (.misalignedInput length blockSize)
  | stream : OfMode .streamModeOnBlockCipher

/-- The fault of a mode is not blamed on a backend. -/
lemma CipherError.OfMode.isBackendFailure {e : CipherError} (h : e.OfMode) :
    e.isBackendFailure = false := by
  cases h <;> rfl

/-- A failure of a backend names it and gives a reason. -/
lemma CipherError.isBackendFailure_iff {e : CipherError} :
    e.isBackendFailure = true ↔ ∃ name reason, e = .backendFailed name reason := by
  cases e with
  | backendFailed name reason => exact ⟨fun _ => ⟨name, reason, rfl⟩, fun _ => rfl⟩
  | _ => exact ⟨nofun, nofun⟩

/-- A mode fails for the length of its data, or because it is STREAM. -/
lemma Duplex.apply_error {d : Duplex} {cipher : BlockCipher} {direction : Direction} {data : Bytes}
    {e : CipherError} (h : d.apply cipher direction data = .error e) : e.OfMode := by
  rw [apply] at h
  split at h
  · cases h
    exact .misaligned _ _
  · cases hm : d.mode with
    | stream =>
      rw [hm] at h
      cases h
      exact .stream
    | _ => rw [hm] at h; cases h

/-- What a session is refused by: its mode, or the backend. A simulated one may blame the
padding. -/
inductive Session.Failed : CipherError → Prop where
  | mode {e : CipherError} (h : e.OfMode) : Failed e
  | padding : Failed .invalidPadding
  | backend (name reason : String) : Failed (.backendFailed name reason)

/-- A session fails through its mode or its backend, or blames the padding. -/
lemma Session.transform_error {s s' : Session} {direction : Direction} {data : Bytes}
    {e : CipherError} (h : s.transform direction data = (.error e, s')) : Session.Failed e := by
  cases s with
  | provider s =>
    simp only [transform, Provider.Session.transform] at h
    split at h
    · rename_i he
      cases h
      split at he <;> cases he
      exact .backend _ _
    · cases h
  | simulated s =>
    simp only [transform, Simulated.Session.transform] at h
    split at h
    · cases h
      split
      · exact .padding
      · exact .backend _ _
    · split at h
      · rename_i he
        cases h
        exact .mode (Duplex.apply_error he)
      · cases h

/-- A chain of the built-in backend that cannot start is blamed on the backend. -/
lemma Provider.Chain.start_error {mode : Mode} {n : Nat} {iv : Bytes} {e : CipherError}
    (h : Chain.start mode n iv = .error e) : ∃ reason, e = .backendFailed name reason := by
  cases mode with
  | cbc =>
    rw [start] at h
    split at h <;> cases h
    exact ⟨_, rfl⟩
  | ecb => cases h
  | _ => cases h; exact ⟨_, rfl⟩

namespace Machine

variable {m m' : Machine} {direction : Direction} {data iv : Bytes} {e : CipherError}

/-- Three layers fail for the reason that one of them does. -/
lemma applyLayers_error {ciphers : TripleDes.Layers BlockCipher}
    {duplexes : TripleDes.Layers Duplex}
    (h : applyLayers ciphers duplexes direction data = .error e) : e.OfMode := by
  cases direction <;> simp only [applyLayers, bind, Except.bind, pure, Except.pure] at h
  all_goals
    split at h
    · rename_i he
      cases h
      exact Duplex.apply_error he
    · split at h
      · rename_i he
        cases h
        exact Duplex.apply_error he
      · split at h
        · rename_i he
          cases h
          exact Duplex.apply_error he
        · cases h

/-- Where no session is held, a machine fails for its mode only. -/
lemma apply_error (h : m.apply direction data = (.error e, m')) :
    e.OfMode ∨ ∃ s s', m = .session s ∧ m' = .session s' ∧
      s.transform direction data = (.error e, s') := by
  cases m with
  | chained cipher duplex =>
    rw [apply] at h
    split at h
    · rename_i he
      cases h
      exact .inl (Duplex.apply_error he)
    · cases h
  | layered ciphers duplexes =>
    rw [apply] at h
    split at h
    · rename_i he
      cases h
      exact .inl (applyLayers_error he)
    · cases h
  | keystream duplex => cases h
  | session s =>
    cases hs : s.transform direction data with
    | mk r s' =>
      simp only [apply, hs] at h
      cases h
      exact .inr ⟨s, s', rfl, rfl, hs⟩

/-- Only a backend refuses a restart. -/
lemma restart_error (h : m.restart iv = .error e) :
    ∃ name reason, e = .backendFailed name reason := by
  cases m with
  | session s =>
    cases s with
    | provider s =>
      simp only [restart, Session.restart, Provider.Session.restart] at h
      cases hc : Provider.Chain.start s.mode s.cipher.blockSize iv with
      | error e' =>
        rw [hc] at h
        cases h
        exact ⟨_, Provider.Chain.start_error hc⟩
      | ok chain => rw [hc] at h; cases h
    | simulated s =>
      simp only [restart, Session.restart, Simulated.Session.restart] at h
      cases hf : s.faults.onRestart with
      | true =>
        rw [hf] at h
        cases h
        exact ⟨_, _, rfl⟩
      | false => rw [hf] at h; cases h
  | _ => cases h

end Machine

end SymmetricCipher
