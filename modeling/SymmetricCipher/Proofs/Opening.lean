import Mathlib.Tactic.Lemma
import SymmetricCipher.Context.Machine

/-!
# Opening and restarting sessions

What a session is once a backend has opened it, and what is left of it once it went back to the
start. The definitions are unfolded here; later proofs go by the cases.
-/

namespace SymmetricCipher

/-- A backend opens a session with its cipher, where the mode starts. -/
inductive Backend.Opened (ticket : Nat) (algorithm : Algorithm) (mode : Mode) (key iv : Bytes) :
    Backend → Session → Prop where
  | provider {suite : Provider.Suite} {cipher : BlockCipher} {chain : Provider.Chain}
      (keyed : Provider.cipher algorithm key suite = .ok cipher)
      (starts : Provider.Chain.start mode cipher.blockSize iv = .ok chain) :
      Opened ticket algorithm mode key iv (.provider suite)
        (.provider ⟨suite, mode, cipher, chain⟩)
  | simulated {sim : Simulated} {cipher : BlockCipher} (works : sim.faults.onInit = false)
      (keyed : algorithm.blockCipher key = .ok cipher) :
      Opened ticket algorithm mode key iv (.simulated sim)
        (.simulated ⟨ticket, sim.name, sim.faults, cipher, .start mode iv, 0⟩)

/-- A session goes back to the start with the cipher it has. -/
inductive Session.Restarted (iv : Bytes) : Session → Session → Prop where
  | provider {s : Provider.Session} {chain : Provider.Chain}
      (starts : Provider.Chain.start s.mode s.cipher.blockSize iv = .ok chain) :
      Restarted iv (.provider s) (.provider { s with chain := chain })
  | simulated {s : Simulated.Session} (works : s.faults.onRestart = false) :
      Restarted iv (.simulated s) (.simulated { s with duplex := s.duplex.reset iv })

variable {ticket : Nat} {algorithm : Algorithm} {mode : Mode} {key iv : Bytes}

/-- The sessions that a backend gives. -/
lemma Backend.init_eq_ok_iff {backend : Backend} {s : Session} :
    backend.init ticket algorithm mode key iv = .ok s ↔
      backend.Opened ticket algorithm mode key iv s := by
  constructor
  · intro h
    cases backend with
    | provider suite =>
      rw [init, Provider.Session.init] at h
      cases hc : Provider.cipher algorithm key suite with
      | error e => rw [hc] at h; cases h
      | ok cipher =>
        rw [hc] at h
        dsimp only at h
        cases hchain : Provider.Chain.start mode cipher.blockSize iv with
        | error e => rw [hchain] at h; cases h
        | ok chain => rw [hchain] at h; cases h; exact .provider hc hchain
    | simulated sim =>
      rw [init, Simulated.init] at h
      cases hf : sim.faults.onInit with
      | true => rw [hf] at h; cases h
      | false =>
        cases hc : algorithm.blockCipher key with
        | error e => rw [hf, hc] at h; cases h
        | ok cipher => rw [hf, hc] at h; cases h; exact .simulated hf hc
  · rintro (⟨keyed, starts⟩ | ⟨works, keyed⟩)
    · simp only [init, Provider.Session.init, keyed, starts, Except.map]
    · simp only [init, Simulated.init, works, keyed, Except.map]
      rfl

/-- The sessions that are left after a restart. -/
lemma Session.restart_eq_ok_iff {s s' : Session} :
    s.restart iv = .ok s' ↔ Restarted iv s s' := by
  constructor
  · intro h
    cases s with
    | provider s =>
      rw [restart, Provider.Session.restart] at h
      cases hc : Provider.Chain.start s.mode s.cipher.blockSize iv with
      | error e => rw [hc] at h; cases h
      | ok chain => rw [hc] at h; cases h; exact .provider hc
    | simulated s =>
      rw [restart, Simulated.Session.restart] at h
      cases hf : s.faults.onRestart with
      | true => rw [hf] at h; cases h
      | false => rw [hf] at h; cases h; exact .simulated hf
  · rintro (⟨starts⟩ | ⟨works⟩)
    · simp only [restart, Provider.Session.restart, starts, Except.map]
    · simp only [restart, Simulated.Session.restart, works, Except.map]
      rfl

namespace Machine

/-- The machines that are left after a restart of a session. -/
lemma restart_session_iff {s : Session} {m : Machine} :
    (session s).restart iv = .ok m ↔ ∃ s', s.Restarted iv s' ∧ m = session s' := by
  simp only [← Session.restart_eq_ok_iff]
  rw [restart]
  cases s.restart iv with
  | error e => simp
  | ok s' => simp [eq_comm]

/-- A backend is run on through its single blocks, or in a session. -/
lemma accelerated_eq_ok_iff {backend : Backend} {emulate : Bool} {m : Machine} :
    accelerated backend emulate ticket algorithm mode key iv = .ok m ↔
      (emulate = true ∧ ∃ cipher, backend.rawBlock algorithm key = .ok cipher ∧
        m = chained cipher (.start mode iv)) ∨
      emulate = false ∧ ∃ s, backend.Opened ticket algorithm mode key iv s ∧ m = session s := by
  simp only [← Backend.init_eq_ok_iff]
  cases emulate with
  | true => cases h : backend.rawBlock algorithm key <;> simp [accelerated, h, eq_comm]
  | false => cases h : backend.init ticket algorithm mode key iv <;> simp [accelerated, h, eq_comm]

end Machine

end SymmetricCipher
