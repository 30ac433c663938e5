import SymmetricCipher.Proofs.Processing

/-!
# Contexts over backends that fail

Whatever backends a context has and however they fail, no output is wrong: data that is answered is
what a single pass gives after the data of just those calls that the machine took since the stream
started. A backend that cannot be opened is replaced by software before any data is processed, and
what a refused restart leaves behind is never gone on from.
-/

namespace SymmetricCipher

namespace Context

/-- A call that takes the machine back to the start is never refused. -/
lemma note_of_effect_restart {c : Context} {call : Call} (he : call.effect = .restart)
    (logs : Logs) : c.note logs call = .empty := by
  cases call with
  | setIv iv => rfl
  | reset => rfl
  | _ => cases he

namespace Sound

variable {c : Context} {logs : Logs} {direction : Direction} {data out : Bytes}

/-- Data that is answered is what the settings and the logs demand. -/
lemma respond_of_process (h : c.Sound logs)
    (ho : (c.process direction data).1 = .ok out) :
    c.settings.respond (c.settings.opening logs direction) direction data = .ok out := by
  rcases h.process direction data with ⟨e, he, -⟩ | ⟨x, -, hr, -⟩
  · rw [ho] at he
    cases he
  · rw [← hr, ho]

/-- Data that the machine did not take is not missed by the calls after it. -/
lemma respond_of_failed (h : c.Sound logs) {next : Direction} {more : Bytes}
    (hf : c.passed? direction data = none)
    (ho : ((c.process direction data).2.process next more).1 = .ok out) :
    c.settings.respond (c.settings.opening logs next) next more = .ok out := by
  rcases h.process direction data with ⟨e, -, -, hs⟩ | ⟨x, hp, -, -⟩
  · have hr := hs.respond_of_process ho
    rw [settings_process, Settings.opening_opening] at hr
    exact hr
  · rw [hf] at hp
    cases hp

/-- After a restart data is answered from the initialization vector, or not at all. -/
lemma respond_of_restart (h : c.Sound logs) {call : Call} (he : call.effect = .restart)
    (ho : ((c.perform call).2.process direction data).1 = .ok out) :
    (c.perform call).2.settings.respond [] direction data = .ok out := by
  have hs := h.perform call
  rw [note_of_effect_restart he] at hs
  have hr := hs.respond_of_process ho
  rw [Settings.opening_empty] at hr
  exact hr

/-- A context whose backend cannot be opened has software in its place, at the start of the
stream. -/
lemma process_of_fallback (h : c.Sound logs) (hd : c.desynchronized = false) {key : Bytes}
    (hk : c.key = some key) (hs : c.Stale) {backend : Backend} {emulate : Bool} {e : CipherError}
    (hsel : Selection.select c.backends c.algorithm c.mode key.length c.preferred =
      .accelerated backend emulate)
    (hacc : Machine.accelerated backend emulate c.close.ledger.nextTicket c.algorithm c.mode key
      c.iv = .error e) (direction : Direction) (data : Bytes) :
    (c.process direction data).1 = c.settings.respond [] direction data ∧
      (c.process direction data).2.engine? = some .software := by
  obtain ⟨m, hm, -, -⟩ := Machine.software_ok h.valid.supports (h.valid.key hk) h.valid.iv
  have hselected : c.selected key c.close.ledger.nextTicket = .ok (.software, m) := by
    have hm : Machine.software c.algorithm c.mode key c.iv = .ok m := hm
    simp only [selected, hsel, Machine.ofSelection, hacc, hm]
    rfl
  have hr := (ready_of_stale hd hk hs).trans (rebuild_eq c key)
  rw [hselected] at hr
  obtain ⟨engine, m', ledger, hcurrent, -, hp, -⟩ :=
    h.process_of_ticket? hr (Machine.ticket?_software hm) direction data
  cases hcurrent
  -- nothing has gone through since the stream started
  have hempty : c.settings.opening logs direction = [] := by
    rw [h.fresh (.inr hs), Settings.opening_empty]
    rfl
  rw [hp, hempty]
  exact ⟨rfl, rfl⟩

end Sound

/-- What a context is worth whose backends fail, with the logs of what went through it since the
stream started. -/
structure Truthful (c : Context) (logs : Logs) : Prop where
  /-- Data that is answered is what a single pass gives after the logs. -/
  answers : ∀ {direction : Direction} {data out : Bytes},
    (c.process direction data).1 = .ok out →
    c.settings.respond (c.settings.opening logs direction) direction data = .ok out
  /-- The data of a call that fails does not enter the chain. -/
  skips : ∀ {direction next : Direction} {data more out : Bytes},
    c.passed? direction data = none →
    ((c.process direction data).2.process next more).1 = .ok out →
    c.settings.respond (c.settings.opening logs next) next more = .ok out
  /-- Where the backend cannot be opened, software answers from the initialization vector. -/
  fallback : ∀ {key : Bytes} {backend : Backend} {emulate : Bool} {e : CipherError},
    c.desynchronized = false → c.key = some key → c.Stale →
    Selection.select c.backends c.algorithm c.mode key.length c.preferred =
      .accelerated backend emulate →
    Machine.accelerated backend emulate c.close.ledger.nextTicket c.algorithm c.mode key c.iv =
      .error e →
    ∀ (direction : Direction) (data : Bytes),
      (c.process direction data).1 = c.settings.respond [] direction data ∧
        (c.process direction data).2.engine? = some .software
  /-- Once the stream is to start again, nothing is answered but from the initialization vector. -/
  restarts : ∀ {call : Call} {direction : Direction} {data out : Bytes}, call.effect = .restart →
    ((c.perform call).2.process direction data).1 = .ok out →
    (c.perform call).2.settings.respond [] direction data = .ok out
  /-- A context that is not ready stays as it is, so that a refused restart is tried again. -/
  refuses : ∀ {e : CipherError}, c.ready = .error e →
    ∀ (direction : Direction) (data : Bytes), c.process direction data = (.error e, c)

/-- Whatever the backends are and however they fail, a context is truthful after every run. -/
theorem truthful_run {backends : List Backend} (hb : ∀ b ∈ backends, b.Faithful)
    {algorithm : Algorithm} {mode : Mode} (h : algorithm.supports mode = true) :
    ∃ c, Context.create algorithm mode backends = .ok c ∧
      ∀ calls, (c.run calls).2.Truthful (c.history .empty calls) := by
  obtain ⟨c, hc, hcreated⟩ := create_ok h backends
  refine ⟨c, hc, fun calls => ?_⟩
  have hs := (Sound.of_created hcreated hb).run calls
  refine ⟨hs.respond_of_process, hs.respond_of_failed,
    fun hd hk hst hsel hacc => hs.process_of_fallback hd hk hst hsel hacc,
    hs.respond_of_restart, fun hr direction data => (process_of_error hr).1⟩

/-- A backend that breaks down after a call, and the built-in one behind it. -/
def brokenBackends : List Backend :=
  [.simulated (.ofOffers "fake" [(.cbc, ⟨.aes, none⟩)] [] { afterCalls := some 1 }),
    .provider .standard]

/-- Under backends that break down a context is truthful, too. -/
theorem truthful_run_brokenBackends :
    (∀ b ∈ brokenBackends, b.Faithful) ∧ Algorithm.aes.supports .cbc = true ∧
    ∃ c, Context.create .aes .cbc brokenBackends = .ok c ∧
      ∀ calls, (c.run calls).2.Truthful (c.history .empty calls) := by
  have hb : ∀ b ∈ brokenBackends, b.Faithful := by
    intro b hb
    simp only [brokenBackends, List.mem_cons, List.not_mem_nil, or_false] at hb
    rcases hb with rfl | rfl
    · trivial
    · exact Provider.Suite.faithful_standard
  exact ⟨hb, rfl, truthful_run hb rfl⟩

end Context

end SymmetricCipher
