import SymmetricCipher.Proofs.Errors
import SymmetricCipher.Proofs.Processing
import SymmetricCipher.Proofs.Runs

/-!
# Lost streams

A session that fails while the stream goes on leaves its position unknown. `Context.Lost` says of a
run that this happened, and that no call since has given the stream up. A context refuses all data
for as long, and for no longer: its flag is set by one kind of call and cleared by four.
-/

namespace SymmetricCipher

namespace Context

/-- A call whose data a session fails to run, for want of its backend, while the stream is to go
on. -/
def Loses (c : Context) : Call → Prop
  | .process direction data =>
    c.continuous = true ∧ ∃ s c' key x name reason s', c.ready = .ok (.session s, c') ∧
      c.settings.accept direction data = .ok (key, x) ∧
      s.transform direction x = (.error (.backendFailed name reason), s')
  | _ => False

/-- A call that gives a stream up: it sets a key, by itself or by a password, or the initialization
vector, starts the stream again, or lets every call stand alone, and is not refused. -/
def GivesUp (c : Context) (call : Call) : Prop :=
  call.clears = true ∧ ∃ answer, (c.perform call).1 = .ok answer

/-- In a run a stream was lost, and no call since has given it up. -/
def Lost (c : Context) (calls : List Call) : Prop :=
  ∃ before failing after, calls = before ++ failing :: after ∧ (c.run before).2.Loses failing ∧
    ∀ mid call rest, after = mid ++ call :: rest →
      ¬(c.run (before ++ failing :: mid)).2.GivesUp call

variable {c c' : Context} {m : Machine} {direction : Direction} {data key x : Bytes}
  {calls : List Call} {call : Call}

/-- A setting runs no data. -/
lemma not_loses (h : call.IsSetting) : ¬c.Loses call := by
  cases call with
  | process direction data => exact h.elim
  | _ => exact id

/-- A ready machine loses the stream if its backend gives up while the stream is to go on. -/
lemma loses_iff (hr : c.ready = .ok (m, c'))
    (ha : c.settings.accept direction data = .ok (key, x)) :
    c.Loses (.process direction data) ↔
      c.continuous = true ∧ ∃ e m', m.apply direction x = (.error e, m') ∧
        e.isBackendFailure = true := by
  constructor
  · rintro ⟨hc, s, c'', key', x', name, reason, s', hr', ha', ht⟩
    cases hr.symm.trans hr'
    cases ha.symm.trans ha'
    exact ⟨hc, _, .session s', by rw [Machine.apply, ht], rfl⟩
  · rintro ⟨hc, e, m', hm, he⟩
    -- no machine but a session puts the blame on a backend
    rcases Machine.apply_error hm with hn | ⟨s, s', rfl, -, ht⟩
    · rw [hn.isBackendFailure] at he
      cases he
    · obtain ⟨name, reason, rfl⟩ := CipherError.isBackendFailure_iff.1 he
      exact ⟨hc, s, c', key, x, name, reason, s', hr, ha, ht⟩

/-- Data loses the stream in this way only. -/
lemma desynchronized_process (c : Context) (direction : Direction) (data : Bytes) :
    (c.process direction data).2.desynchronized = true ↔
      c.Loses (.process direction data) ∨ c.desynchronized = true := by
  have hends := c.process_ends direction data
  generalize c.process direction data = r at hends ⊢
  cases hends with
  | unready hr =>
    refine (or_iff_right ?_).symm
    rintro ⟨-, s, c', key, x, name, reason, s', hr', -⟩
    cases hr.symm.trans hr'
  | refused hr ha =>
    obtain ⟨-, key, engine, ledger, -, -, rfl⟩ := of_ready hr
    refine (or_iff_right ?_).symm
    rintro ⟨-, s, c', key, x, name, reason, s', -, ha', -⟩
    cases ha.symm.trans ha'
  | failed hr ha hm =>
    obtain ⟨hd, key, engine, ledger, -, -, rfl⟩ := of_ready hr
    rw [loses_iff hr ha, keep, hd, Bool.false_or, Bool.and_eq_true]
    constructor
    · rintro ⟨hc, he⟩
      exact .inl ⟨hc, _, _, hm, he⟩
    · rintro (⟨hc, _, _, hm', he⟩ | ⟨⟨⟩⟩)
      cases hm.symm.trans hm'
      exact ⟨hc, he⟩
  | passed hr ha hm =>
    obtain ⟨hd, key, engine, ledger, -, -, rfl⟩ := of_ready hr
    rw [loses_iff hr ha, keep, hd]
    constructor
    · rintro ⟨⟩
    · rintro (⟨-, _, _, hm', -⟩ | ⟨⟨⟩⟩)
      cases hm.symm.trans hm'

/-- The flag of a lost stream is set by a call that loses it, and stays until a call gives the
stream up. -/
theorem desynchronized_perform (c : Context) (call : Call) :
    (c.perform call).2.desynchronized = true ↔
      c.Loses call ∨ (c.desynchronized = true ∧ ¬c.GivesUp call) := by
  refine c.perform_cases (motive := fun call r => r.2.desynchronized = true ↔
    c.Loses call ∨ (c.desynchronized = true ∧ ¬c.GivesUp call)) ?_ ?_ ?_ call
  · intro call e hc hu
    rw [or_iff_right (not_loses hc), GivesUp, perform_setting c hc, hu]
    exact ⟨fun h => ⟨h, by rintro ⟨-, answer, ⟨⟩⟩⟩, fun h => h.1⟩
  · intro call s hc hu
    rw [or_iff_right (not_loses hc), GivesUp, perform_setting c hc, hu]
    simp only [adopt, Bool.and_eq_true, Bool.not_eq_true']
    constructor
    · rintro ⟨hd, hclears⟩
      refine ⟨hd, fun h => ?_⟩
      rw [hclears] at h
      exact absurd h.1 Bool.false_ne_true
    · rintro ⟨hd, hn⟩
      exact ⟨hd, by simpa using fun hclears => hn ⟨hclears, none, rfl⟩⟩
  · intro direction data
    have hn : ¬c.GivesUp (.process direction data) := fun h => Bool.false_ne_true h.1
    rw [desynchronized_process, and_iff_left hn]

/-- A context whose stream is lost refuses data and stays as it is. -/
lemma process_of_desynchronized (h : c.desynchronized = true) (direction : Direction)
    (data : Bytes) : c.process direction data = (.error .streamDesynchronized, c) :=
  (process_of_error (by rw [ready, if_pos h])).1

/-- A context refuses data while it is not ready, and stays as it is, or for what a session would be
refused by. -/
lemma process_error {e : CipherError} (h : (c.process direction data).1 = .error e) :
    (c.ready = .error e ∧ (c.process direction data).2 = c) ∨ Session.Failed e := by
  have hends := c.process_ends direction data
  generalize c.process direction data = r at h hends ⊢
  cases hends with
  | unready hr =>
    cases h
    exact .inl ⟨hr, rfl⟩
  | refused hr ha =>
    cases h
    obtain ⟨-, key, -, -, hk, -, -⟩ := of_ready hr
    obtain ⟨length, rfl⟩ := Settings.accept_error_of_key hk ha
    exact .inr (.mode (.misaligned _ _))
  | failed hr ha hm =>
    cases h
    rcases Machine.apply_error hm with hn | ⟨s, s', -, -, ht⟩
    · exact .inr (.mode hn)
    · exact .inr (Session.transform_error ht)
  | passed hr ha hm =>
    cases Settings.finish_error h
    exact .inr .padding

/-- Any other context refuses no data for that reason. -/
lemma process_ne_streamDesynchronized (hv : c.settings.Valid) (hd : c.desynchronized = false)
    (direction : Direction) (data : Bytes) :
    (c.process direction data).1 ≠ .error .streamDesynchronized := by
  intro h
  rcases process_error h with ⟨hr, -⟩ | hfailed
  · rcases of_ready_error hv hr with ⟨ht, -⟩ | ⟨-, ⟨-, he⟩ | ⟨engine, m, -, hm⟩⟩
    · rw [hd] at ht
      cases ht
    · cases he
    · obtain ⟨name, reason, he⟩ := Machine.restart_error hm
      cases he
  · cases hfailed with
    | mode hmode => cases hmode

/-- Nor does it refuse anything else for that reason. -/
lemma perform_ne_streamDesynchronized (hv : c.settings.Valid) (hd : c.desynchronized = false)
    (call : Call) : (c.perform call).1 ≠ .error .streamDesynchronized := by
  refine c.perform_cases (motive := fun _ r => r.1 ≠ .error .streamDesynchronized) ?_
    (fun _ _ => nofun) ?_ call
  · rintro call e - hu ⟨⟩
    cases Settings.update_error hu
  · intro direction data
    have hn := process_ne_streamDesynchronized hv hd direction data
    cases hp : (c.process direction data).1 with
    | error e =>
      rintro ⟨⟩
      exact hn hp
    | ok out => exact nofun

/-- A run ends with a lost stream if its last call loses it, or if it was lost before and the last
call does not give it up. -/
lemma lost_snoc (c : Context) (calls : List Call) (call : Call) :
    c.Lost (calls ++ [call]) ↔
      (c.run calls).2.Loses call ∨ (c.Lost calls ∧ ¬(c.run calls).2.GivesUp call) :=
  since_snoc c calls call

/-- The flag of a context says whether its stream is lost. -/
theorem desynchronized_run (h : c.desynchronized = false) (calls : List Call) :
    (c.run calls).2.desynchronized = true ↔ c.Lost calls := by
  -- whether a call gives the stream up depends on all calls before it, so the last one comes off
  induction calls using List.reverseRecOn with
  | nil =>
    constructor
    · intro hd
      exact absurd (h.symm.trans hd) nofun
    · exact fun hlost => absurd hlost c.not_since_nil
  | append_singleton calls call ih => rw [run_snoc, desynchronized_perform, lost_snoc, ih]

/-- Every run leaves settings that a cipher can run under. -/
lemma valid_run (h : c.settings.Valid) (calls : List Call) : (c.run calls).2.settings.Valid :=
  run_keeps (P := fun c => c.settings.Valid) valid_perform h calls

/-- After every run, whatever the backends are: while a stream is lost, data is refused for it, and
the context with its session and its ledger stays as it is. Nothing is ever refused for a lost
stream but then. -/
theorem streamDesynchronized_iff_lost {algorithm : Algorithm} {mode : Mode}
    (h : algorithm.supports mode = true) (backends : List Backend) :
    ∃ c, Context.create algorithm mode backends = .ok c ∧ ∀ calls,
      (c.Lost calls → ∀ (direction : Direction) (data : Bytes),
        (c.run calls).2.process direction data =
          (.error .streamDesynchronized, (c.run calls).2)) ∧
      ∀ call, ((c.run calls).2.perform call).1 = .error .streamDesynchronized → c.Lost calls := by
  obtain ⟨c, hc, hcreated⟩ := create_ok h backends
  have hlost := desynchronized_run hcreated.synchronized
  refine ⟨c, hc, fun calls => ⟨fun hl => ?_, fun call ha => ?_⟩⟩
  · exact process_of_desynchronized ((hlost calls).2 hl)
  · refine (hlost calls).1 (Decidable.byContradiction fun hd => ?_)
    have hv := valid_run hcreated.valid calls
    exact perform_ne_streamDesynchronized hv (by simpa using hd) call ha

/-- A backend whose sessions break down after one call. -/
def breakingBackend : Backend :=
  .simulated (.ofOffers "fake" [(.cbc, ⟨.aes, none⟩)] [] { afterCalls := some 1 })

/-- Calls of which the second with data loses the stream over `breakingBackend`. Of those after it
two are refused, and none gives the stream up. -/
def losingCalls : List Call :=
  [.setKey (List.replicate 16 0), .setContinuous true, .process .encrypt [], .process .encrypt [],
    .setKey [], .setKeyLength 7, .setMode .cfb, .prefer (some .software), .setContinuous true]

/-- AES in CBC over a backend that breaks down after a call: the stream is lost with the second
call, all data is refused from then on, and once the stream starts again none is refused for
that. -/
theorem streamDesynchronized_iff_lost_aes :
    Algorithm.aes.supports .cbc = true ∧
    ∃ c, Context.create .aes .cbc [breakingBackend] = .ok c ∧
      c.Lost losingCalls ∧
      (∀ (direction : Direction) (data : Bytes),
        (c.run losingCalls).2.process direction data =
          (.error .streamDesynchronized, (c.run losingCalls).2)) ∧
      ¬c.Lost (losingCalls ++ [.reset]) ∧
      ∀ call, ((c.run (losingCalls ++ [.reset])).2.perform call).1 ≠
        .error .streamDesynchronized := by
  obtain ⟨c, hc, h⟩ := streamDesynchronized_iff_lost
    (show Algorithm.aes.supports .cbc = true from rfl) [breakingBackend]
  have hflag : c.desynchronized = false ∧ (c.run losingCalls).2.desynchronized = true ∧
      (c.run (losingCalls ++ [.reset])).2.desynchronized = false := by
    cases hc
    exact ⟨rfl, by decide +kernel, by decide +kernel⟩
  obtain ⟨hd, hlosing, hreset⟩ := hflag
  have hlost : c.Lost losingCalls := (desynchronized_run hd _).1 hlosing
  have hfound : ¬c.Lost (losingCalls ++ [.reset]) := fun hl =>
    Bool.false_ne_true (hreset.symm.trans ((desynchronized_run hd _).2 hl))
  have hrefused := (h (losingCalls ++ [.reset])).2
  exact ⟨rfl, c, hc, hlost, (h losingCalls).1 hlost, hfound,
    fun call ha => hfound (hrefused call ha)⟩

/-- Which of those calls are answered, and that data after them is refused. -/
example :
    ((Context.create .aes .cbc [breakingBackend]).toOption.map fun c =>
      (c.run (losingCalls ++ [.process .decrypt []])).1.map (·.toOption.isSome)) =
      some [true, true, true, false, false, false, true, true, true, false] := by
  decide +kernel

end Context

end SymmetricCipher
