import SymmetricCipher.Proofs.Desynchronization
import SymmetricCipher.Proofs.Refinement

/-!
# Refusals

A call that is refused changes nothing. Settings, and data that comes without a key or after the
stream was lost, leave the context itself as it was. Data of a wrong length does not: the machine is
made ready before the length is looked at. The stream is opened by it all the same, and so no answer
that comes later tells whether the call was made. For the references that contexts over the built-in
backend follow, what such a call leaves is `Reference.opened`.
-/

namespace SymmetricCipher

namespace Reference

/-- The reference after the stream was opened for data, and none came. -/
def opened (r : Reference) : Reference := { r with logs := r.settings.opening r.logs }

variable (r : Reference)

/-- To open a stream once more does nothing. -/
lemma opened_opened : r.opened.opened = r.opened := by
  simp only [opened, Settings.opening_opening]

/-- Calls of every kind open the stream themselves, or do not look at it. -/
lemma perform_opened (call : Call) :
    (r.opened.perform call).1 = (r.perform call).1 ∧
      (r.opened.perform call).2.opened = (r.perform call).2.opened := by
  have setting (hc : call.IsSetting) :
      (r.opened.perform call).1 = (r.perform call).1 ∧
        (r.opened.perform call).2.opened = (r.perform call).2.opened := by
    have hsettings : r.opened.settings = r.settings := rfl
    rw [perform_setting _ hc, perform_setting _ hc, hsettings]
    cases hu : r.settings.update call with
    | error e => exact ⟨rfl, r.opened_opened⟩
    | ok s =>
      refine ⟨rfl, ?_⟩
      by_cases he : call.effect = .none
      · -- the setting leaves it open whether a call continues the stream
        obtain ⟨keyLength, padding, rfl⟩ := Settings.update_of_effect_none hu he
        simp only [he, if_true]
        exact congrArg (Reference.mk _) (Settings.opening_opening r.settings r.logs)
      · simp only [if_neg he]
  cases call with
  | process direction data =>
    simp only [perform, opened, Settings.opening_opening, and_self]
  | _ => exact setting trivial

/-- No answer tells whether the stream was opened before. -/
theorem run_opened (calls : List Call) : (r.opened.run calls).1 = (r.run calls).1 := by
  induction calls generalizing r with
  | nil => rfl
  | cons call calls ih =>
    obtain ⟨hanswer, hnext⟩ := r.perform_opened call
    have htail : ((r.opened.perform call).2.run calls).1 = ((r.perform call).2.run calls).1 := by
      rw [← ih (r.opened.perform call).2, hnext, ih]
    simp only [run, mapState_cons] at htail ⊢
    rw [hanswer, htail]

/-- Data that is refused leaves the stream open, and that is all. -/
lemma perform_process_of_refused {r : Reference} {direction : Direction} {data : Bytes}
    {e : CipherError} (h : r.settings.accept direction data = .error e) :
    (r.perform (.process direction data)).2 = r.opened := by
  simp only [perform, Settings.record, h, opened]

end Reference

namespace Context

variable {c : Context} {r : Reference} {direction : Direction} {data : Bytes} {e : CipherError}

/-- A setting that is refused leaves the context as it was. -/
lemma perform_of_refused {call : Call} (hc : call.IsSetting) (h : (c.perform call).1 = .error e) :
    (c.perform call).2 = c := by
  rw [perform_setting c hc] at h ⊢
  cases hu : c.settings.update call with
  | error e' => rfl
  | ok s =>
    rw [hu] at h
    cases h

/-- Data that a context is not ready for changes nothing. -/
lemma process_of_unready (he : e = .keyNotSet ∨ e = .streamDesynchronized)
    (h : (c.process direction data).1 = .error e) : (c.process direction data).2 = c := by
  rcases process_error h with ⟨-, hsame⟩ | hfailed
  · exact hsame
  · -- no session is refused for these
    rcases he with rfl | rfl
    all_goals
      cases hfailed with
      | mode hmode => cases hmode

/-- A refused setting, and data that a context is not ready for, leave the context as it was. -/
lemma perform_of_error {call : Call} (h : (c.perform call).1 = .error e)
    (hcall : call.IsSetting ∨ e = .keyNotSet ∨ e = .streamDesynchronized) :
    (c.perform call).2 = c := by
  rcases hcall with hc | he
  · exact perform_of_refused hc h
  · cases call with
    | process direction data =>
      cases hp : (c.process direction data).1 with
      | ok out =>
        simp only [perform, hp] at h
        cases h
      | error e' =>
        simp only [perform, hp] at h
        cases h
        exact process_of_unready he hp
    | _ => exact perform_of_refused trivial h

/-- Data that is refused for its length never reached a machine. -/
lemma Follows.accept_of_misaligned (h : c.Follows r) {length blockSize : Nat}
    (hp : (c.process direction data).1 = .error (.misalignedInput length blockSize)) :
    ∃ e, r.settings.accept direction data = .error e := by
  have hanswer := (Follows.process h direction data).1
  cases ha : r.settings.accept direction data with
  | error e => exact ⟨e, rfl⟩
  | ok accepted =>
    obtain ⟨key, x⟩ := accepted
    obtain ⟨out, hout, -⟩ := h.total ha
    rw [hp, Settings.respond, ha] at hanswer
    simp only [hout] at hanswer
    cases Settings.finish_error hanswer.symm

/-- After data that was refused for its length, every run gives the answers that it would have given
before. -/
lemma Follows.run_of_misaligned (h : c.Follows r) {length blockSize : Nat}
    (hp : (c.process direction data).1 = .error (.misalignedInput length blockSize))
    (calls : List Call) :
    ((c.perform (.process direction data)).2.run calls).1 = (c.run calls).1 := by
  obtain ⟨e, ha⟩ := h.accept_of_misaligned hp
  have hnext := (h.perform (.process direction data)).2
  rw [Reference.perform_process_of_refused ha] at hnext
  rw [(hnext.run calls).1, (h.run calls).1, r.run_opened]

/-- After every run, whatever the backends are: a setting that is refused leaves the context as it
was, and so does data that is refused for want of a key or for a lost stream. Over the built-in
backend, a call whose data is refused for its length can be left out of every run without another
answer to any other call. -/
theorem refused_calls_leave_no_trace {algorithm : Algorithm} {mode : Mode}
    (h : algorithm.supports mode = true) (backends : List Backend) :
    ∃ c, Context.create algorithm mode backends = .ok c ∧
      (∀ calls call e, ((c.run calls).2.perform call).1 = .error e →
        call.IsSetting ∨ e = .keyNotSet ∨ e = .streamDesynchronized →
        ((c.run calls).2.perform call).2 = (c.run calls).2) ∧
      ((∀ b ∈ backends, b.Faithful) → (∀ b ∈ backends, b.IsProvider) →
        ∀ before direction data length blockSize after,
          ((c.run before).2.process direction data).1 =
            .error (.misalignedInput length blockSize) →
          (c.run (before ++ after)).1 =
            (c.run (before ++ .process direction data :: after)).1.eraseIdx before.length) := by
  obtain ⟨c, hc, hcreated⟩ := create_ok h backends
  refine ⟨c, hc, fun calls call e he hcall => perform_of_error he hcall, fun hf hp => ?_⟩
  intro before direction data length blockSize after hm
  have hfollows := ((Follows.of_created hcreated hf hp).run before).2
  have hrest := hfollows.run_of_misaligned hm after
  rw [run_append, run_append, run_cons, ← length_run c before,
    List.eraseIdx_append_of_length_le (Nat.le_refl _), Nat.sub_self, List.eraseIdx_cons_zero, hrest]

/-- Calls that leave a stream behind its first block, where data is not padded. -/
def midStreamCalls : List Call :=
  [.setKey (List.replicate 16 0), .setContinuous true, .setPadding false,
    .process .encrypt (List.replicate 16 5)]

/-- What AES in CBC refuses leaves no trace. Over the built-in backend it is a key of one byte, data
without a key, and one byte in the middle of a stream. Over a backend that broke down it is data for
the lost stream. -/
theorem refused_calls_leave_no_trace_aes :
    Algorithm.aes.supports .cbc = true ∧
    (∀ b ∈ [Backend.provider .standard], b.Faithful) ∧
    (∀ b ∈ [Backend.provider .standard], b.IsProvider) ∧
    (∃ c, Context.create .aes .cbc [.provider .standard] = .ok c ∧
      c.perform (.setKey [0]) = (.error (.invalidKeyLength .aes 1), c) ∧
      c.perform (.process .encrypt [1, 2]) = (.error .keyNotSet, c) ∧
      ((c.run midStreamCalls).2.process .encrypt [0]).1 = .error (.misalignedInput 1 16) ∧
      ∀ after, (c.run (midStreamCalls ++ after)).1 =
        (c.run (midStreamCalls ++ .process .encrypt [0] :: after)).1.eraseIdx 4) ∧
    ∃ c, Context.create .aes .cbc [breakingBackend] = .ok c ∧
      (c.run losingCalls).2.perform (.process .decrypt [3]) =
        (.error .streamDesynchronized, (c.run losingCalls).2) := by
  have hs : Algorithm.aes.supports .cbc = true := rfl
  have hf := List.forall_mem_singleton.2 (show Backend.Faithful (.provider .standard) from
    Provider.Suite.faithful_standard)
  have hp := List.forall_mem_singleton.2 (show Backend.IsProvider (.provider .standard) from
    trivial)
  refine ⟨hs, hf, hp, ?_, ?_⟩
  · obtain ⟨c, hc, hrefused, hmisaligned⟩ := refused_calls_leave_no_trace hs [.provider .standard]
    obtain ⟨hkey, hdata, hlength⟩ :
        (c.perform (.setKey [0])).1 = .error (.invalidKeyLength .aes 1) ∧
        (c.perform (.process .encrypt [1, 2])).1 = .error .keyNotSet ∧
        ((c.run midStreamCalls).2.process .encrypt [0]).1 = .error (.misalignedInput 1 16) := by
      cases hc
      exact ⟨rfl, rfl, by decide +kernel⟩
    have hkeyless := hrefused [] (.process .encrypt [1, 2]) _ hdata (.inr (.inl rfl))
    exact ⟨c, hc, Prod.ext hkey (hrefused [] (.setKey [0]) _ hkey (.inl trivial)),
      Prod.ext hdata hkeyless, hlength, fun after => hmisaligned hf hp _ _ _ _ _ after hlength⟩
  · obtain ⟨c, hc, hrefused, -⟩ := refused_calls_leave_no_trace hs [breakingBackend]
    have hlost : ((c.run losingCalls).2.perform (.process .decrypt [3])).1 =
        .error .streamDesynchronized := by
      cases hc
      decide +kernel
    exact ⟨c, hc, Prod.ext hlost (hrefused losingCalls _ _ hlost (.inr (.inr rfl)))⟩

end Context

end SymmetricCipher
