import Mathlib.Data.List.Induction
import SymmetricCipher.Proofs.Settings

/-!
# Runs of calls

A run taken apart at a call, and what its past says: `Context.Since`, that some call happened, and
that none has undone it since. As what a call is depends on all calls before it, a run is taken
apart at its last call there, `Context.since_snoc`.
-/

namespace SymmetricCipher.Context

/-- Every call is answered. -/
lemma length_run (c : Context) (calls : List Call) : (c.run calls).1.length = calls.length :=
  length_mapState ..

/-- The first call is answered by the context as it is. -/
lemma run_cons (c : Context) (call : Call) (calls : List Call) :
    (c.run (call :: calls)).1 = (c.perform call).1 :: ((c.perform call).2.run calls).1 := rfl

/-- Calls in front are answered first, and the others by the context that they leave. -/
lemma run_append (c : Context) (before after : List Call) :
    (c.run (before ++ after)).1 = (c.run before).1 ++ ((c.run before).2.run after).1 := by
  rw [run, mapState_append]
  rfl

/-- A call at the end of a run is made of the context that the run leaves. -/
lemma run_snoc (c : Context) (calls : List Call) (call : Call) :
    (c.run (calls ++ [call])).2 = ((c.run calls).2.perform call).2 := by
  rw [run, mapState_append]
  rfl

/-- In a run a call of the first kind happened, and none of the second kind since. -/
def Since (happens undoes : Context → Call → Prop) (c : Context) (calls : List Call) : Prop :=
  ∃ before event after, calls = before ++ event :: after ∧ happens (c.run before).2 event ∧
    ∀ mid call rest, after = mid ++ call :: rest →
      ¬undoes (c.run (before ++ event :: mid)).2 call

variable {happens undoes : Context → Call → Prop}

/-- Nothing happens in an empty run. -/
lemma not_since_nil (c : Context) : ¬c.Since happens undoes [] := by
  rintro ⟨before, event, after, he, -⟩
  cases before <;> cases he

/-- The call is the last one of a run, or it was there before and the last one does not undo it. -/
lemma since_snoc (c : Context) (calls : List Call) (call : Call) :
    c.Since happens undoes (calls ++ [call]) ↔
      happens (c.run calls).2 call ∨
        (c.Since happens undoes calls ∧ ¬undoes (c.run calls).2 call) := by
  constructor
  · rintro ⟨before, event, after, he, hevent, hsince⟩
    rcases List.eq_nil_or_concat after with rfl | ⟨after, last, rfl⟩
    · -- the last call is the one that happened
      obtain ⟨rfl, rfl⟩ := List.append_singleton_inj.1 he
      exact .inl hevent
    · -- the last call came after it
      rw [List.concat_eq_append] at he hsince
      rw [← List.cons_append, ← List.append_assoc] at he
      obtain ⟨rfl, rfl⟩ := List.append_singleton_inj.1 he
      refine .inr ⟨⟨before, event, after, rfl, hevent, fun mid x rest hm => ?_⟩, ?_⟩
      · exact hsince mid x (rest ++ [call]) (by rw [hm, List.append_assoc, List.cons_append])
      · exact hsince after call [] rfl
  · rintro (hevent | ⟨⟨before, event, after, rfl, hevent, hsince⟩, hundoes⟩)
    · exact ⟨calls, call, [], rfl, hevent, fun mid x rest hm => by cases mid <;> cases hm⟩
    · refine ⟨before, event, after ++ [call], by simp, hevent, fun mid x rest hm => ?_⟩
      rcases List.eq_nil_or_concat rest with rfl | ⟨rest, last, rfl⟩
      · obtain ⟨rfl, rfl⟩ := List.append_singleton_inj.1 hm
        exact hundoes
      · rw [List.concat_eq_append, ← List.cons_append, ← List.append_assoc] at hm
        obtain ⟨rfl, rfl⟩ := List.append_singleton_inj.1 hm
        exact hsince mid x rest rfl

end SymmetricCipher.Context
