import Mathlib.Tactic.Lemma
import SymmetricCipher.Backend.Selection

/-!
# The first backend that qualifies

Of the registered backends the first one is selected that runs the mode or gives single blocks,
`Selection.FirstToQualify`, unless software is preferred or the algorithm stays in software in that
mode anyway. What stands behind that backend does not count, and neither does a backend that does
not qualify, wherever it stands.
-/

namespace SymmetricCipher

/-- A backend that runs the mode on its own, or gives single blocks to build it from. -/
def Backend.Qualifies (backend : Backend) (algorithm : Algorithm) (mode : Mode) (keyLength : Nat) :
    Prop :=
  backend.isAvailable algorithm mode keyLength = true ∨
    backend.supportsRawBlock algorithm keyLength = true

/-- An algorithm and a mode that may leave software. -/
def Algorithm.MayAccelerate (algorithm : Algorithm) (mode : Mode) : Prop :=
  algorithm.supports mode = true ∧ mode ≠ .stream ∧ algorithm ≠ .tripleDesInnerCbc

/-- The stream cipher has no mode but STREAM. -/
lemma Algorithm.MayAccelerate.ne_rc4 {algorithm : Algorithm} {mode : Mode}
    (h : algorithm.MayAccelerate mode) : algorithm ≠ .rc4 := by
  rintro rfl
  exact h.2.1 (eq_of_beq h.1)

namespace Selection

variable {backends : List Backend} {backend : Backend} {algorithm : Algorithm} {mode : Mode}
  {keyLength : Nat} {preferred : Option Engine} {emulate : Bool} {selection : Selection}

/-- A backend of the list that qualifies, where none before it does. -/
def FirstToQualify (backends : List Backend) (algorithm : Algorithm) (mode : Mode)
    (keyLength : Nat) (backend : Backend) : Prop :=
  ∃ before after, backends = before ++ backend :: after ∧
    (∀ b ∈ before, ¬b.Qualifies algorithm mode keyLength) ∧
    backend.Qualifies algorithm mode keyLength

/-- The backend that is picked is one of the list. -/
lemma FirstToQualify.mem (h : FirstToQualify backends algorithm mode keyLength backend) :
    backend ∈ backends := by
  obtain ⟨before, after, rfl, -⟩ := h
  exact List.mem_append_right _ List.mem_cons_self

/-- A backend that qualifies offers the mode, and single blocks only where it lacks the mode. -/
lemma offer?_eq_some_iff :
    offer? algorithm mode keyLength backend = some selection ↔
      backend.Qualifies algorithm mode keyLength ∧
        selection = .accelerated backend (!backend.isAvailable algorithm mode keyLength) := by
  rw [offer?, Backend.Qualifies]
  cases backend.isAvailable algorithm mode keyLength with
  | true => simpa using eq_comm
  | false =>
    cases backend.supportsRawBlock algorithm keyLength with
    | true => simpa using eq_comm
    | false => simp

/-- A backend offers nothing if it does not qualify. -/
lemma offer?_eq_none_iff :
    offer? algorithm mode keyLength backend = none ↔
      ¬backend.Qualifies algorithm mode keyLength := by
  rw [Option.eq_none_iff_forall_ne_some]
  constructor
  · exact fun h hq => h _ (offer?_eq_some_iff.2 ⟨hq, rfl⟩)
  · exact fun hn s hs => hn (offer?_eq_some_iff.1 hs).1

/-- Among offers the first one counts. -/
lemma findSome?_offer?_eq_some_iff :
    backends.findSome? (offer? algorithm mode keyLength) = some selection ↔
      ∃ backend, FirstToQualify backends algorithm mode keyLength backend ∧
        selection = .accelerated backend (!backend.isAvailable algorithm mode keyLength) := by
  rw [List.findSome?_eq_some_iff]
  constructor
  · rintro ⟨before, backend, after, hsplit, hoffer, hnone⟩
    obtain ⟨hq, hs⟩ := offer?_eq_some_iff.1 hoffer
    exact ⟨backend, ⟨before, after, hsplit, fun b hb => offer?_eq_none_iff.1 (hnone b hb), hq⟩, hs⟩
  · rintro ⟨backend, ⟨before, after, hsplit, hnone, hq⟩, hs⟩
    exact ⟨before, backend, after, hsplit, offer?_eq_some_iff.2 ⟨hq, hs⟩,
      fun b hb => offer?_eq_none_iff.2 (hnone b hb)⟩

/-- Where acceleration is possible, the first offer of the list is taken. -/
lemma accelerated?_of_mayAccelerate (h : algorithm.MayAccelerate mode) (backends : List Backend)
    (keyLength : Nat) :
    accelerated? backends algorithm mode keyLength =
      backends.findSome? (offer? algorithm mode keyLength) := by
  obtain ⟨hsupports, hstream, hinner⟩ := h
  simp [accelerated?, hsupports, hstream, hinner]

/-- Where it is not, no backend is asked. -/
lemma accelerated?_of_not_mayAccelerate (h : ¬algorithm.MayAccelerate mode)
    (backends : List Backend) (keyLength : Nat) :
    accelerated? backends algorithm mode keyLength = none := by
  rw [accelerated?, if_pos]
  simp only [Algorithm.MayAccelerate, Decidable.not_and_iff_or_not, Decidable.not_not,
    Bool.not_eq_true] at h
  simpa [or_assoc] using h

/-- The backend that is selected is the first to qualify, of an algorithm that may leave software;
it has to stand in for the mode exactly if it lacks it. -/
lemma accelerated?_eq_some_iff :
    accelerated? backends algorithm mode keyLength = some selection ↔
      algorithm.MayAccelerate mode ∧
        ∃ backend, FirstToQualify backends algorithm mode keyLength backend ∧
          selection = .accelerated backend (!backend.isAvailable algorithm mode keyLength) := by
  by_cases h : algorithm.MayAccelerate mode
  · rw [accelerated?_of_mayAccelerate h, findSome?_offer?_eq_some_iff, and_iff_right h]
  · rw [accelerated?_of_not_mayAccelerate h]
    exact ⟨nofun, fun ha => absurd ha.1 h⟩

/-- When there is no accelerated engine. -/
lemma accelerated?_eq_none_iff :
    accelerated? backends algorithm mode keyLength = none ↔
      (∀ b ∈ backends, ¬b.Qualifies algorithm mode keyLength) ∨
        ¬algorithm.MayAccelerate mode := by
  by_cases h : algorithm.MayAccelerate mode
  · simp only [accelerated?_of_mayAccelerate h, List.findSome?_eq_none_iff, offer?_eq_none_iff, h,
      not_true_eq_false, or_false]
  · simp only [accelerated?_of_not_mayAccelerate h, h, not_false_eq_true, or_true]

/-- Unless software is preferred, it stands in only where nothing is offered. -/
lemma select_of_ne_software (h : preferred ≠ some .software) (backends : List Backend)
    (algorithm : Algorithm) (mode : Mode) (keyLength : Nat) :
    select backends algorithm mode keyLength preferred =
      (accelerated? backends algorithm mode keyLength).getD .software := by
  cases preferred with
  | none => rfl
  | some engine =>
    cases engine with
    | software => exact absurd rfl h
    | accelerated => rfl

/-- When a backend is selected, which one, and whether it emulates the mode. -/
lemma select_eq_accelerated_iff :
    select backends algorithm mode keyLength preferred = .accelerated backend emulate ↔
      preferred ≠ some .software ∧ algorithm.MayAccelerate mode ∧
        FirstToQualify backends algorithm mode keyLength backend ∧
        emulate = !backend.isAvailable algorithm mode keyLength := by
  by_cases hp : preferred = some .software
  · subst hp
    exact ⟨nofun, fun h => absurd rfl h.1⟩
  · have hsome : select backends algorithm mode keyLength preferred =
          .accelerated backend emulate ↔
        accelerated? backends algorithm mode keyLength = some (.accelerated backend emulate) := by
      rw [select_of_ne_software hp]
      cases accelerated? backends algorithm mode keyLength <;> simp
    rw [hsome, accelerated?_eq_some_iff, and_iff_right hp]
    refine and_congr_right fun _ => ⟨?_, fun ⟨hfirst, he⟩ => ⟨backend, hfirst, by rw [he]⟩⟩
    rintro ⟨b, hfirst, ⟨⟩⟩
    exact ⟨hfirst, rfl⟩

/-- When software is selected. -/
lemma select_eq_software_iff :
    select backends algorithm mode keyLength preferred = .software ↔
      preferred = some .software ∨ (∀ b ∈ backends, ¬b.Qualifies algorithm mode keyLength) ∨
        ¬algorithm.MayAccelerate mode := by
  by_cases hp : preferred = some .software
  · subst hp
    exact ⟨fun _ => .inl rfl, fun _ => rfl⟩
  · rw [select_of_ne_software hp, or_iff_right hp, ← accelerated?_eq_none_iff]
    -- no offer is software
    cases hs : accelerated? backends algorithm mode keyLength with
    | none => simp
    | some s =>
      obtain ⟨-, backend, -, rfl⟩ := accelerated?_eq_some_iff.1 hs
      simp

/-- An engine is accelerated exactly if some backend is selected. -/
lemma engine_eq_accelerated_iff :
    selection.engine = .accelerated ↔
      ∃ backend emulate, selection = .accelerated backend emulate := by
  cases selection with
  | software => exact ⟨nofun, nofun⟩
  | accelerated backend emulate => exact ⟨fun _ => ⟨backend, emulate, rfl⟩, fun _ => rfl⟩

/-- The question whether an engine could run the mode, and the selection without a preference, have
one answer. -/
lemma isValid_accelerated_iff :
    isValid backends .accelerated algorithm mode keyLength = true ↔
      (select backends algorithm mode keyLength none).engine = .accelerated := by
  have hnone : select backends algorithm mode keyLength none =
      (accelerated? backends algorithm mode keyLength).getD .software := rfl
  rw [isValid, hnone]
  cases hs : accelerated? backends algorithm mode keyLength with
  | none => exact ⟨nofun, nofun⟩
  | some s =>
    obtain ⟨-, backend, -, rfl⟩ := accelerated?_eq_some_iff.1 hs
    exact ⟨fun _ => rfl, fun _ => rfl⟩

/-- What comes behind a backend that is selected does not count. -/
lemma select_append (h : (select backends algorithm mode keyLength preferred).engine = .accelerated)
    (more : List Backend) :
    select (backends ++ more) algorithm mode keyLength preferred =
      select backends algorithm mode keyLength preferred := by
  obtain ⟨backend, emulate, hs⟩ := engine_eq_accelerated_iff.1 h
  obtain ⟨hp, hmay, ⟨before, after, rfl, hfirst⟩, he⟩ := select_eq_accelerated_iff.1 hs
  rw [hs, select_eq_accelerated_iff]
  exact ⟨hp, hmay, ⟨before, after ++ more, by rw [List.append_assoc, List.cons_append], hfirst⟩, he⟩

/-- Backends that do not qualify do not count, wherever they stand. -/
lemma select_insert {inserted : List Backend}
    (h : ∀ b ∈ inserted, ¬b.Qualifies algorithm mode keyLength) (before after : List Backend)
    (preferred : Option Engine) :
    select (before ++ inserted ++ after) algorithm mode keyLength preferred =
      select (before ++ after) algorithm mode keyLength preferred := by
  by_cases hp : preferred = some .software
  · subst hp
    rfl
  · have hnone : inserted.findSome? (offer? algorithm mode keyLength) = none :=
      List.findSome?_eq_none_iff.2 fun b hb => offer?_eq_none_iff.2 (h b hb)
    rw [select_of_ne_software hp, select_of_ne_software hp]
    by_cases hmay : algorithm.MayAccelerate mode
    · simp only [accelerated?_of_mayAccelerate hmay, List.findSome?_append, hnone, Option.or_none]
    · simp only [accelerated?_of_not_mayAccelerate hmay]

/-- Unless software is preferred, the first backend that qualifies is selected, and stands in for
the mode exactly if it does not run it. Software is selected where none qualifies, where the
algorithm does not support the mode, and for STREAM and the layered Triple DES, whatever the
backends claim. Whether an engine could run the mode is answered by the same rule; and no backend
that comes last or does not qualify changes the choice of another one. -/
theorem select_first_to_qualify (backends : List Backend) (algorithm : Algorithm) (mode : Mode)
    (keyLength : Nat) :
    (∀ preferred, preferred ≠ some .software →
      (∀ backend emulate,
        select backends algorithm mode keyLength preferred = .accelerated backend emulate ↔
          algorithm.MayAccelerate mode ∧
          FirstToQualify backends algorithm mode keyLength backend ∧
          (emulate = true ↔ backend.isAvailable algorithm mode keyLength = false)) ∧
      (select backends algorithm mode keyLength preferred = .software ↔
        (∀ b ∈ backends, ¬b.Qualifies algorithm mode keyLength) ∨
          algorithm.supports mode = false ∨ mode = .stream ∨ algorithm = .tripleDesInnerCbc)) ∧
    select backends algorithm mode keyLength (some .software) = .software ∧
    (algorithm = .rc4 ∨ algorithm = .tripleDesInnerCbc →
      ∀ preferred, select backends algorithm mode keyLength preferred = .software) ∧
    (isValid backends .accelerated algorithm mode keyLength = true ↔
      (select backends algorithm mode keyLength none).engine = .accelerated) ∧
    (∀ preferred more,
      (select backends algorithm mode keyLength preferred).engine = .accelerated →
        select (backends ++ more) algorithm mode keyLength preferred =
          select backends algorithm mode keyLength preferred) ∧
    (∀ before inserted after, backends = before ++ after →
      (∀ b ∈ inserted, ¬b.Qualifies algorithm mode keyLength) →
        ∀ preferred, select (before ++ inserted ++ after) algorithm mode keyLength preferred =
          select backends algorithm mode keyLength preferred) := by
  have stays : ¬algorithm.MayAccelerate mode ↔
      algorithm.supports mode = false ∨ mode = .stream ∨ algorithm = .tripleDesInnerCbc := by
    simp only [Algorithm.MayAccelerate, Decidable.not_and_iff_or_not, Decidable.not_not,
      Bool.not_eq_true]
  refine ⟨fun preferred hp => ⟨fun backend emulate => ?_, ?_⟩, rfl, ?_, isValid_accelerated_iff,
    fun preferred more h => select_append h more, ?_⟩
  · rw [select_eq_accelerated_iff, and_iff_right hp]
    cases emulate <;> simp
  · rw [select_eq_software_iff, or_iff_right hp, stays]
  · intro h preferred
    refine select_eq_software_iff.2 (.inr (.inr fun hmay => ?_))
    rcases h with h | h
    · exact hmay.ne_rc4 h
    · exact hmay.2.2 h
  · rintro before inserted after rfl hn preferred
    exact select_insert hn before after preferred

/-- A backend that only gives single blocks stands in for CBC, although the one behind it would run
it. A backend for another algorithm between them changes nothing, and RC4 stays in software. -/
theorem select_first_to_qualify_shadowing :
    let raw : Backend := .simulated (.ofOffers "raw" [] [⟨.aes, none⟩, ⟨.rc4, none⟩] {})
    let other : Backend := .simulated (.ofOffers "other" [(.cbc, ⟨.des, none⟩)] [] {})
    (some Engine.accelerated ≠ some .software) ∧ Algorithm.aes.MayAccelerate .cbc ∧
    select [raw, .provider] .aes .cbc 16 (some .accelerated) = .accelerated raw true ∧
    isValid [raw, .provider] .accelerated .aes .cbc 16 = true ∧
    ¬other.Qualifies .aes .cbc 16 ∧
    select [other, raw, .provider, raw] .aes .cbc 16 (some .accelerated) = .accelerated raw true ∧
    select [raw, .provider] .rc4 .stream 16 (some .accelerated) = .software := by
  intro raw other
  have hp : some Engine.accelerated ≠ some .software := by decide
  have hmay : Algorithm.aes.MayAccelerate .cbc := ⟨rfl, nofun, nofun⟩
  have hother : ¬other.Qualifies .aes .cbc 16 := by rintro (h | h) <;> cases h
  obtain ⟨hselect, -, -, hvalid, happend, hinsert⟩ :=
    select_first_to_qualify [raw, .provider] .aes .cbc 16
  have hraw : select [raw, .provider] .aes .cbc 16 (some .accelerated) = .accelerated raw true :=
    ((hselect _ hp).1 raw true).2
      ⟨hmay, ⟨[], [.provider], rfl, nofun, .inr rfl⟩, fun _ => rfl, fun _ => rfl⟩
  have hinserted := (select_first_to_qualify [raw, .provider, raw] .aes .cbc 16).2.2.2.2.2 []
    [other] [raw, .provider, raw] rfl (List.forall_mem_singleton.2 hother) (some .accelerated)
  have happended := happend (some .accelerated) [raw] (by rw [hraw]; rfl)
  exact ⟨hp, hmay, hraw, hvalid.2 rfl, hother, (hinserted.trans happended).trans hraw,
    (select_first_to_qualify [raw, .provider] .rc4 .stream 16).2.2.1 (.inl rfl) _⟩

end Selection

end SymmetricCipher
