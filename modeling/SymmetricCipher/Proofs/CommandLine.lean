import SymmetricCipher.CommandLine.Run
import SymmetricCipher.Proofs.Pieces

/-!
# Pieces and engines on the command line

Neither the length of the pieces nor the engine changes what a run of the command line does. Both
come in when everything else is configured already, `Options.configured`, and the context then
follows a reference whose settings differ in nothing that an answer depends on. So the run gives
what a single call of that reference gives, `Options.result_cases`, unless the engine is refused.
Nor does an initialization vector that the mode does not use, which a run warns of.
-/

namespace SymmetricCipher

section results

variable {ε ε' α β : Type} {x : Except ε α}

/-- Two steps give a result exactly if the first one does, and the second one with what it gives. -/
lemma bind_eq_ok_iff {f : α → Except ε β} {b : β} :
    x >>= f = .ok b ↔ ∃ a, x = .ok a ∧ f a = .ok b := by
  cases x with
  | error e => exact ⟨nofun, fun ⟨_, h, _⟩ => nomatch h⟩
  | ok a => exact ⟨fun h => ⟨a, rfl, h⟩, fun ⟨_, ha, h⟩ => Except.ok.inj ha ▸ h⟩

/-- A step that gave a result goes on with it. -/
@[simp] lemma ok_bind {f : α → Except ε β} {a : α} : Except.ok a >>= f = f a := rfl

/-- No wording of errors touches a result. -/
@[simp] lemma ok_mapError {f : ε → ε'} {a : α} :
    (Except.ok a : Except ε α).mapError f = .ok a := rfl

/-- Results are the same under any wording of errors. -/
lemma mapError_eq_ok_iff {f : ε → ε'} {a : α} : x.mapError f = .ok a ↔ x = .ok a := by
  cases x with
  | error e => exact ⟨nofun, nofun⟩
  | ok b => exact ⟨fun h => congrArg _ (Except.ok.inj h), fun h => congrArg _ (Except.ok.inj h)⟩

/-- A mapped result comes from a result. -/
lemma map_eq_ok_iff {f : α → β} {b : β} : x.map f = .ok b ↔ ∃ a, x = .ok a ∧ f a = b := by
  cases x with
  | error e => exact ⟨nofun, fun ⟨_, h, _⟩ => nomatch h⟩
  | ok a =>
    constructor
    · exact fun h => ⟨a, rfl, Except.ok.inj h⟩
    · rintro ⟨_, ⟨⟩, rfl⟩
      rfl

/-- Without its errors an answer has the same results. -/
lemma toOption_eq_some_iff {a : α} : x.toOption = some a ↔ x = .ok a := by
  cases x with
  | error e => exact ⟨nofun, nofun⟩
  | ok b => exact ⟨fun h => congrArg _ (Option.some.inj h), fun h => congrArg _ (Except.ok.inj h)⟩

end results

/-! ## Settings of a context that has processed nothing -/

/-- Nothing but the mode is set by another mode, and nothing sets the algorithm. -/
lemma Settings.update_mode {s s' : Settings} {call : Call} (h : s.update call = .ok s')
    (hm : ∀ mode, call ≠ .setMode mode) : s'.algorithm = s.algorithm ∧ s'.mode = s.mode := by
  have setKey {raw : Bytes} (h : s.setKey raw = .ok s') :
      s'.algorithm = s.algorithm ∧ s'.mode = s.mode := by
    rw [Settings.setKey] at h
    cases hk : s.algorithm.normalizeKey raw with
    | error e => rw [hk] at h; cases h
    | ok key => rw [hk] at h; cases h; exact ⟨rfl, rfl⟩
  cases call with
  | setKey raw => exact setKey h
  | setPassword password options =>
    rw [update] at h
    split at h
    · cases h
    · exact setKey h
  | setKeyLength bits =>
    rw [update] at h
    split at h <;> cases h
    exact ⟨rfl, rfl⟩
  | setMode mode => exact absurd rfl (hm mode)
  | _ => cases h; exact ⟨rfl, rfl⟩

namespace Context

variable {c c' : Context} {s : Settings}

/-- A context over built-in backends follows the reference from its creation on. -/
lemma Follows.of_create {algorithm : Algorithm} {mode : Mode} {backends : List Backend}
    (h : create algorithm mode backends = .ok c) (hf : ∀ b ∈ backends, b.Faithful)
    (hp : ∀ b ∈ backends, b.IsProvider) : c.Follows (.create algorithm mode) := by
  cases hm : algorithm.checkMode mode with
  | error e =>
    rw [create, hm] at h
    cases h
  | ok _ =>
    obtain ⟨c', hc', hcreated⟩ := create_ok (Settings.supports_of_checkMode hm) backends
    cases h.symm.trans hc'
    exact .of_created hcreated hf hp

/-- A setting that is taken is taken by the reference, and the logs stay empty. -/
lemma Follows.setting (h : c.Follows ⟨s, .empty⟩) (call : Call) (hcall : call.IsSetting)
    (hc : c.perform call = (.ok none, c')) :
    ∃ s', s.update call = .ok s' ∧ c'.Follows ⟨s', .empty⟩ := by
  obtain ⟨hanswer, hnext⟩ := h.perform call
  rw [hc, Reference.perform_setting _ hcall] at hanswer hnext
  cases hu : s.update call with
  | error e =>
    rw [hu] at hanswer
    cases hanswer
  | ok s' =>
    rw [hu] at hnext
    refine ⟨s', rfl, ?_⟩
    have hlogs : (if call.effect = .none then Logs.empty else Logs.empty) = .empty := ite_self _
    rw [← hlogs]
    exact hnext

/-- A context that is configured for an algorithm and a mode, and has processed nothing. -/
def Configured (c : Context) (algorithm : Algorithm) (mode : Mode) : Prop :=
  ∃ s : Settings, c.Follows ⟨s, .empty⟩ ∧ s.algorithm = algorithm ∧ s.mode = mode

/-- A setting that is taken leaves a configured context configured, unless it sets the mode. -/
lemma Configured.setting {algorithm : Algorithm} {mode : Mode} (h : c.Configured algorithm mode)
    (call : Call) (hcall : call.IsSetting) (hm : ∀ mode, call ≠ .setMode mode)
    (hc : c.perform call = (.ok none, c')) : c'.Configured algorithm mode := by
  obtain ⟨s, hs, rfl, rfl⟩ := h
  obtain ⟨s', hu, hs'⟩ := hs.setting call hcall hc
  obtain ⟨ha, hmode⟩ := Settings.update_mode hu hm
  exact ⟨s', hs', ha, hmode⟩

end Context

namespace Options

variable {o : Options} {files : Files} {suite : Provider.Suite} {c : Context} {s : Settings}

/-! ## Contexts of a run -/

/-- The context that the options describe, but for the pieces and the engine. -/
def configured (o : Options) (files : Files) (suite : Provider.Suite) :
    Except RunError Context := do
  let c ← o.keyedContext files suite
  let c ← o.withIv files c
  return if o.padding then c else c.setPadding false

/-- The pieces and the engine come in last, behind all that is configured. -/
lemma context_eq (o : Options) (files : Files) (suite : Provider.Suite) :
    o.context files suite = o.configured files suite >>= fun c =>
      o.withEngine (if o.chunkSize.isSome then c.setContinuous true else c) := by
  simp only [context, configured, bind_assoc, pure_bind]

/-- The context that holds the key is configured for the algorithm and the mode of the options. -/
lemma keyedContext_spec (hf : suite.Faithful) (h : o.keyedContext files suite = .ok c) :
    c.Configured o.algorithm o.mode := by
  obtain ⟨created, hcreate, hkeyed⟩ := bind_eq_ok_iff.1 h
  have hcreated : created.Configured o.algorithm o.mode := by
    have hfollows := Context.Follows.of_create (mapError_eq_ok_iff.1 hcreate)
      (List.forall_mem_singleton.2 hf) (List.forall_mem_singleton.2 trivial)
    exact ⟨_, hfollows, rfl, rfl⟩
  rw [Options.keyed] at hkeyed
  split at hkeyed
  · obtain ⟨key, -, hset⟩ := bind_eq_ok_iff.1 hkeyed
    refine hcreated.setting (.setKey key) trivial (by simp) ?_
    rw [Context.perform, mapError_eq_ok_iff.1 hset]
    rfl
  · rename_i password _ _
    refine hcreated.setting (.setPassword password.toUTF8.toList {}) trivial (by simp) ?_
    rw [Context.perform, mapError_eq_ok_iff.1 hkeyed]
    rfl
  · cases hkeyed

/-- What the options describe is configured for their algorithm and mode. -/
lemma configured_spec (hf : suite.Faithful) (h : o.configured files suite = .ok c) :
    c.Configured o.algorithm o.mode := by
  obtain ⟨keyed, hkeyed, h⟩ := bind_eq_ok_iff.1 h
  obtain ⟨started, hstarted, h⟩ := bind_eq_ok_iff.1 h
  have hkey := keyedContext_spec hf hkeyed
  have hiv : started.Configured o.algorithm o.mode := by
    rw [withIv] at hstarted
    split at hstarted
    · cases hstarted
      exact hkey
    · obtain ⟨iv, -, hset⟩ := bind_eq_ok_iff.1 hstarted
      cases hset
      exact hkey.setting (.setIv iv) trivial (by simp) rfl
  cases h
  split
  · exact hiv
  · exact hiv.setting (.setPadding false) trivial (by simp) rfl

/-- An engine is refused, or nothing but a preference is set. -/
lemma withEngine_cases (o : Options) (c : Context) :
    (∃ engine, o.withEngine c = .error (.engineUnavailable engine o.algorithm o.mode)) ∨
      o.withEngine c = .ok c ∨ ∃ engine, o.withEngine c = .ok (c.prefer engine) := by
  rw [withEngine]
  split
  · exact .inr (.inl rfl)
  · rename_i engine _
    split
    · exact .inr (.inr ⟨engine, rfl⟩)
    · exact .inl ⟨engine, rfl⟩

/-- Nothing that an answer depends on is set behind a configured context, and nothing but an engine
is refused. -/
lemma context_cases (h : c.Follows ⟨s, .empty⟩) (hc : o.configured files suite = .ok c) :
    (∃ engine, o.context files suite = .error (.engineUnavailable engine o.algorithm o.mode)) ∨
      ∃ c' continuous preferred, o.context files suite = .ok c' ∧
        (o.chunkSize.isSome = true → continuous = true) ∧
        c'.Follows ⟨{ s with continuous := continuous, preferred := preferred }, .empty⟩ := by
  have hpieces : ∃ continuous, (o.chunkSize.isSome = true → continuous = true) ∧
      (if o.chunkSize.isSome then c.setContinuous true else c).Follows
        ⟨{ s with continuous := continuous }, .empty⟩ := by
    split
    · obtain ⟨s', hu, hs'⟩ := h.setting (.setContinuous true) trivial rfl
      cases hu
      exact ⟨true, fun _ => rfl, hs'⟩
    · rename_i hn
      exact ⟨s.continuous, fun hs => absurd hs hn, h⟩
  obtain ⟨continuous, hcontinuous, hfollows⟩ := hpieces
  have hcontext : o.context files suite =
      o.withEngine (if o.chunkSize.isSome then c.setContinuous true else c) := by
    rw [context_eq, hc]
    rfl
  rw [hcontext]
  rcases o.withEngine_cases (if o.chunkSize.isSome then c.setContinuous true else c) with
    hrefused | hplain | ⟨engine, hprefer⟩
  · exact .inl hrefused
  · exact .inr ⟨_, continuous, s.preferred, hplain, hcontinuous, hfollows⟩
  · obtain ⟨s', hu, hs'⟩ := hfollows.setting (.prefer engine) trivial rfl
    cases hu
    exact .inr ⟨_, continuous, engine, hprefer, hcontinuous, hs'⟩

/-! ## Results of a run -/

/-- The machine can count the length of the pieces that are asked for. -/
def Countable (o : Options) : Prop :=
  ∀ n, o.chunkSize = some n → o.mode.isBlockMode = true →
    Context.roundUp o.algorithm.blockSize (max n 1) ≤ Word.max64

/-- Pieces that can be counted have a length. -/
lemma Countable.pieceLength? (h : o.Countable) (ha : c.algorithm = o.algorithm)
    (hm : c.mode = o.mode) (inputLength : Nat) :
    ∃ length, c.pieceLength? o.chunkSize inputLength = some length := by
  cases hn : o.chunkSize with
  | none => exact ⟨_, rfl⟩
  | some n =>
    rw [Context.pieceLength?, hm, Context.blockSize, ha]
    split
    · rename_i hblock
      exact ⟨_, if_pos (h n hn hblock)⟩
    · exact ⟨_, rfl⟩

/-- Unless the engine is refused, a run gives what a single call on all of the input gives, and is
refused where the call is. -/
lemma result_cases (hcount : o.Countable) {input : Bytes} (hin : readBytes files o.file = .ok input)
    (hc : o.configured files suite = .ok c) (hs : c.Follows ⟨s, .empty⟩)
    (ha : s.algorithm = o.algorithm) (hm : s.mode = o.mode) :
    (∃ engine, o.result files suite =
        .error (.failed (.engineUnavailable engine o.algorithm o.mode))) ∨
      (∃ e, o.result files suite = .error (.failed e) ∧
        (s.respond [] o.direction input).toOption = none) ∨
      ∃ out, o.result files suite = .ok out ∧
        (s.respond [] o.direction input).toOption = some out := by
  rcases context_cases hs hc with
    ⟨engine, hrefused⟩ | ⟨c', continuous, preferred, hcontext, hcontinuous, hfollows⟩
  · rw [result, hin, hrefused]
    exact .inl ⟨engine, rfl⟩
  · have halgorithm := (congrArg Settings.algorithm hfollows.settings).trans ha
    have hmode := (congrArg Settings.mode hfollows.settings).trans hm
    have hpadding : c'.padding = s.padding := congrArg Settings.padding hfollows.settings
    obtain ⟨length, hlength⟩ := hcount.pieceLength? halgorithm hmode input.length
    -- neither the stream nor the engine is anything to a call
    have hpieces : (c'.processPieces o.direction c'.padding (Bytes.pieces length input)).toOption =
        (s.respond [] o.direction input).toOption := by
      rw [hfollows.processPieces_pieceLength? hcontinuous hlength, hpadding]
      rfl
    have hresult : o.result files suite =
        (c'.processPieces o.direction c'.padding (Bytes.pieces length input)).mapError
          fun e => .failed (.failed o.direction e) := by
      simp only [result, hin, hcontext, ok_mapError, ok_bind, hlength]
    refine .inr ?_
    rw [hresult, ← hpieces]
    cases c'.processPieces o.direction c'.padding (Bytes.pieces length input) with
    | error e => exact .inl ⟨_, rfl, rfl⟩
    | ok out => exact .inr ⟨out, rfl, rfl⟩

/-- Without an input, or without a context to configure, a run fails whatever the pieces are. -/
lemma result_of_error {e : RunError} (h : readBytes files o.file = .error e ∨
    ∃ input, readBytes files o.file = .ok input ∧ o.configured files suite = .error e) :
    o.result files suite = .error (.failed e) := by
  rcases h with hin | ⟨input, hin, hc⟩
  · rw [result, hin]
    rfl
  · have hcontext : o.context files suite = .error e := by
      rw [context_eq, hc]
      rfl
    rw [result, hin, hcontext]
    rfl

end Options

/-! ## Initialization vectors that are not used -/

/-- A run that fails because its engine is not there. -/
def Outcome.RefusesEngine : Outcome → Prop
  | failed (.engineUnavailable _ _ _) => True
  | _ => False

/-- A single pass is the same behind every initialization vector, in a mode that uses none. -/
lemma Algorithm.oneShot_of_usesIv_eq_false {algorithm : Algorithm} {mode : Mode}
    (hs : algorithm.supports mode = true) (hm : mode.usesIv = false) (key iv iv' : Bytes)
    (direction : Direction) (data : Bytes) :
    algorithm.oneShot mode key iv direction data =
      algorithm.oneShot mode key iv' direction data := by
  cases mode with
  | ecb =>
    -- the one algorithm with a chain of its own runs in CBC only
    have hecb (cipher : BlockCipher) (s t : ChainState) :
        (ecb cipher direction s data).1 = (ecb cipher direction t data).1 := by
      simp only [ecb, mapBlocks, Provider.mapState_ecbStep]
    cases algorithm with
    | tripleDesInnerCbc => cases hs
    | _ => simp only [oneShot, runMode, Except.map, hecb _ (.start iv) (.start iv')]
  | stream =>
    cases algorithm with
    | tripleDesInnerCbc => cases hs
    | _ => rfl
  | _ => cases hm

namespace Settings

/-- No answer depends on an initialization vector that the mode does not use. -/
lemma respond_of_usesIv_eq_false {s : Settings} (hs : s.algorithm.supports s.mode = true)
    (hm : s.mode.usesIv = false) (iv log : Bytes) (direction : Direction) (data : Bytes) :
    { s with iv := iv : Settings }.respond log direction data = s.respond log direction data := by
  have haccept : { s with iv := iv : Settings }.accept direction data =
      s.accept direction data := by
    cases direction <;> rfl
  rw [respond, respond, haccept]
  cases s.accept direction data with
  | error e => rfl
  | ok r =>
    simp only [Algorithm.oneShot_of_usesIv_eq_false hs hm r.1 iv s.iv]
    cases direction <;> rfl

end Settings

/-- Leaving out the padding is a setting like others. -/
lemma Context.Follows.padded {c : Context} {s : Settings} (h : c.Follows ⟨s, .empty⟩)
    (padding : Bool) : (if padding then c else c.setPadding false).Follows
      ⟨{ s with padding := padding && s.padding }, .empty⟩ := by
  cases padding with
  | true => exact h
  | false =>
    obtain ⟨s', hu, hs'⟩ := h.setting (.setPadding false) trivial rfl
    cases hu
    exact hs'

namespace Options

variable {o : Options} {files : Files} {suite : Provider.Suite} {c : Context} {s : Settings}

/-- Whether the padding is left out is the last thing that is configured. -/
lemma configured_eq (o : Options) (files : Files) (suite : Provider.Suite) :
    o.configured files suite = o.keyedContext files suite >>= fun c => o.withIv files c >>= fun c =>
      .ok (if o.padding then c else c.setPadding false) := rfl

/-- A run whose engine is not refused gives what a single call gives. -/
lemma result_toOption (hcount : o.Countable) {input : Bytes}
    (hin : readBytes files o.file = .ok input) (hc : o.configured files suite = .ok c)
    (hs : c.Follows ⟨s, .empty⟩) (ha : s.algorithm = o.algorithm) (hm : s.mode = o.mode)
    (he : ∀ outcome, o.result files suite = .error outcome → ¬outcome.RefusesEngine) :
    (o.result files suite).toOption = (s.respond [] o.direction input).toOption := by
  rcases result_cases hcount hin hc hs ha hm with
    ⟨engine, hrefused⟩ | ⟨e, herror, hnone⟩ | ⟨out, hok, hsome⟩
  · exact absurd trivial (he _ hrefused)
  · rw [herror, hnone]
    rfl
  · rw [hok, hsome]
    rfl

/-- What a run warns of is so: it gives the same as without the initialization vector. -/
theorem result_of_warning (hf : suite.Faithful) (hcount : o.Countable) {warning path : String}
    {iv : Bytes} (hw : o.warning? files suite = some warning) (hp : o.iv = some path)
    (hiv : readBytes files path = .ok iv)
    (he : ∀ outcome, o.result files suite = .error outcome → ¬outcome.RefusesEngine)
    (he' : ∀ outcome, { o with iv := none : Options }.result files suite = .error outcome →
      ¬outcome.RefusesEngine) :
    (o.result files suite).toOption =
      ({ o with iv := none : Options }.result files suite).toOption := by
  rw [warning?] at hw
  split at hw
  next input keyed hin hkeyed =>
    have hunused : o.mode.usesIv = false := by
      cases hu : o.mode.usesIv with
      | false => rfl
      | true =>
        rw [hu, Bool.not_true, Bool.and_false] at hw
        cases hw
    obtain ⟨s, hs, ha, hm⟩ := keyedContext_spec hf hkeyed
    obtain ⟨t, ht, hst⟩ := hs.setting (.setIv iv) trivial rfl
    cases ht
    have hsettings : keyed.settings = s := hs.settings
    have hsupports : s.algorithm.supports s.mode = true := hsettings ▸ hs.sound.valid.supports
    have hwith : o.configured files suite =
        .ok (if o.padding then keyed.setIv iv else (keyed.setIv iv).setPadding false) := by
      simp only [configured_eq, hkeyed, ok_bind, withIv, hp, hiv]
      rfl
    have hwithout : { o with iv := none : Options }.configured files suite =
        .ok (if o.padding then keyed else keyed.setPadding false) := by
      have hkeyed : { o with iv := none : Options }.keyedContext files suite = .ok keyed := hkeyed
      simp only [configured_eq, hkeyed, ok_bind, withIv]
    rw [result_toOption hcount hin hwith (hst.padded o.padding) ha hm he,
      result_toOption (o := { o with iv := none }) hcount hin hwithout (hs.padded o.padding) ha hm
        he']
    exact congrArg _ (Settings.respond_of_usesIv_eq_false
      (s := { s with padding := o.padding && s.padding }) hsupports (hm ▸ hunused) _ _ _ _)
  next => cases hw

end Options
/-! ## Main results -/

namespace Options

variable {o : Options} {files : Files} {suite : Provider.Suite}

/-- Two runs that differ in the pieces and the engine only both succeed, with the same output, or
both fail. -/
lemma result_congr (hf : suite.Faithful) {chunkSize : Option Nat} {engine : Option Engine}
    (hcount : o.Countable)
    (hcount' : { o with chunkSize := chunkSize, engine := engine : Options }.Countable)
    (he : ∀ outcome, o.result files suite = .error outcome → ¬outcome.RefusesEngine)
    (he' : ∀ outcome,
      { o with chunkSize := chunkSize, engine := engine : Options }.result files suite =
        .error outcome → ¬outcome.RefusesEngine) :
    (∃ e e', o.result files suite = .error (.failed e) ∧
        { o with chunkSize := chunkSize, engine := engine : Options }.result files suite =
          .error (.failed e')) ∨
      ∃ out, o.result files suite = .ok out ∧
        { o with chunkSize := chunkSize, engine := engine : Options }.result files suite =
          .ok out := by
  cases hin : readBytes files o.file with
  | error e =>
    exact .inl ⟨e, e, result_of_error (.inl hin), result_of_error (.inl hin)⟩
  | ok input =>
    cases hc : o.configured files suite with
    | error e =>
      exact .inl ⟨e, e, result_of_error (.inr ⟨input, hin, hc⟩),
        result_of_error (.inr ⟨input, hin, hc⟩)⟩
    | ok c =>
      -- both runs have the same configured context, and so the same call to compare with
      obtain ⟨s, hs, ha, hm⟩ := configured_spec hf hc
      rcases result_cases hcount hin hc hs ha hm with
        ⟨engine, hrefused⟩ | ⟨e, herror, hnone⟩ | ⟨out, hok, hsome⟩
      · exact absurd trivial (he _ hrefused)
      · rcases result_cases hcount' hin hc hs ha hm with
          ⟨engine, hrefused⟩ | ⟨e', herror', -⟩ | ⟨out, -, hsome⟩
        · exact absurd trivial (he' _ hrefused)
        · exact .inl ⟨e, e', herror, herror'⟩
        · cases hnone.symm.trans hsome
      · rcases result_cases hcount' hin hc hs ha hm with
          ⟨engine, hrefused⟩ | ⟨e', -, hnone⟩ | ⟨out', hok', hsome'⟩
        · exact absurd trivial (he' _ hrefused)
        · cases hsome.symm.trans hnone
        · cases hsome.symm.trans hsome'
          exact .inr ⟨out, hok, hok'⟩

/-- A run without a result ends as it says, and leaves the directory as it is. -/
lemma runIn_of_error {d : Directory} {outcome : Outcome}
    (h : o.result d.read suite = .error outcome) : o.runIn d suite = (outcome, d) := by
  rw [runIn, h]

end Options

/-- Neither the length of the pieces nor the engine changes what a run does, as long as the length
can be counted and the engine is not refused. Both runs end with the same exit code and leave the
same directory. A `Directory` is flat and holds text files only, and whatever is written to it is
written as a whole. -/
theorem runArguments_pieces_engine {suite : Provider.Suite} (hf : suite.Faithful)
    {arguments arguments' : List String} {o : Options} {chunkSize : Option Nat}
    {engine : Option Engine} (ho : Options.ofArguments arguments = .ok o)
    (ho' : Options.ofArguments arguments' =
      .ok { o with chunkSize := chunkSize, engine := engine })
    (hcount : o.Countable)
    (hcount' : { o with chunkSize := chunkSize, engine := engine : Options }.Countable)
    {d : Directory} (he : ¬(runArguments arguments d suite).1.RefusesEngine)
    (he' : ¬(runArguments arguments' d suite).1.RefusesEngine) :
    (runArguments arguments d suite).1.exitCode = (runArguments arguments' d suite).1.exitCode ∧
      (runArguments arguments d suite).2 = (runArguments arguments' d suite).2 := by
  have hrun : runArguments arguments d suite = o.runIn d suite := by rw [runArguments, ho]
  have hrun' : runArguments arguments' d suite =
      { o with chunkSize := chunkSize, engine := engine : Options }.runIn d suite := by
    rw [runArguments, ho']
  rw [hrun] at he ⊢
  rw [hrun'] at he' ⊢
  have herror (outcome : Outcome) (h : o.result d.read suite = .error outcome) :
      ¬outcome.RefusesEngine := by
    rwa [Options.runIn_of_error h] at he
  have herror' (outcome : Outcome)
      (h : { o with chunkSize := chunkSize, engine := engine : Options }.result d.read suite =
        .error outcome) : ¬outcome.RefusesEngine := by
    rwa [Options.runIn_of_error h] at he'
  rcases Options.result_congr hf hcount hcount' herror herror' with
    ⟨e, e', hfails, hfails'⟩ | ⟨out, hok, hok'⟩
  · rw [Options.runIn_of_error hfails, Options.runIn_of_error hfails']
    exact ⟨rfl, rfl⟩
  · rw [Options.runIn, Options.runIn, hok, hok']
    exact ⟨rfl, rfl⟩

/-- AES in CBC encrypts 17 bytes in a single call, and in pieces of one block on the built-in
backend. -/
theorem runArguments_pieces_engine_aes :
    Provider.Suite.standard.Faithful ∧
    Options.ofArguments ["-f", "in", "-o", "out", "-k", "key", "-x", "encrypt"] =
      .ok ⟨"in", "out", some "key", none, none, .aes, .cbc, .encrypt, true, none, none⟩ ∧
    Options.ofArguments ["-f", "in", "-o", "out", "-k", "key", "-x", "encrypt", "--chunk-size", "0",
        "--engine", "accelerated"] =
      .ok ⟨"in", "out", some "key", none, none, .aes, .cbc, .encrypt, true, some 0,
        some .accelerated⟩ ∧
    (runArguments ["-f", "in", "-o", "out", "-k", "key", "-x", "encrypt"]
      (.ofFiles [("in", "000102030405060708090a0b0c0d0e0f 10"),
        ("key", "000102030405060708090a0b0c0d0e0f")])).1 = .done ∧
    (runArguments ["-f", "in", "-o", "out", "-k", "key", "-x", "encrypt", "--chunk-size", "0",
        "--engine", "accelerated"]
      (.ofFiles [("in", "000102030405060708090a0b0c0d0e0f 10"),
        ("key", "000102030405060708090a0b0c0d0e0f")])).1 = .done ∧
    (runArguments ["-f", "in", "-o", "out", "-k", "key", "-x", "encrypt"]
      (.ofFiles [("in", "000102030405060708090a0b0c0d0e0f 10"),
        ("key", "000102030405060708090a0b0c0d0e0f")])).2 =
      (runArguments ["-f", "in", "-o", "out", "-k", "key", "-x", "encrypt", "--chunk-size", "0",
          "--engine", "accelerated"]
        (.ofFiles [("in", "000102030405060708090a0b0c0d0e0f 10"),
          ("key", "000102030405060708090a0b0c0d0e0f")])).2 := by
  have hf := Provider.Suite.faithful_standard
  have ho : Options.ofArguments ["-f", "in", "-o", "out", "-k", "key", "-x", "encrypt"] =
      .ok ⟨"in", "out", some "key", none, none, .aes, .cbc, .encrypt, true, none, none⟩ :=
    toOption_eq_some_iff.1 (by decide +kernel)
  have ho' : Options.ofArguments ["-f", "in", "-o", "out", "-k", "key", "-x", "encrypt",
        "--chunk-size", "0", "--engine", "accelerated"] =
      .ok ⟨"in", "out", some "key", none, none, .aes, .cbc, .encrypt, true, some 0,
        some .accelerated⟩ := toOption_eq_some_iff.1 (by decide +kernel)
  have hdone : (runArguments ["-f", "in", "-o", "out", "-k", "key", "-x", "encrypt"]
      (.ofFiles [("in", "000102030405060708090a0b0c0d0e0f 10"),
        ("key", "000102030405060708090a0b0c0d0e0f")])).1 = .done := by decide +kernel
  have hdone' : (runArguments ["-f", "in", "-o", "out", "-k", "key", "-x", "encrypt",
        "--chunk-size", "0", "--engine", "accelerated"]
      (.ofFiles [("in", "000102030405060708090a0b0c0d0e0f 10"),
        ("key", "000102030405060708090a0b0c0d0e0f")])).1 = .done := by decide +kernel
  refine ⟨hf, ho, ho', hdone, hdone', ?_⟩
  refine (runArguments_pieces_engine hf ho ho' ?_ ?_ ?_ ?_).2
  · rintro n ⟨⟩
  · rintro n ⟨⟩ -
    decide
  · rw [hdone]
    exact id
  · rw [hdone']
    exact id

end SymmetricCipher
