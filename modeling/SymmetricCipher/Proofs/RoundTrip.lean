import SymmetricCipher.Proofs.Pieces
import SymmetricCipher.Proofs.Refinement
import SymmetricCipher.Proofs.Separation

/-!
# Round trips

What a context encrypts, the same context decrypts again, whatever calls come in between in either
direction. The answers of a direction are those of `Settings.turn`, which sees the log of that
direction and nothing else; that comes from the reference context by the lemma on two runs side by
side. So the two directions meet in their logs only: `Settings.Mirrors` says that the log of
decryption is what a single pass makes of the log of encryption, and each ciphertext that comes back
keeps it so.
-/

namespace SymmetricCipher

/-- A step that looks at a part of its inputs only is run on those parts. -/
lemma mapState_comp {σ α β γ : Type} (step : σ → γ → β × σ) (f : α → γ) (s : σ) (xs : List α) :
    mapState (fun s x => step s (f x)) s xs = mapState step s (xs.map f) := by
  induction xs generalizing s with
  | nil => rfl
  | cons x xs ih => rw [mapState_cons, List.map_cons, mapState_cons, ih]

/-! ## One direction -/

namespace Settings

variable {s : Settings} {direction : Direction} {key : Bytes}

/-- A call with data as its direction alone sees it: the answer behind a log, and the log that the
next call comes behind. -/
def turn (s : Settings) (direction : Direction) (log data : Bytes) :
    Except CipherError Bytes × Bytes :=
  match s.accept direction data with
  | .error e => (.error e, log)
  | .ok (_, x) => (s.respond log direction data, if s.continuous then log ++ x else [])

/-- Data that is accepted is answered, and it is logged in a continuous stream. -/
lemma turn_of_accept {log data x : Bytes} (ha : s.accept direction data = .ok (key, x)) :
    s.turn direction log data =
      (s.respond log direction data, if s.continuous then log ++ x else []) := by
  rw [turn, ha]

/-- The answer is that of the settings. -/
lemma turn_fst (s : Settings) (direction : Direction) (log data : Bytes) :
    (s.turn direction log data).1 = s.respond log direction data := by
  cases ha : s.accept direction data with
  | error e => rw [turn, respond, ha]
  | ok r => rw [turn_of_accept ha]

/-- A direction sees of a call in it what the reference context answers and records. -/
lemma turn_opening (s : Settings) (logs : Logs) (direction : Direction) (data : Bytes) :
    s.turn direction (s.opening logs direction) data =
      (s.respond (s.opening logs direction) direction data,
        s.opening (s.record (s.opening logs) direction data) direction) := by
  cases ha : s.accept direction data with
  | error e => rw [turn, ha, respond, ha, record, ha, opening_opening]
  | ok r =>
    rw [turn_of_accept ha, record_of_accept ha]
    by_cases hc : s.continuous = true
    · rw [if_pos hc, opening_of_continuous hc, opening_of_continuous hc, Logs.append_self]
    · rw [if_neg hc, opening, opening, if_neg hc, if_neg hc]
      rfl

/-- Of a call in another direction it sees nothing. -/
lemma opening_record_of_ne (s : Settings) (logs : Logs) {other : Direction}
    (h : direction ≠ other) (data : Bytes) :
    s.opening (s.record (s.opening logs) other data) direction = s.opening logs direction := by
  cases ha : s.accept other data with
  | error e => rw [record, ha, opening_opening]
  | ok r =>
    rw [record_of_accept ha]
    by_cases hc : s.continuous = true
    · rw [opening_of_continuous hc, opening_of_continuous hc, Logs.append_of_ne _ h]
    · rw [opening, opening, if_neg hc, if_neg hc]

/-- The log of decryption is what a single pass makes of the log of encryption. -/
structure Mirrors (s : Settings) (key plain cipher : Bytes) : Prop where
  aligned : s.mode.Aligned s.algorithm.blockSize plain
  pass : s.algorithm.oneShot s.mode key s.iv .encrypt plain = .ok cipher

/-- A pass over no data gives none. -/
lemma oneShot_nil (hv : s.Valid) (hk : s.key = some key) (direction : Direction) :
    s.algorithm.oneShot s.mode key s.iv direction [] = .ok [] := by
  have hnil : s.mode.Aligned s.algorithm.blockSize [] := fun _ => Nat.zero_mod _
  obtain ⟨a, -, hpass, hlen, -⟩ :=
    Algorithm.oneShot_append hv.supports (hv.key hk) hv.iv direction hnil hnil
  rw [hpass, List.eq_nil_of_length_eq_zero hlen]

/-- The empty logs mirror each other. -/
lemma Mirrors.empty (hv : s.Valid) (hk : s.key = some key) : s.Mirrors key [] [] :=
  ⟨fun _ => Nat.zero_mod _, oneShot_nil hv hk .encrypt⟩

/-- Data goes to the cipher in whole blocks if it is padded, or comes so. -/
lemma aligned_prepare (s : Settings) {data : Bytes}
    (h : s.pads = true ∨ s.mode.Aligned s.algorithm.blockSize data) :
    s.mode.Aligned s.algorithm.blockSize (s.prepare .encrypt data) := by
  rw [prepare]
  split
  · intro _
    rw [Padding.length_add s.algorithm.blockSize_pos]
    exact Nat.mul_mod_left _ _
  · rename_i hp
    exact h.resolve_left hp

/-- Padding makes data up to the next whole block, and never adds nothing. -/
lemma length_prepare (s : Settings) (data : Bytes) :
    (s.prepare .encrypt data).length =
      if s.pads then (data.length / s.algorithm.blockSize + 1) * s.algorithm.blockSize
      else data.length := by
  rw [prepare]
  split
  · exact Padding.length_add s.algorithm.blockSize_pos data
  · rfl

/-- One block at least goes to the cipher if data is padded or is one block long. -/
lemma blockSize_le_length_prepare (s : Settings) {data : Bytes}
    (h : s.pads = true ∨ s.algorithm.blockSize ≤ data.length) :
    s.algorithm.blockSize ≤ (s.prepare .encrypt data).length := by
  rw [length_prepare]
  split
  · exact Nat.le_mul_of_pos_left _ (Nat.succ_pos _)
  · rename_i hp
    exact h.resolve_left hp

/-- What is padded comes back as it was. -/
lemma finish_prepare (s : Settings) (data : Bytes) :
    s.finish .decrypt (s.prepare .encrypt data) = .ok data := by
  have hbyte : s.algorithm.blockSize < 256 := by cases s.algorithm <;> decide
  rw [finish, prepare]
  split
  · exact Padding.remove_add s.algorithm.blockSize_pos hbyte data
  · rfl

/-- What is encrypted behind a log is decrypted behind the mirror of the log, and the logs mirror
each other again. -/
lemma Mirrors.turn (hv : s.Valid) (hk : s.key = some key) {plain cipher p c : Bytes}
    (hm : s.Mirrors key plain cipher) (h : (s.turn .encrypt plain p).1 = .ok c) :
    (s.turn .decrypt cipher c).1 = .ok p ∧ c.length = (s.prepare .encrypt p).length ∧
      s.Mirrors key (s.turn .encrypt plain p).2 (s.turn .decrypt cipher c).2 := by
  have hsupports := hv.supports
  have hkey := hv.key hk
  cases ha : s.accept .encrypt p with
  | error e =>
    rw [Settings.turn, ha] at h
    cases h
  | ok r =>
    obtain ⟨key', x⟩ := r
    obtain ⟨hk', rfl, hx⟩ := of_accept ha
    cases hk.symm.trans hk'
    obtain ⟨front, out, hfront, hlen, hboth, hout, hrespond⟩ := respond_spec hv hm.aligned ha
    cases hm.pass.symm.trans hfront
    rw [turn_of_accept ha] at h ⊢
    cases hrespond.symm.trans h
    -- the ciphertext has the length of the padded plaintext, and so it is accepted
    have hback : s.accept .decrypt c = .ok (key, c) :=
      accept_of_aligned hk (hx.of_length_eq hout)
    obtain ⟨plain', x', hplain, -, hboth', -, hrespond'⟩ :=
      respond_spec hv (hm.aligned.of_length_eq hlen) hback
    cases (Algorithm.oneShot_opposite hsupports hkey hv.iv hm.pass).symm.trans hplain
    have hsame := (Algorithm.oneShot_opposite hsupports hkey hv.iv hboth).symm.trans hboth'
    obtain rfl : s.prepare .encrypt p = x' := List.append_cancel_left (Except.ok.inj hsame)
    rw [turn_of_accept hback, hrespond', finish_prepare]
    refine ⟨rfl, hout, ?_⟩
    by_cases hc : s.continuous = true
    · rw [if_pos hc, if_pos hc]
      exact ⟨hm.aligned.append hx, hboth⟩
    · rw [if_neg hc, if_neg hc]
      exact .empty hv hk

/-- What one call encrypts at the start of a stream, one call decrypts at the start of another. -/
lemma respond_decrypt (hv : s.Valid) {data out : Bytes}
    (h : s.respond [] .encrypt data = .ok out) : s.respond [] .decrypt out = .ok data := by
  cases ha : s.accept .encrypt data with
  | error e =>
    rw [respond, ha] at h
    cases h
  | ok r =>
    have hk := (of_accept ha).1
    rw [← turn_fst] at h ⊢
    exact (Mirrors.empty hv hk).turn hv hk h |>.1

/-- Plaintexts whose encryptions all succeed come back, in order, from their ciphertexts. -/
lemma Mirrors.turns (hv : s.Valid) (hk : s.key = some key) {plain cipher : Bytes}
    (hm : s.Mirrors key plain cipher) {ps cs : List Bytes}
    (h : (mapState (s.turn .encrypt) plain ps).1 = cs.map .ok) :
    (mapState (s.turn .decrypt) cipher cs).1 = ps.map .ok ∧
      cs.map List.length = ps.map fun p => (s.prepare .encrypt p).length := by
  induction ps generalizing plain cipher cs with
  | nil =>
    obtain rfl : cs = [] := List.map_eq_nil_iff.1 h.symm
    exact ⟨rfl, rfl⟩
  | cons p ps ih =>
    cases cs with
    | nil => cases h
    | cons c cs =>
      obtain ⟨hhead, htail⟩ := List.cons.inj h
      obtain ⟨hback, hlen, hm'⟩ := hm.turn hv hk hhead
      obtain ⟨hbacks, hlens⟩ := ih hm' htail
      rw [mapState_cons, hback, hbacks, List.map_cons, List.map_cons, hlen, hlens]
      exact ⟨rfl, rfl⟩

/-- Encryption fails on misaligned data only. -/
lemma exists_turns_encrypt (hv : s.Valid) (hk : s.key = some key) {log : Bytes}
    (hlog : s.mode.Aligned s.algorithm.blockSize log) {ps : List Bytes}
    (hps : ∀ p ∈ ps, s.mode.Aligned s.algorithm.blockSize (s.prepare .encrypt p)) :
    ∃ cs : List Bytes, (mapState (s.turn .encrypt) log ps).1 = cs.map .ok := by
  induction ps generalizing log with
  | nil => exact ⟨[], rfl⟩
  | cons p ps ih =>
    have hp := hps p List.mem_cons_self
    have ha := accept_of_aligned hk hp
    obtain ⟨front, out, -, -, -, -, hrespond⟩ := respond_spec hv hlog ha
    have hlog' : s.mode.Aligned s.algorithm.blockSize (s.turn .encrypt log p).2 := by
      rw [turn_of_accept ha]
      show s.mode.Aligned _ (if s.continuous then _ else _)
      split
      · exact hlog.append hp
      · exact fun _ => Nat.zero_mod _
    obtain ⟨cs, hcs⟩ := ih hlog' fun q hq => hps q (List.mem_cons_of_mem p hq)
    refine ⟨out :: cs, ?_⟩
    rw [mapState_cons, hcs, turn_of_accept ha, hrespond]
    rfl

/-- While the stream goes on, and nothing is cut off them, the answers to any pieces of data make up
what a single pass makes of the pieces. -/
lemma turns_flatten (hv : s.Valid) (hk : s.key = some key) (hc : s.continuous = true)
    (hfinish : ∀ x, s.finish direction x = .ok x) {log : Bytes}
    (hlog : s.mode.Aligned s.algorithm.blockSize log) {pieces : List Bytes}
    (hpieces : ∀ p ∈ pieces, s.mode.Aligned s.algorithm.blockSize (s.prepare direction p)) :
    ∃ (front : Bytes) (outs : List Bytes),
      s.algorithm.oneShot s.mode key s.iv direction log = .ok front ∧
      s.algorithm.oneShot s.mode key s.iv direction
        (log ++ (pieces.map (s.prepare direction)).flatten) = .ok (front ++ outs.flatten) ∧
      (mapState (s.turn direction) log pieces).1 = outs.map .ok ∧
      outs.map List.length = pieces.map fun p => (s.prepare direction p).length := by
  induction pieces generalizing log with
  | nil =>
    obtain ⟨front, -, hfront, -⟩ := Algorithm.oneShot_append hv.supports (hv.key hk) hv.iv direction
      hlog (y := []) fun _ => Nat.zero_mod _
    refine ⟨front, [], hfront, ?_, rfl, rfl⟩
    rw [List.map_nil, List.flatten_nil, List.append_nil, List.append_nil, hfront]
  | cons piece pieces ih =>
    have hpiece := hpieces piece List.mem_cons_self
    have ha := accept_of_aligned hk hpiece
    obtain ⟨front, out, hfront, -, hboth, hlen, hrespond⟩ := respond_spec hv hlog ha
    obtain ⟨front', outs, hfront', hall, hturns, hlens⟩ :=
      ih (hlog.append hpiece) fun p hp => hpieces p (List.mem_cons_of_mem piece hp)
    cases hboth.symm.trans hfront'
    refine ⟨front, out :: outs, hfront, ?_, ?_, ?_⟩
    · rw [List.map_cons, List.flatten_cons, List.flatten_cons, ← List.append_assoc,
        ← List.append_assoc, hall]
    · rw [mapState_cons, turn_of_accept ha, if_pos hc, hturns, hrespond, hfinish]
      rfl
    · rw [List.map_cons, List.map_cons, hlen, hlens]

end Settings

/-! ## Both directions of a context -/

/-- Settings leave empty logs empty. -/
lemma Reference.logs_run_settings {r : Reference} (hr : r.logs = .empty) {calls : List Call}
    (h : ∀ call ∈ calls, call.IsSetting) : (r.run calls).2.logs = .empty := by
  induction calls generalizing r with
  | nil => exact hr
  | cons call calls ih =>
    rw [run, mapState_cons]
    refine ih ?_ fun other hmem => h other (List.mem_cons_of_mem call hmem)
    rw [perform_setting r (h call List.mem_cons_self)]
    split
    · exact hr
    · rw [hr]
      exact ite_self _

namespace Context

/-- Answers calls with data one after the other. -/
def transform (c : Context) (calls : List (Direction × Bytes)) :
    List (Except CipherError Bytes) × Context :=
  mapState (fun c call => c.process call.1 call.2) c calls

/-- The data of the calls in a direction. -/
def dataIn (direction : Direction) (calls : List (Direction × Bytes)) : List Bytes :=
  (calls.filter (·.1 == direction)).map (·.2)

/-- The answers that a context gives to the calls in a direction, among calls in both. -/
def answersIn (c : Context) (direction : Direction) (calls : List (Direction × Bytes)) :
    List (Except CipherError Bytes) :=
  picked (·.1 == direction) calls (c.transform calls).1

/-- The answers of a direction are those that it would give alone. -/
lemma Follows.answersIn {c : Context} {s : Settings} {logs : Logs} (h : c.Follows ⟨s, logs⟩)
    (direction : Direction) (calls : List (Direction × Bytes)) :
    c.answersIn direction calls =
      (mapState (s.turn direction) (s.opening logs direction) (dataIn direction calls)).1 := by
  -- the context is related to the log that its next call in the direction comes behind
  have skip (c : Context) (log : Bytes) (call : Direction × Bytes) (_ : True)
      (ho : (call.1 == direction) = false)
      (h : ∃ logs, c.Follows ⟨s, logs⟩ ∧ s.opening logs direction = log) :
      ∃ logs, (c.process call.1 call.2).2.Follows ⟨s, logs⟩ ∧ s.opening logs direction = log := by
    obtain ⟨other, data⟩ := call
    obtain ⟨logs, ⟨rfl, hs, hr⟩, rfl⟩ := h
    have hne : direction ≠ other := fun e => by
      rw [e, beq_self_eq_true] at ho
      cases ho
    exact ⟨_, (hr.process hs other data).2, c.settings.opening_record_of_ne logs hne data⟩
  have pick (c : Context) (log : Bytes) (call : Direction × Bytes) (_ : True)
      (ho : (call.1 == direction) = true)
      (h : ∃ logs, c.Follows ⟨s, logs⟩ ∧ s.opening logs direction = log) :
      (c.process call.1 call.2).1 = (s.turn direction log call.2).1 ∧
        ∃ logs, (c.process call.1 call.2).2.Follows ⟨s, logs⟩ ∧
          s.opening logs direction = (s.turn direction log call.2).2 := by
    obtain ⟨other, data⟩ := call
    obtain ⟨logs, ⟨rfl, hs, hr⟩, rfl⟩ := h
    obtain rfl : other = direction := eq_of_beq ho
    obtain ⟨hanswer, hnext⟩ := hr.process hs other data
    rw [Settings.turn_opening]
    exact ⟨hanswer, _, hnext, rfl⟩
  obtain ⟨hanswers, -⟩ := mapState_picked skip pick ⟨logs, h, rfl⟩ calls fun _ _ => trivial
  rw [Context.answersIn, transform, hanswers, dataIn, mapState_comp]

/-- A context gives back what it encrypted. The calls are in any order, in both directions. -/
structure RoundTrips (c : Context) (calls : List (Direction × Bytes)) : Prop where
  /-- Encryption fails on data that is misaligned and not padded only. -/
  succeeds : (∀ p ∈ dataIn .encrypt calls, c.pads = true ∨ c.mode.Aligned c.blockSize p) →
    ∃ cs : List Bytes, c.answersIn .encrypt calls = cs.map .ok
  /-- A ciphertext is as long as its plaintext, or as that with padding. -/
  length : ∀ cs : List Bytes, c.answersIn .encrypt calls = cs.map .ok →
    cs.map List.length = (dataIn .encrypt calls).map fun p =>
      if c.pads then (p.length / c.blockSize + 1) * c.blockSize else p.length
  /-- The ciphertexts that are decrypted give their plaintexts. -/
  decrypts : ∀ cs : List Bytes, c.answersIn .encrypt calls = cs.map .ok →
    dataIn .decrypt calls <+: cs →
    c.answersIn .decrypt calls =
      ((dataIn .encrypt calls).take (dataIn .decrypt calls).length).map .ok
  /-- Where data is one stream of bytes, it may be cut in other places to be decrypted. -/
  pieces : c.mode.isBlockMode = false → c.continuous = true →
    ∀ cs : List Bytes, c.answersIn .encrypt calls = cs.map .ok →
    (dataIn .decrypt calls).flatten <+: cs.flatten →
    ∃ ms : List Bytes, c.answersIn .decrypt calls = ms.map .ok ∧
      ms.map List.length = (dataIn .decrypt calls).map List.length ∧
      ms.flatten <+: (dataIn .encrypt calls).flatten

/-- What follows a reference at the start of its stream decrypts what it encrypts. -/
lemma Follows.roundTrips {c : Context} {s : Settings} (h : c.Follows ⟨s, .empty⟩) {key : Bytes}
    (hk : c.key = some key) (calls : List (Direction × Bytes)) : c.RoundTrips calls := by
  have answers (direction : Direction) : c.answersIn direction calls =
      (mapState (s.turn direction) [] (dataIn direction calls)).1 := by
    rw [h.answersIn, Settings.opening_empty]
    rfl
  obtain ⟨rfl, hsound, -⟩ := h
  have hv := hsound.valid
  have hm := Settings.Mirrors.empty hv hk
  refine ⟨fun hps => ?_, fun cs hcs => ?_, fun cs hcs hds => ?_, fun hb hc cs hcs hds => ?_⟩
  · rw [answers]
    exact Settings.exists_turns_encrypt hv hk hm.aligned
      fun p hp => c.settings.aligned_prepare (hps p hp)
  · rw [answers] at hcs
    rw [(hm.turns hv hk hcs).2]
    exact List.map_congr_left fun p _ => c.settings.length_prepare p
  · rw [answers] at hcs ⊢
    obtain ⟨rest, rfl⟩ := hds
    have hback := (hm.turns hv hk hcs).1
    rw [mapState_append] at hback
    rw [List.map_take, ← hback, ← length_mapState (c.settings.turn .decrypt) [], List.take_left]
  · rw [answers] at hcs ⊢
    obtain ⟨rest, hrest⟩ := hds
    have aligned (x : Bytes) : c.mode.Aligned c.settings.algorithm.blockSize x := fun h => by
      rw [hb] at h
      cases h
    -- both lists of pieces are a single pass each, and the one pass undoes the other
    have hpads : c.settings.pads = false := by
      show (c.mode.isBlockMode && _) = false
      rw [hb, Bool.false_and]
    have pass (direction : Direction) := Settings.turns_flatten hv hk hc
      (Settings.finish_of_pads_eq_false hpads direction) (aligned [])
      fun p (_ : p ∈ dataIn direction calls) => aligned (c.settings.prepare direction p)
    have hprepare (direction : Direction) : c.settings.prepare direction = id :=
      funext (Settings.prepare_of_pads_eq_false hpads direction)
    simp only [hprepare, List.map_id, id_eq] at pass
    obtain ⟨_, cs', hnil, hencrypt, hcs', -⟩ := pass .encrypt
    cases (Settings.oneShot_nil hv hk .encrypt).symm.trans hnil
    obtain rfl : cs' = cs := (List.map_inj_right fun _ _ => Except.ok.inj).1 (hcs'.symm.trans hcs)
    obtain ⟨_, ms, hnil, hdecrypt, hms, hlens⟩ := pass .decrypt
    cases (Settings.oneShot_nil hv hk .decrypt).symm.trans hnil
    have hplain := Algorithm.oneShot_opposite hv.supports (hv.key hk) hv.iv hencrypt
    obtain ⟨front, back, hfront, -, hboth, -⟩ := Algorithm.oneShot_append hv.supports (hv.key hk)
      hv.iv .decrypt (aligned (dataIn .decrypt calls).flatten) (aligned rest)
    cases hdecrypt.symm.trans hfront
    rw [hrest] at hboth
    refine ⟨ms, hms, hlens, back, ?_⟩
    exact Except.ok.inj (hboth.symm.trans hplain)

/-! ## Main results -/

/-- Over any built-in backends, a context that was set up in any way and has a key gives back what
it encrypts. -/
theorem round_trip {backends : List Backend} (hf : ∀ b ∈ backends, b.Faithful)
    (hp : ∀ b ∈ backends, b.IsProvider) {algorithm : Algorithm} {mode : Mode}
    (h : algorithm.supports mode = true) :
    ∃ c, Context.create algorithm mode backends = .ok c ∧
      ∀ settings : List Call, (∀ call ∈ settings, call.IsSetting) →
        (c.run settings).2.key ≠ none → ∀ calls, (c.run settings).2.RoundTrips calls := by
  obtain ⟨c, hc, hcreated⟩ := create_ok h backends
  refine ⟨c, hc, fun settings hsettings hkey calls => ?_⟩
  have hfollows := ((Follows.of_created hcreated hf hp).run settings).2
  have hempty : ((Reference.create algorithm mode).run settings).2.logs = .empty :=
    Reference.logs_run_settings rfl hsettings
  obtain ⟨key, hkey⟩ := Option.ne_none_iff_exists'.1 hkey
  revert hfollows hempty
  generalize ((Reference.create algorithm mode).run settings).2 = r
  rintro hfollows hempty
  obtain ⟨s, logs⟩ := r
  obtain rfl : logs = .empty := hempty
  exact hfollows.roundTrips hkey calls

/-- A key, a short initialization vector, and one stream. -/
def streamSettings : List Call :=
  [.setKey (List.replicate 16 1), .setIv [2, 3], .setContinuous true]

/-- Two inputs and their ciphertexts under AES in CBC. The second input comes before the first
ciphertext is decrypted. -/
def interleavedCalls : List (Direction × Bytes) :=
  [(.encrypt, [4, 5, 6]), (.encrypt, []),
    (.decrypt, [92, 228, 229, 58, 13, 49, 39, 168, 138, 190, 28, 166, 202, 152, 35, 13]),
    (.decrypt, [104, 27, 41, 147, 246, 176, 140, 36, 253, 9, 230, 219, 132, 74, 12, 40])]

/-- Two inputs and their ciphertexts under AES in CTR, which are cut into three pieces. -/
def recutCalls : List (Direction × Bytes) :=
  [(.encrypt, [4, 5, 6]), (.decrypt, [80]), (.encrypt, [7, 8]), (.decrypt, [245, 4, 233]),
    (.decrypt, [137])]

/-- AES over the built-in backend decrypts what it encrypted: in CBC the two ciphertexts, each to
its input, and in CTR the three pieces that they are cut into, to the same pieces of the inputs. -/
theorem round_trip_aes :
    (∀ b ∈ [Backend.provider .standard], b.Faithful) ∧
    (∀ b ∈ [Backend.provider .standard], b.IsProvider) ∧
    (∀ call ∈ streamSettings, call.IsSetting) ∧
    (Algorithm.aes.supports .cbc = true ∧
      ∃ c, Context.create .aes .cbc [.provider .standard] = .ok c ∧
        (c.run streamSettings).2.key ≠ none ∧
        (c.run streamSettings).2.RoundTrips interleavedCalls ∧
        (c.run streamSettings).2.answersIn .encrypt interleavedCalls =
          (dataIn .decrypt interleavedCalls).map .ok ∧
        (c.run streamSettings).2.answersIn .decrypt interleavedCalls = [.ok [4, 5, 6], .ok []]) ∧
    (Algorithm.aes.supports .ctr = true ∧
      ∃ c, Context.create .aes .ctr [.provider .standard] = .ok c ∧
        (c.run streamSettings).2.key ≠ none ∧
        (c.run streamSettings).2.RoundTrips recutCalls ∧
        (c.run streamSettings).2.answersIn .encrypt recutCalls =
          [.ok [80, 245, 4], .ok [233, 137]] ∧
        ∃ ms : List Bytes, (c.run streamSettings).2.answersIn .decrypt recutCalls = ms.map .ok ∧
          ms.map List.length = [1, 3, 1] ∧ ms.flatten = [4, 5, 6, 7, 8]) := by
  have hf : ∀ b ∈ [Backend.provider .standard], b.Faithful := by
    intro b hb
    cases List.mem_singleton.1 hb
    exact Provider.Suite.faithful_standard
  have hp : ∀ b ∈ [Backend.provider .standard], b.IsProvider := by
    intro b hb
    cases List.mem_singleton.1 hb
    trivial
  have hset : ∀ call ∈ streamSettings, call.IsSetting := by
    intro call hmem
    rcases hmem with _ | ⟨_, _ | ⟨_, _ | ⟨_, ⟨⟩⟩⟩⟩ <;> trivial
  refine ⟨hf, hp, hset, ⟨rfl, ?_⟩, ⟨rfl, ?_⟩⟩
  · obtain ⟨c, hc, hround⟩ := round_trip hf hp (show Algorithm.aes.supports .cbc = true from rfl)
    obtain ⟨hkey, hencrypts⟩ : (c.run streamSettings).2.key ≠ none ∧
        (c.run streamSettings).2.answersIn .encrypt interleavedCalls =
          (dataIn .decrypt interleavedCalls).map .ok := by
      cases hc
      exact ⟨nofun, by decide +kernel⟩
    have hround := hround streamSettings hset hkey interleavedCalls
    exact ⟨c, hc, hkey, hround, hencrypts, hround.decrypts _ hencrypts List.prefix_rfl⟩
  · obtain ⟨c, hc, hround⟩ := round_trip hf hp (show Algorithm.aes.supports .ctr = true from rfl)
    obtain ⟨hkey, hmode, hencrypts⟩ : (c.run streamSettings).2.key ≠ none ∧
        ((c.run streamSettings).2.mode.isBlockMode = false ∧
          (c.run streamSettings).2.continuous = true) ∧
        (c.run streamSettings).2.answersIn .encrypt recutCalls =
          [.ok [80, 245, 4], .ok [233, 137]] := by
      cases hc
      exact ⟨nofun, ⟨rfl, rfl⟩, by decide +kernel⟩
    have hround := hround streamSettings hset hkey recutCalls
    obtain ⟨ms, hdecrypts, hlengths, hplain⟩ := hround.pieces hmode.1 hmode.2
      [[80, 245, 4], [233, 137]] hencrypts List.prefix_rfl
    refine ⟨c, hc, hkey, hround, hencrypts, ms, hdecrypts, hlengths, hplain.eq_of_length ?_⟩
    rw [List.length_flatten, hlengths]
    rfl

end Context

end SymmetricCipher
