import SymmetricCipher.Proofs.Inversion
import SymmetricCipher.Proofs.Refinement
import SymmetricCipher.Proofs.Separation

/-!
# Triple DES under a single key

Under one key of eight bytes, what encrypts and decrypts inside of Triple DES cancels out, block by
block in the one form and layer by layer in the other, and what is left is DES. So a single pass of
Triple DES is a single pass of DES, and references that differ in nothing else, `Reference.Twins`,
answer alike through any run of calls that sets no other key.
-/

namespace SymmetricCipher

/-! ## Single passes -/

namespace TripleDes

/-- An expanded key of eight bytes holds that key three times. -/
lemma schedules_expanded {key : Bytes} (h : key.length = 8) :
    schedules (key ++ key ++ key) =
      ⟨Des.roundKeys key, Des.roundKeys key, Des.roundKeys key⟩ := by
  have hfirst : (key ++ key ++ key).take 8 = key := by
    rw [List.append_assoc, ← h, List.take_left]
  have hsecond : ((key ++ key ++ key).drop 8).take 8 = key := by
    rw [List.append_assoc, ← h, List.drop_left, List.take_left]
  have hthird : (key ++ key ++ key).drop 16 = key := by
    rw [show 16 = (key ++ key).length by rw [List.length_append, h], List.drop_left]
  rw [schedules, hfirst, hsecond, hthird]

/-- Under one key the first decryption undoes the first encryption, or the other way round. -/
lemma agrees_des (keys : List UInt64) :
    (cipherOf ⟨keys, keys, keys⟩).Agrees (Des.cipherOf keys) where
  blockSize := rfl
  onBlock direction block h := by
    cases direction with
    | encrypt =>
      show Des.encryptBlock keys (Des.decryptBlock keys (Des.encryptBlock keys block)) = _
      rw [Des.decryptBlock_encryptBlock h]
      rfl
    | decrypt =>
      show Des.decryptBlock keys (Des.encryptBlock keys (Des.decryptBlock keys block)) = _
      rw [Des.encryptBlock_decryptBlock h]
      rfl

/-- Under one cipher the middle layer undoes the layer before it. -/
lemma Layers.oneShot_single {cipher : BlockCipher} (hi : cipher.Invertible) {iv : Bytes}
    (hiv : iv.length = cipher.blockSize) (direction : Direction) (data : Bytes) :
    oneShot ⟨cipher, cipher, cipher⟩ iv direction data =
      (cbc cipher direction (.start iv) data).1 := by
  have hback := congrArg Prod.fst (cbc_opposite hi direction (s := .start iv) hiv data)
  cases direction with
  | encrypt => exact congrArg (fun x => (cbc cipher .encrypt (.start iv) x).1) hback
  | decrypt => exact congrArg (fun x => (cbc cipher .decrypt (.start iv) x).1) hback

end TripleDes

namespace Algorithm

variable {key iv : Bytes}

/-- The key three times over is as long as the three keys. -/
lemma length_expanded (h : key.length = 8) : (key ++ key ++ key).length = 24 := by
  rw [List.length_append, List.length_append, h]

/-- The cipher of DES under a key of eight bytes. -/
lemma blockCipher_des (h : key.length = 8) :
    des.blockCipher key = .ok (Des.cipherOf (Des.roundKeys key)) :=
  if_pos h

/-- In one pass Triple DES under one key is DES. -/
lemma oneShot_tripleDes (h : key.length = 8) {mode : Mode} (hm : mode ≠ .stream)
    (hiv : iv.length = 8) (direction : Direction) (data : Bytes) :
    tripleDes.oneShot mode (key ++ key ++ key) iv direction data =
      des.oneShot mode key iv direction data := by
  have htriple : tripleDes.blockCipher (key ++ key ++ key) =
      .ok (TripleDes.cipherOf (TripleDes.schedules (key ++ key ++ key))) := by
    rw [blockCipher, TripleDes.cipher, expandKey_of_length (length_expanded h)]
  rw [TripleDes.schedules_expanded h] at htriple
  rw [oneShot_of_blockCipher htriple hm, oneShot_of_blockCipher (blockCipher_des h) hm]
  obtain ⟨out, s, hrun, hrun', -⟩ :=
    runMode_spec hm (TripleDes.agrees_des (Des.roundKeys key)) direction
      (s := .start iv) hiv data
  rw [hrun, hrun']

/-- In one pass the three layers under one key are DES in CBC. -/
lemma oneShot_tripleDesInnerCbc (h : key.length = 8) (hiv : iv.length = 8) (direction : Direction)
    (data : Bytes) :
    tripleDesInnerCbc.oneShot .cbc (key ++ key ++ key) iv direction data =
      des.oneShot .cbc key iv direction data := by
  have hlayers : tripleDesInnerCbc.innerLayers (key ++ key ++ key) =
      .ok ⟨Des.cipherOf (Des.roundKeys key), Des.cipherOf (Des.roundKeys key),
        Des.cipherOf (Des.roundKeys key)⟩ := by
    rw [innerLayers, TripleDes.layers, expandKey_of_length (length_expanded h)]
    dsimp only
    rw [TripleDes.schedules_expanded h]
  rw [oneShot_of_blockCipher (blockCipher_des h) (by decide), oneShot, hlayers]
  exact congrArg Except.ok
    (TripleDes.Layers.oneShot_single (Des.invertible _) hiv direction data)

/-- Two algorithms make the same of all data, under their forms of one key and in some modes. -/
structure Mimics (a b : Algorithm) (raw key key' : Bytes) (modes : Mode → Prop) : Prop where
  blockSize : a.blockSize = b.blockSize
  first : a.normalizeKey raw = .ok key
  second : b.normalizeKey raw = .ok key'
  oneShot : ∀ {mode : Mode} {iv : Bytes}, modes mode → iv.length = a.blockSize →
    ∀ direction data, a.oneShot mode key iv direction data = b.oneShot mode key' iv direction data

/-- Triple DES under one key does as DES in all modes that they share. -/
lemma mimics_tripleDes (h : key.length = 8) :
    tripleDes.Mimics des key (key ++ key ++ key) key (· ≠ .stream) where
  blockSize := rfl
  first := if_pos h
  second := if_pos (decide_eq_true h)
  oneShot hm hiv := oneShot_tripleDes h hm hiv

/-- Inner CBC under one key does as DES in CBC. -/
lemma mimics_tripleDesInnerCbc (h : key.length = 8) :
    tripleDesInnerCbc.Mimics des key (key ++ key ++ key) key (· = .cbc) where
  blockSize := rfl
  first := if_pos h
  second := if_pos (decide_eq_true h)
  oneShot := by
    rintro _ iv rfl hiv direction data
    exact oneShot_tripleDesInnerCbc h hiv direction data

end Algorithm

/-! ## References side by side -/

namespace Call

/-- Whether a call has data to be encrypted or decrypted. -/
def hasData : Call → Bool
  | process _ _ => true
  | _ => false

/-- No key but the given one comes of the call. -/
def KeyedBy (key : Bytes) : Call → Prop
  | setKey other => other = key
  | setKeyLength _ | setPassword _ _ => False
  | _ => True

/-- If the call sets a mode, both algorithms support it or none does, and it is one of the given. -/
def StaysIn (a b : Algorithm) (modes : Mode → Prop) : Call → Prop
  | setMode mode => a.supports mode = b.supports mode ∧ (a.supports mode = true → modes mode)
  | _ => True

end Call

section twins

variable {a b : Algorithm} {raw key key' : Bytes} {modes : Mode → Prop}

/-- Settings that differ in the algorithm, and in the form of the key that comes of it. -/
inductive Settings.Twins (a b : Algorithm) (key key' : Bytes) (modes : Mode → Prop) :
    Settings → Settings → Prop where
  | mk {mode : Mode} {set set' : Option Bytes} {n n' : Nat} {iv : Bytes} {continuous padding : Bool}
      {preferred : Option Engine}
      (keys : (set = none ∧ set' = none) ∨ (set = some key ∧ set' = some key')) (runs : modes mode)
      (block : iv.length = a.blockSize) :
      Twins a b key key' modes ⟨a, mode, set, n, iv, continuous, padding, preferred⟩
        ⟨b, mode, set', n', iv, continuous, padding, preferred⟩

namespace Settings.Twins

variable {s t : Settings}

/-- Twins open their streams alike. -/
lemma opening_eq (h : Twins a b key key' modes s t) (logs : Logs) :
    s.opening logs = t.opening logs := by
  cases h
  rfl

/-- Twins pad in the same modes. -/
lemma pads_eq (h : Twins a b key key' modes s t) : s.pads = t.pads := by
  cases h
  rfl

/-- Twins have blocks of one size. -/
lemma blockSize_eq (h : Twins a b key key' modes s t) (hm : a.Mimics b raw key key' modes) :
    s.algorithm.blockSize = t.algorithm.blockSize := by
  cases h
  exact hm.blockSize

/-- Twins prepare data alike. -/
lemma prepare_eq (h : Twins a b key key' modes s t) (hm : a.Mimics b raw key key' modes)
    (direction : Direction) (data : Bytes) :
    s.prepare direction data = t.prepare direction data := by
  cases direction with
  | encrypt => rw [prepare, prepare, h.pads_eq, h.blockSize_eq hm]
  | decrypt => rfl

/-- Twins finish data alike. -/
lemma finish_eq (h : Twins a b key key' modes s t) (hm : a.Mimics b raw key key' modes)
    (direction : Direction) (data : Bytes) : s.finish direction data = t.finish direction data := by
  cases direction with
  | encrypt => rfl
  | decrypt => rw [finish, finish, h.pads_eq, h.blockSize_eq hm]

/-- Either both settings refuse the data, or both accept it in the same form. -/
lemma accept_cases (h : Twins a b key key' modes s t) (hm : a.Mimics b raw key key' modes)
    (direction : Direction) (data : Bytes) :
    (∃ e, s.accept direction data = .error e ∧ t.accept direction data = .error e) ∨
      ∃ x, s.accept direction data = .ok (key, x) ∧ t.accept direction data = .ok (key', x) ∧
        ∀ log, s.algorithm.oneShot s.mode key s.iv direction (log ++ x) =
          t.algorithm.oneShot t.mode key' t.iv direction (log ++ x) := by
  have hprepare := h.prepare_eq hm direction data
  obtain ⟨⟨rfl, rfl⟩ | ⟨rfl, rfl⟩, runs, block⟩ := h
  · exact .inl ⟨_, rfl, rfl⟩
  · simp only [accept, hprepare, hm.blockSize]
    split
    · exact .inl ⟨_, rfl, rfl⟩
    · exact .inr ⟨_, rfl, rfl, fun log => hm.oneShot runs block direction _⟩

/-- Twins answer data alike and log the same. -/
lemma respond_eq (h : Twins a b key key' modes s t) (hm : a.Mimics b raw key key' modes)
    (logs : Logs) (direction : Direction) (data : Bytes) :
    s.respond (logs direction) direction data = t.respond (logs direction) direction data ∧
      s.record logs direction data = t.record logs direction data := by
  rcases h.accept_cases hm direction data with ⟨e, hs, ht⟩ | ⟨x, hs, ht, hpass⟩
  · simp only [respond, record, hs, ht, and_self]
  · simp only [respond, record, hs, ht, hpass, h.finish_eq hm, and_self]

/-- A setting is refused by both, or keeps them what they are to each other. -/
lemma update (h : Twins a b key key' modes s t) (hm : a.Mimics b raw key key' modes) {call : Call}
    (hkey : call.KeyedBy raw) (hmode : call.StaysIn a b modes) :
    (∃ e e', s.update call = .error e ∧ t.update call = .error e') ∨
      ∃ s' t', s.update call = .ok s' ∧ t.update call = .ok t' ∧
        Twins a b key key' modes s' t' := by
  obtain ⟨keys, runs, block⟩ := h
  -- keys and modes are the calls where the algorithm matters
  cases call with
  | setKey other =>
    obtain rfl : other = raw := hkey
    simp only [Settings.update, setKey, hm.first, hm.second]
    exact .inr ⟨_, _, rfl, rfl, .mk (.inr ⟨rfl, rfl⟩) runs block⟩
  | setKeyLength bits => exact hkey.elim
  | setPassword password options => exact hkey.elim
  | setIv iv =>
    simp only [Settings.update, hm.blockSize]
    exact .inr ⟨_, _, rfl, rfl, .mk keys runs (by rw [Bytes.length_fit, hm.blockSize])⟩
  | setMode mode =>
    obtain ⟨hsupports, hruns⟩ := hmode
    simp only [Settings.update, Algorithm.checkMode, ← hsupports]
    split
    · rename_i hs
      exact .inr ⟨_, _, rfl, rfl, .mk keys (hruns hs) block⟩
    · exact .inl ⟨_, _, rfl, rfl⟩
  | setContinuous on => exact .inr ⟨_, _, rfl, rfl, .mk keys runs block⟩
  | setPadding on => exact .inr ⟨_, _, rfl, rfl, .mk keys runs block⟩
  | prefer engine => exact .inr ⟨_, _, rfl, rfl, .mk keys runs block⟩
  | reset => exact .inr ⟨_, _, rfl, rfl, .mk keys runs block⟩
  | process direction data => exact .inr ⟨_, _, rfl, rfl, .mk keys runs block⟩

end Settings.Twins

/-- References with such settings, behind the same data. -/
structure Reference.Twins (a b : Algorithm) (key key' : Bytes) (modes : Mode → Prop)
    (r r' : Reference) : Prop where
  settings : r.settings.Twins a b key key' modes r'.settings
  logs : r.logs = r'.logs

namespace Reference.Twins

variable {r r' : Reference}

/-- A call keeps the references what they are to each other, and they answer alike if it has
data. -/
lemma perform (h : Twins a b key key' modes r r') (hm : a.Mimics b raw key key' modes) {call : Call}
    (hkey : call.KeyedBy raw) (hmode : call.StaysIn a b modes) :
    (call.hasData = true → (r.perform call).1 = (r'.perform call).1) ∧
      Twins a b key key' modes (r.perform call).2 (r'.perform call).2 := by
  obtain ⟨s, logs⟩ := r
  obtain ⟨t, logs'⟩ := r'
  obtain ⟨hst, rfl⟩ := h
  have setting (hc : call.IsSetting) (hd : call.hasData = false) :
      (call.hasData = true →
          (Reference.perform ⟨s, logs⟩ call).1 = (Reference.perform ⟨t, logs⟩ call).1) ∧
        Twins a b key key' modes (Reference.perform ⟨s, logs⟩ call).2
          (Reference.perform ⟨t, logs⟩ call).2 := by
    refine ⟨fun hdata => absurd (hd.symm.trans hdata) nofun, ?_⟩
    rw [perform_setting _ hc, perform_setting _ hc]
    rcases hst.update hm hkey hmode with ⟨e, e', hs, ht⟩ | ⟨s', t', hs, ht, hst'⟩
    · rw [hs, ht]
      exact ⟨hst, rfl⟩
    · rw [hs, ht]
      exact ⟨hst', rfl⟩
  cases call with
  | process direction data =>
    obtain ⟨hanswer, hlogs⟩ := hst.respond_eq hm (s.opening logs) direction data
    simp only [Reference.perform, ← hst.opening_eq, hanswer, hlogs]
    exact ⟨fun _ => trivial, hst, rfl⟩
  | _ => exact setting trivial rfl

/-- Through a run of such calls the references of twins answer data alike. -/
theorem run (hm : a.Mimics b raw key key' modes) {calls : List Call}
    (h : Twins a b key key' modes r r')
    (hcalls : ∀ call ∈ calls, call.KeyedBy raw ∧ call.StaysIn a b modes) :
    picked Call.hasData calls (r.run calls).1 = picked Call.hasData calls (r'.run calls).1 := by
  induction calls generalizing r r' with
  | nil => rfl
  | cons call calls ih =>
    obtain ⟨hkey, hmode⟩ := hcalls call List.mem_cons_self
    obtain ⟨hanswer, hnext⟩ := h.perform hm hkey hmode
    have htail := ih hnext fun other hmem => hcalls other (List.mem_cons_of_mem call hmem)
    rw [Reference.run, Reference.run, mapState_cons, mapState_cons]
    cases hd : call.hasData with
    | false =>
      rw [picked_cons_of_neg hd, picked_cons_of_neg hd]
      exact htail
    | true =>
      rw [picked_cons_of_pos hd, picked_cons_of_pos hd, hanswer hd]
      exact congrArg _ htail

end Reference.Twins

end twins

/-! ## Main result -/

namespace Context

/-- Contexts over software answer data alike, through any run of calls of some kind. -/
def AnswerAlike (a b : Algorithm) (mode : Mode) (allowed : Call → Prop) : Prop :=
  ∃ c d, create a mode [] = .ok c ∧ create b mode [] = .ok d ∧
    ∀ calls : List Call, (∀ call ∈ calls, allowed call) →
      picked Call.hasData calls (c.run calls).1 = picked Call.hasData calls (d.run calls).1

/-- Contexts of two algorithms answer alike under a key for which one mimics the other. -/
lemma answerAlike_of_mimics {a b : Algorithm} {raw key key' : Bytes} {modes : Mode → Prop}
    (hm : a.Mimics b raw key key' modes) {mode : Mode} (ha : a.supports mode = true)
    (hb : b.supports mode = true) (hmode : modes mode) {allowed : Call → Prop}
    (hallowed : ∀ call, allowed call → call.KeyedBy raw ∧ call.StaysIn a b modes) :
    AnswerAlike a b mode allowed := by
  obtain ⟨c, hc, hcc⟩ := create_ok ha []
  obtain ⟨d, hd, hcd⟩ := create_ok hb []
  refine ⟨c, d, hc, hd, fun calls hcalls => ?_⟩
  have htwins : (Reference.create a mode).Twins a b key key' modes (.create b mode) := by
    refine ⟨?_, rfl⟩
    simp only [Reference.create, Settings.initial, hm.blockSize]
    exact .mk (.inl ⟨rfl, rfl⟩) hmode (by rw [List.length_replicate, hm.blockSize])
  rw [((Follows.of_created hcc nofun nofun).run calls).1,
    ((Follows.of_created hcd nofun nofun).run calls).1]
  exact htwins.run hm fun call hmem => hallowed call (hcalls call hmem)

/-- Under a single key of eight bytes, Triple DES answers data as DES does, in every mode that both
support and through any run of calls that sets no other key. So does the layered Triple DES in CBC,
as long as the mode is not set. -/
theorem tripleDes_single_key {key : Bytes} (hk : key.length = 8) :
    (∀ mode, Algorithm.tripleDes.supports mode = true → Algorithm.des.supports mode = true →
      AnswerAlike .tripleDes .des mode (Call.KeyedBy key)) ∧
    AnswerAlike .tripleDesInnerCbc .des .cbc fun call =>
      call.KeyedBy key ∧ ∀ mode, call ≠ .setMode mode := by
  have runs {mode : Mode} (h : Algorithm.tripleDes.supports mode = true) : mode ≠ .stream := by
    rintro rfl
    cases h
  constructor
  · intro mode ht hd
    refine answerAlike_of_mimics (Algorithm.mimics_tripleDes hk) ht hd (runs ht)
      fun call hkey => ⟨hkey, ?_⟩
    cases call with
    | setMode other => exact ⟨rfl, runs⟩
    | _ => trivial
  · refine answerAlike_of_mimics (Algorithm.mimics_tripleDesInnerCbc hk) rfl rfl rfl
      fun call hcall => ⟨hcall.1, ?_⟩
    cases call with
    | setMode other => exact absurd rfl (hcall.2 other)
    | _ => trivial

/-- A key under which encryption is not decryption, so that three encryptions would not do. -/
def textbookKey : Bytes := [0x13, 0x34, 0x57, 0x79, 0x9b, 0xbc, 0xdf, 0xf1]

/-- Under an ordinary key, Triple DES answers as DES does. -/
theorem tripleDes_single_key_textbook :
    textbookKey.length = 8 ∧
    (∀ mode, Algorithm.tripleDes.supports mode = true → Algorithm.des.supports mode = true →
      AnswerAlike .tripleDes .des mode (Call.KeyedBy textbookKey)) ∧
    AnswerAlike .tripleDesInnerCbc .des .cbc fun call =>
      call.KeyedBy textbookKey ∧ ∀ mode, call ≠ .setMode mode :=
  ⟨rfl, tripleDes_single_key rfl⟩

/-- Triple DES gives the known answer of DES under that key. -/
example :
    ((create .tripleDes .ecb []).toOption.map fun c =>
      (c.run [.setKey textbookKey, .setPadding false,
        .process .encrypt [0x01, 0x23, 0x45, 0x67, 0x89, 0xab, 0xcd, 0xef]]).1) =
      some [.ok none, .ok none, .ok (some [0x85, 0xe8, 0x13, 0x54, 0x0f, 0x0a, 0xb4, 0x05])] := by
  decide +kernel

end Context

end SymmetricCipher
