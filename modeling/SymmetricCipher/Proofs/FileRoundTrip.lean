import SymmetricCipher.Proofs.OutputFile
import SymmetricCipher.Proofs.RoundTrip

/-!
# Files that come back

A run of the command line that decrypts undoes a run that encrypted, through the file between them.
Both runs configure the same context, as long as the first one does not write over the key or the
initialization vector of the second. So both are calls of one reference at the start of its stream,
and what stands between them is text that is read as the bytes it was written for.
-/

namespace SymmetricCipher

namespace Options

variable {o o' : Options} {files files' : Files} {suite : Provider.Suite} {c : Context}

/-- Options for the way back: they decrypt the output of others, and differ from them in the files,
the pieces and the engine only. -/
structure Undoes (o' o : Options) : Prop where
  encrypts : o.direction = .encrypt
  decrypts : o'.direction = .decrypt
  /-- The paths may be spelled in different ways. -/
  file : Directory.name? o'.file = Directory.name? o.output
  key : o'.key = o.key
  password : o'.password = o.password
  iv : o'.iv = o.iv
  algorithm : o'.algorithm = o.algorithm
  mode : o'.mode = o.mode
  padding : o'.padding = o.padding

/-- Files that are read to set the key and the initialization vector. -/
def keyFiles (o : Options) : List String := o.key.toList ++ o.iv.toList

/-- What is configured depends on the files of the key and of the initialization vector only. -/
lemma configured_of_reads (h : o.configured files suite = .ok c)
    (hreads : ∀ path ∈ o.keyFiles, ∀ bytes, readBytes files path = .ok bytes →
      readBytes files' path = .ok bytes) : o.configured files' suite = .ok c := by
  obtain ⟨keyed, hkeyed, h⟩ := bind_eq_ok_iff.1 h
  obtain ⟨started, hstarted, h⟩ := bind_eq_ok_iff.1 h
  obtain ⟨created, hcreate, hkeyed⟩ := bind_eq_ok_iff.1 hkeyed
  have hkeyed' : o.keyed files' created = .ok keyed := by
    rw [Options.keyed] at hkeyed ⊢
    cases hk : o.key with
    | none =>
      rw [hk] at hkeyed
      cases hp : o.password with
      | _ => rw [hp] at hkeyed; exact hkeyed
    | some path =>
      have hmem : path ∈ o.keyFiles := by
        rw [keyFiles, hk]
        exact List.mem_cons_self
      rw [hk] at hkeyed
      obtain ⟨key, hread, hset⟩ := bind_eq_ok_iff.1 hkeyed
      exact bind_eq_ok_iff.2 ⟨key, hreads path hmem key hread, hset⟩
  have hstarted' : o.withIv files' keyed = .ok started := by
    rw [withIv] at hstarted ⊢
    cases hi : o.iv with
    | none =>
      rw [hi] at hstarted
      exact hstarted
    | some path =>
      have hmem : path ∈ o.keyFiles := by
        rw [keyFiles, hi]
        exact List.mem_append_right _ List.mem_cons_self
      rw [hi] at hstarted
      obtain ⟨iv, hread, hset⟩ := bind_eq_ok_iff.1 hstarted
      exact bind_eq_ok_iff.2 ⟨iv, hreads path hmem iv hread, hset⟩
  exact bind_eq_ok_iff.2 ⟨keyed, bind_eq_ok_iff.2 ⟨created, hcreate, hkeyed'⟩,
    bind_eq_ok_iff.2 ⟨started, hstarted', h⟩⟩

/-- Options for the way back configure the same context. -/
lemma Undoes.configured_eq (h : o'.Undoes o) (files : Files) (suite : Provider.Suite) :
    o'.configured files suite = o.configured files suite := by
  simp only [configured, keyedContext, keyed, withIv, h.key, h.password, h.iv, h.algorithm, h.mode,
    h.padding]

/-- A run that gives something has read its input, configured its context and counted its pieces. -/
lemma of_result (hf : suite.Faithful) {out : Bytes} (h : o.result files suite = .ok out) :
    ∃ input c, readBytes files o.file = .ok input ∧ o.configured files suite = .ok c ∧
      o.Countable := by
  obtain ⟨input, hin, h⟩ := bind_eq_ok_iff.1 h
  obtain ⟨c', hcontext, h⟩ := bind_eq_ok_iff.1 h
  rw [mapError_eq_ok_iff] at hin hcontext
  have hboth := hcontext
  rw [context_eq] at hboth
  obtain ⟨c, hc, -⟩ := bind_eq_ok_iff.1 hboth
  refine ⟨input, c, hin, hc, fun n hn hblock => ?_⟩
  obtain ⟨s, hs, ha, hm⟩ := configured_spec hf hc
  rcases context_cases hs hc with
    ⟨engine, hrefused⟩ | ⟨c'', continuous, preferred, hok, -, hfollows⟩
  · cases hrefused.symm.trans hcontext
  · cases hok.symm.trans hcontext
    have hmode : c'.mode = o.mode := (congrArg Settings.mode hfollows.settings).trans hm
    have halgorithm : c'.algorithm = o.algorithm :=
      (congrArg Settings.algorithm hfollows.settings).trans ha
    rw [hn, Context.pieceLength?, hmode, if_pos hblock, Context.blockSize, halgorithm] at h
    dsimp only at h
    split at h
    · cases h
    · rename_i hlength
      split at hlength
      · assumption
      · cases hlength

/-- What one run gives, a run on the way back takes back to the input, unless its engine is
refused. -/
lemma Undoes.result (hf : suite.Faithful) (h : o'.Undoes o) {data out : Bytes}
    (hdata : readBytes files o.file = .ok data) (hout : o.result files suite = .ok out)
    (hreads : ∀ path ∈ o.keyFiles, ∀ bytes, readBytes files path = .ok bytes →
      readBytes files' path = .ok bytes)
    (hback : readBytes files' o'.file = .ok out) (hcount : o'.Countable) :
    (∃ engine, o'.result files' suite =
        .error (.failed (.engineUnavailable engine o'.algorithm o'.mode))) ∨
      o'.result files' suite = .ok data := by
  obtain ⟨input, c, hin, hc, hcount'⟩ := of_result hf hout
  cases hdata.symm.trans hin
  have hc' : o'.configured files' suite = .ok c := by
    rw [h.configured_eq]
    exact configured_of_reads hc hreads
  obtain ⟨s, hs, ha, hm⟩ := configured_spec hf hc
  -- both runs are calls of one reference, each at the start of a stream
  have hthere : s.respond [] .encrypt data = .ok out := by
    rcases result_cases hcount' hin hc hs ha hm with
      ⟨engine, hrefused⟩ | ⟨e, herror, -⟩ | ⟨out', hok, hsome⟩
    · cases hout.symm.trans hrefused
    · cases hout.symm.trans herror
    · cases hout.symm.trans hok
      rw [h.encrypts] at hsome
      exact toOption_eq_some_iff.1 hsome
  have hthence := Settings.respond_decrypt hs.valid hthere
  rcases result_cases hcount hback hc' hs (ha.trans h.algorithm.symm) (hm.trans h.mode.symm) with
    hrefused | ⟨e, -, hnone⟩ | ⟨data', hok, hsome⟩
  · exact .inl hrefused
  · rw [h.decrypts, hthence] at hnone
    cases hnone
  · rw [h.decrypts, hthence] at hsome
    cases hsome
    exact .inr hok

/-- A run that ends with exit code 0 has a result, and has written it. -/
lemma of_runIn {d : Directory} (h : (o.runIn d suite).1.exitCode = 0) :
    ∃ out d', o.result d.read suite = .ok out ∧ d.write o.output (Hex.encode out) = .ok d' ∧
      o.runIn d suite = (.done, d') :=
  (o.runIn_cases d suite).resolve_left fun hfails => hfails.1 h

end Options

/-- A file that was encrypted is decrypted again. The run that encrypts ends with exit code 0 and
does not write over the key or the initialization vector; the run that decrypts reads its output,
with the same key or password, initialization vector, algorithm, mode and padding. That run then
ends with exit code 0 too, and writes the bytes of the first input, whatever the pieces and the
engines are, as long as its own pieces can be counted and its own engine is not refused. All paths
lead to files of one flat `Directory`, and the outputs are written as a whole. -/
theorem runArguments_round_trip {suite : Provider.Suite} (hf : suite.Faithful)
    {arguments arguments' : List String} {o o' : Options} {d : Directory} {data : Bytes}
    (ho : Options.ofArguments arguments = .ok o) (ho' : Options.ofArguments arguments' = .ok o')
    (hundoes : o'.Undoes o) (hdata : Options.readBytes d.read o.file = .ok data)
    (hdone : (runArguments arguments d suite).1.exitCode = 0)
    (hkept : ∀ path ∈ o.keyFiles, Directory.name? path ≠ Directory.name? o.output)
    (hwritable : (runArguments arguments d suite).2.Writable o'.output) (hcount : o'.Countable)
    (hengine :
      ¬(runArguments arguments' (runArguments arguments d suite).2 suite).1.RefusesEngine) :
    (runArguments arguments' (runArguments arguments d suite).2 suite).1.exitCode = 0 ∧
      (runArguments arguments' (runArguments arguments d suite).2 suite).2.read o'.output =
        .ok (Hex.encode data) := by
  have hthere : runArguments arguments d suite = o.runIn d suite := by rw [runArguments, ho]
  have hthence (d : Directory) : runArguments arguments' d suite = o'.runIn d suite := by
    rw [runArguments, ho']
  rw [hthere] at hdone hwritable hengine ⊢
  rw [hthence] at hengine ⊢
  obtain ⟨out, d', hout, hwrite, hrun⟩ := Options.of_runIn hdone
  rw [hrun] at hwritable hengine ⊢
  -- the second run finds the keys of the first one, and the bytes that it wrote
  have hreads (path : String) (hmem : path ∈ o.keyFiles) (bytes : Bytes)
      (hread : Options.readBytes d.read path = .ok bytes) :
      Options.readBytes d'.read path = .ok bytes := by
    rw [Options.readBytes] at hread ⊢
    cases htext : d.read path with
    | error e => rw [htext] at hread; cases hread
    | ok text =>
      rw [htext] at hread
      rw [Directory.read_of_write_of_ne hwrite (hkept path hmem) htext]
      exact hread
  have hback : Options.readBytes d'.read o'.file = .ok out := by
    rw [Options.readBytes, Directory.read_of_write hwrite hundoes.file]
    exact congrArg (Except.mapError _) (Hex.decode_encode out)
  rcases hundoes.result hf hdata hout hreads hback hcount with ⟨engine, hrefused⟩ | hok
  · rw [Options.runIn_of_error hrefused] at hengine
    exact absurd trivial hengine
  · obtain ⟨d'', hwrite'⟩ := hwritable.write (Hex.encode data)
    simp only [Options.runIn, hok, hwrite']
    exact ⟨rfl, Directory.read_of_write hwrite' rfl⟩

/-- AES in CFB encrypts two bytes in a single call, and decrypts them one by one, on the built-in
backend and along another path to the same file. -/
theorem runArguments_round_trip_aes :
    (runArguments ["-f", "in", "-o", "out", "-k", "key", "-m", "cfb", "-x", "encrypt"]
      (.ofFiles [("in", "2F\nff"),
        ("key", "000102030405060708090a0b0c0d0e0f")])).1.exitCode = 0 ∧
    (runArguments ["-f", "./out", "-o", "back", "-k", "key", "-m", "cfb", "-x", "decrypt",
        "--chunk-size", "1", "--engine", "accelerated"]
      (runArguments ["-f", "in", "-o", "out", "-k", "key", "-m", "cfb", "-x", "encrypt"]
        (.ofFiles [("in", "2F\nff"),
          ("key", "000102030405060708090a0b0c0d0e0f")])).2).1.exitCode = 0 ∧
    (runArguments ["-f", "./out", "-o", "back", "-k", "key", "-m", "cfb", "-x", "decrypt",
        "--chunk-size", "1", "--engine", "accelerated"]
      (runArguments ["-f", "in", "-o", "out", "-k", "key", "-m", "cfb", "-x", "encrypt"]
        (.ofFiles [("in", "2F\nff"),
          ("key", "000102030405060708090a0b0c0d0e0f")])).2).2.read "back" =
      .ok "2f ff" := by
  have ho : Options.ofArguments
        ["-f", "in", "-o", "out", "-k", "key", "-m", "cfb", "-x", "encrypt"] =
      .ok ⟨"in", "out", some "key", none, none, .aes, .cfb, .encrypt, true, none, none⟩ :=
    toOption_eq_some_iff.1 (by decide +kernel)
  have ho' : Options.ofArguments ["-f", "./out", "-o", "back", "-k", "key", "-m", "cfb",
        "-x", "decrypt", "--chunk-size", "1", "--engine", "accelerated"] =
      .ok ⟨"./out", "back", some "key", none, none, .aes, .cfb, .decrypt, true, some 1,
        some .accelerated⟩ := toOption_eq_some_iff.1 (by decide +kernel)
  have hdata : Options.readBytes
      (Directory.ofFiles [("in", "2F\nff"),
        ("key", "000102030405060708090a0b0c0d0e0f")]).read "in" =
      .ok [0x2f, 0xff] :=
    toOption_eq_some_iff.1 (by decide +kernel)
  have hrun : runArguments ["-f", "in", "-o", "out", "-k", "key", "-m", "cfb", "-x", "encrypt"]
      (.ofFiles [("in", "2F\nff"), ("key", "000102030405060708090a0b0c0d0e0f")]) =
      (.done, (Directory.ofFiles [("in", "2F\nff"),
        ("key", "000102030405060708090a0b0c0d0e0f")]).put "out" "e9 5e") := by
    have hout : Options.result
        ⟨"in", "out", some "key", none, none, .aes, .cfb, .encrypt, true, none, none⟩
        (Directory.ofFiles [("in", "2F\nff"),
          ("key", "000102030405060708090a0b0c0d0e0f")]).read = .ok [0xe9, 0x5e] :=
      toOption_eq_some_iff.1 (by decide +kernel)
    have htext : Hex.encode [0xe9, 0x5e] = "e9 5e" := by decide +kernel
    have hname : Directory.name? "out" = some "out" := by decide +kernel
    simp only [runArguments, ho, Options.runIn, hout, htext,
      Directory.write_eq_ok_iff.2 ⟨"out", hname, rfl⟩]
  have hdone' : (runArguments ["-f", "./out", "-o", "back", "-k", "key", "-m", "cfb",
        "-x", "decrypt", "--chunk-size", "1", "--engine", "accelerated"]
      ((Directory.ofFiles [("in", "2F\nff"),
        ("key", "000102030405060708090a0b0c0d0e0f")]).put "out" "e9 5e")).1 = .done := by
    decide +kernel
  have hname : Directory.name? "back" = some "back" := by decide +kernel
  have htext : Hex.encode [0x2f, 0xff] = "2f ff" := by decide +kernel
  refine ⟨by rw [hrun]; rfl, ?_⟩
  rw [← htext]
  exact runArguments_round_trip Provider.Suite.faithful_standard ho ho'
    ⟨rfl, rfl, by decide +kernel, rfl, rfl, rfl, rfl, rfl, rfl⟩ hdata (by rw [hrun]; rfl)
    (List.forall_mem_singleton.2 (by decide +kernel))
    ⟨"", _, Directory.write_eq_ok_iff.2 ⟨"back", hname, rfl⟩⟩
    (by rintro n ⟨⟩ ⟨⟩) (by rw [hrun, hdone']; exact id)

end SymmetricCipher
