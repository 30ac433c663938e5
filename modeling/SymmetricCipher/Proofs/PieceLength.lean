import SymmetricCipher.Proofs.OutputFile

/-!
# Lengths that the machine can count

In ECB and CBC the length of the pieces is rounded up to whole blocks. Every number that a machine
word holds can be asked for, but the size of a word is a number of whole blocks itself: what lies
less than a block below it is rounded up to it, and then does not fit (`roundUp_le_max64_iff`). A run
with such a length ends before anything is processed. All other lengths are counted, and are the
least numbers of whole blocks that are large enough.
-/

namespace SymmetricCipher

/-! ## Rounding up -/

namespace Context

variable {c : Context} {blockSize n : Nat}

/-- Below a number of whole blocks stays what leaves a block free. -/
lemma roundUp_lt_iff {limit : Nat} (hpos : 0 < blockSize) (hwhole : blockSize ∣ limit) :
    roundUp blockSize n < limit ↔ n + blockSize ≤ limit := by
  obtain ⟨count, rfl⟩ := hwhole
  rw [roundUp, Nat.mul_comm blockSize count, Nat.mul_lt_mul_right hpos,
    Nat.div_lt_iff_lt_mul hpos]
  omega

/-- Blocks are short, and fill the range of a word. -/
lemma blockSize_spec (algorithm : Algorithm) :
    algorithm.blockSize ≤ 16 ∧ algorithm.blockSize ∣ UInt64.size := by
  cases algorithm <;> decide

/-- Rounding up stays within 64 bits if there is room for one more block. -/
lemma roundUp_le_max64_iff (algorithm : Algorithm) (n : Nat) :
    roundUp algorithm.blockSize (max n 1) ≤ Word.max64 ↔
      n + algorithm.blockSize ≤ UInt64.size := by
  obtain ⟨hshort, hwhole⟩ := blockSize_spec algorithm
  have hsize : UInt64.size = Word.max64 + 1 := rfl
  have hlarge : 17 ≤ UInt64.size := by decide
  have hround := roundUp_lt_iff (n := max n 1) algorithm.blockSize_pos hwhole
  omega

/-- Lengths are counted as long as they leave a block free below the size of a word. -/
lemma pieceLength?_of_le (hm : c.mode.isBlockMode = true) (h : n + c.blockSize ≤ UInt64.size)
    (inputLength : Nat) :
    ∃ length, c.pieceLength? (some n) inputLength = some length ∧ 0 < length ∧
      RoundsUp c.blockSize (max n 1) length ∧ length ≤ Word.max64 := by
  have hcount := (roundUp_le_max64_iff c.algorithm n).2 h
  have hround := roundsUp_roundUp c.algorithm.blockSize_pos (max n 1)
  have hle := hround.le
  refine ⟨_, ?_, ?_, hround, hcount⟩
  · rw [pieceLength?, if_pos hm]
    exact if_pos hcount
  · omega

/-- A size of pieces is out of range in block modes only, near the end of the 64 bits. -/
lemma pieceLength?_eq_none_iff (c : Context) (n inputLength : Nat) :
    c.pieceLength? (some n) inputLength = none ↔
      c.mode.isBlockMode = true ∧ UInt64.size < n + c.blockSize := by
  by_cases hm : c.mode.isBlockMode = true
  · rw [and_iff_right hm, ← Nat.not_le]
    constructor
    · intro h hle
      obtain ⟨length, hlength, -⟩ := pieceLength?_of_le hm hle inputLength
      cases h.symm.trans hlength
    · intro h
      rw [pieceLength?, if_pos hm]
      exact if_neg fun hcount => h ((roundUp_le_max64_iff c.algorithm n).1 hcount)
  · rw [pieceLength?, if_neg hm]
    exact ⟨fun h => absurd h (Option.some_ne_none _), fun h => absurd h.1 hm⟩

end Context

/-! ## Runs that cannot count -/

namespace Options

variable {o : Options} {files : Files} {suite : Provider.Suite}

/-- The computation overflows once there are an input and a context, for which the size of pieces is
out of range. -/
lemma result_eq_overflowed_iff :
    o.result files suite = .error .overflowed ↔
      ∃ input c, readBytes files o.file = .ok input ∧ o.context files suite = .ok c ∧
        c.pieceLength? o.chunkSize input.length = none := by
  constructor
  · intro h
    rcases result_eq_error h with ⟨e, hfailed⟩ | ⟨-, hcount⟩
    · cases hfailed
    · exact hcount
  · rintro ⟨input, c, hin, hc, hlength⟩
    simp only [result, hin, hc, ok_mapError, ok_bind, hlength]

/-- The directory does not matter to this beyond what is read from it. -/
lemma runIn_eq_overflowed_iff {d : Directory} :
    (o.runIn d suite).1 = .overflowed ↔ o.result d.read suite = .error .overflowed := by
  rw [runIn]
  split
  · rename_i outcome h
    rw [h, Except.error.injEq]
  · rename_i out h
    rw [h]
    -- the output is written, or it is not
    split
    all_goals
      constructor
      · intro houtcome
        cases houtcome
      · intro hresult
        cases hresult

end Options

/-- Every length of pieces that can be asked for fits into a machine word. In ECB and CBC it is
rounded up to the next number of whole blocks, which is positive and fits too, as long as it leaves
a block free below the size of a word. The few greatest lengths do not: they are not counted, and a
run that asks for one of them in these modes, and has all that it reads, ends there. No other run
does. What a run reads, it reads from a flat `Directory` of text files. -/
theorem pieceLength?_of_arguments {arguments : List String} {o : Options} {n : Nat}
    (ho : Options.ofArguments arguments = .ok o) (hn : o.chunkSize = some n) :
    n ≤ Word.max64 ∧
    (∀ c : Context, c.mode.isBlockMode = true → ∀ inputLength,
      (n + c.blockSize ≤ UInt64.size → ∃ length,
        c.pieceLength? (some n) inputLength = some length ∧ 0 < length ∧
          Context.RoundsUp c.blockSize (max n 1) length ∧ length ≤ Word.max64) ∧
      (UInt64.size < n + c.blockSize → c.pieceLength? (some n) inputLength = none)) ∧
    ∀ d suite, (runArguments arguments d suite).1 = .overflowed ↔
      ∃ input c, Options.readBytes d.read o.file = .ok input ∧ o.context d.read suite = .ok c ∧
        c.mode.isBlockMode = true ∧ UInt64.size < n + c.blockSize := by
  refine ⟨Options.chunkSize_le ho hn, fun c hm inputLength => ⟨?_, ?_⟩, fun d suite => ?_⟩
  · exact fun h => Context.pieceLength?_of_le hm h inputLength
  · exact fun h => (Context.pieceLength?_eq_none_iff c n inputLength).2 ⟨hm, h⟩
  · have hrun : runArguments arguments d suite = o.runIn d suite := by rw [runArguments, ho]
    rw [hrun, Options.runIn_eq_overflowed_iff, Options.result_eq_overflowed_iff, hn]
    simp only [Context.pieceLength?_eq_none_iff]

/-- The greatest length that AES in CBC counts is asked for, and does not end the run. -/
theorem pieceLength?_of_arguments_greatest :
    Options.ofArguments ["-f", "in", "-o", "out", "-k", "key", "-x", "encrypt",
        "--chunk-size=18446744073709551600"] =
      .ok ⟨"in", "out", some "key", none, none, .aes, .cbc, .encrypt, true,
        some 18446744073709551600, none⟩ ∧
    (∃ c length, Context.create .aes .cbc [] = .ok c ∧
      c.pieceLength? (some 18446744073709551600) 1 = some length ∧ 16 ∣ length ∧
      18446744073709551600 ≤ length ∧ length ≤ Word.max64) ∧
    (runArguments ["-f", "in", "-o", "out", "-k", "key", "-x", "encrypt",
        "--chunk-size=18446744073709551600"]
      (.ofFiles [("in", "00"), ("key", "2b7e151628aed2a6abf7158809cf4f3c")])).1 ≠ .overflowed := by
  have ho : Options.ofArguments ["-f", "in", "-o", "out", "-k", "key", "-x", "encrypt",
        "--chunk-size=18446744073709551600"] =
      .ok ⟨"in", "out", some "key", none, none, .aes, .cbc, .encrypt, true,
        some 18446744073709551600, none⟩ := toOption_eq_some_iff.1 (by decide +kernel)
  obtain ⟨-, hcount, hrun⟩ := pieceLength?_of_arguments ho rfl
  refine ⟨ho, ?_, fun h => ?_⟩
  · obtain ⟨length, hlength, -, hround, hle⟩ :=
      (hcount ((Context.create .aes .cbc []).toOption.get rfl) rfl 1).1 (by decide)
    refine ⟨_, length, rfl, hlength, hround.whole, ?_, hle⟩
    exact Nat.le_trans (by decide) hround.le
  · obtain ⟨_, c, -, hc, -, hlt⟩ := (hrun _ _).1 h
    have hblock : (Options.context
        ⟨"in", "out", some "key", none, none, .aes, .cbc, .encrypt, true,
          some 18446744073709551600, none⟩
        (Directory.ofFiles [("in", "00"),
          ("key", "2b7e151628aed2a6abf7158809cf4f3c")]).read).toOption.map Context.blockSize =
        some 16 := by decide +kernel
    rw [hc] at hblock
    rw [Option.some.inj hblock] at hlt
    exact absurd hlt (by decide)

/-- The greatest number of a machine word is rounded up in AES to a number that is none, and the
run ends. -/
theorem runArguments_overflowed_aes :
    Word.max64 < Context.roundUp Algorithm.aes.blockSize (max 18446744073709551615 1) ∧
    Options.ofArguments ["-f", "in", "-o", "out", "-k", "key", "-x", "encrypt", "-a", "aes",
        "-m", "cbc", "--chunk-size=18446744073709551615"] =
      .ok ⟨"in", "out", some "key", none, none, .aes, .cbc, .encrypt, true,
        some 18446744073709551615, none⟩ ∧
    (runArguments ["-f", "in", "-o", "out", "-k", "key", "-x", "encrypt", "-a", "aes",
        "-m", "cbc", "--chunk-size=18446744073709551615"]
      (.ofFiles [("in", "00"), ("key", "2b7e151628aed2a6abf7158809cf4f3c")])).1 = .overflowed :=
  ⟨by decide, toOption_eq_some_iff.1 (by decide +kernel), by decide +kernel⟩

end SymmetricCipher
