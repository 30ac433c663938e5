import SymmetricCipher.Proofs.Arguments
import SymmetricCipher.Proofs.CommandLine
import SymmetricCipher.Proofs.Directory
import SymmetricCipher.Proofs.Hex

/-!
# All or nothing

A run of the command line writes one file, and only when nothing can go wrong any more: the files
are read, the context is set up and every piece is processed, `Options.Produces`. So there are
three ways in which a run ends, `runArguments_cases`: it fails, or it only shows something, and
leaves the directory alone; or it puts what all the pieces gave into the output. It does not matter
which of the files that it reads is the output, because it has read them all by then.
-/

namespace SymmetricCipher

/-! ## Processing as a run of calls -/

namespace Context

variable {c : Context} {direction : Direction} {padded : Bool} {pieces : List Bytes} {out : Bytes}

/-- The calls that process pieces one after the other, with padding behind the last one only. -/
def pieceCalls (direction : Direction) (padded : Bool) : List Bytes → List Call
  | [] => [.setPadding padded, .process direction []]
  | [last] => [.setPadding padded, .process direction last]
  | piece :: rest =>
    .setPadding false :: .process direction piece :: pieceCalls direction padded rest

/-- A piece that is not the last is processed without padding. -/
lemma pieceCalls_cons {rest : List Bytes} (h : rest ≠ []) (direction : Direction) (padded : Bool)
    (piece : Bytes) :
    pieceCalls direction padded (piece :: rest) =
      .setPadding false :: .process direction piece :: pieceCalls direction padded rest :=
  pieceCalls.eq_3 direction padded piece rest h

/-- The answers to these calls if none is refused. -/
def pieceAnswers (outs : List Bytes) : List Answer :=
  outs.flatMap fun out => [.ok none, .ok (some out)]

/-- The two calls on a piece, and what comes after them. -/
lemma run_piece (c : Context) (on : Bool) (direction : Direction) (piece : Bytes)
    (calls : List Call) :
    (c.run (.setPadding on :: .process direction piece :: calls)).1 =
      .ok none :: ((c.setPadding on).process direction piece).1.map some ::
        (((c.setPadding on).process direction piece).2.run calls).1 := rfl

/-- A piece is processed, and then the others. -/
lemma cons_eq_pieceAnswers_iff {result : Except CipherError Bytes} {answers : List Answer}
    {outs : List Bytes} :
    .ok none :: result.map some :: answers = pieceAnswers outs ↔
      ∃ out rest, outs = out :: rest ∧ result = .ok out ∧ answers = pieceAnswers rest := by
  cases outs with
  | nil => exact ⟨nofun, fun ⟨_, _, h, _⟩ => nomatch h⟩
  | cons out rest =>
    have hcons : pieceAnswers (out :: rest) = .ok none :: .ok (some out) :: pieceAnswers rest := rfl
    rw [hcons, List.cons.injEq, List.cons.injEq, eq_self, true_and]
    constructor
    · rintro ⟨hresult, hanswers⟩
      cases result with
      | error e => cases hresult
      | ok out' =>
        cases hresult
        exact ⟨out, rest, rfl, rfl, hanswers⟩
    · rintro ⟨_, _, ⟨⟩, rfl, hanswers⟩
      exact ⟨rfl, hanswers⟩

/-- No answers are the answers to no pieces. -/
lemma nil_eq_pieceAnswers_iff {outs : List Bytes} : [] = pieceAnswers outs ↔ outs = [] := by
  cases outs with
  | nil => exact ⟨fun _ => rfl, fun _ => rfl⟩
  | cons out rest => exact ⟨nofun, nofun⟩

/-- The last piece is processed with the padding that was asked for. -/
lemma process_last_eq_ok_iff (c : Context) (padded : Bool) (direction : Direction) (last : Bytes)
    {out : Bytes} :
    ((c.setPadding padded).process direction last).1 = .ok out ↔
      ∃ outs, (c.run [.setPadding padded, .process direction last]).1 = pieceAnswers outs ∧
        outs.flatten = out := by
  have hnil (c : Context) : (c.run []).1 = [] := rfl
  simp only [run_piece, cons_eq_pieceAnswers_iff, hnil, nil_eq_pieceAnswers_iff]
  constructor
  · exact fun h => ⟨[out], ⟨out, [], rfl, h, rfl⟩, List.flatten_singleton⟩
  · rintro ⟨_, ⟨out', _, rfl, h, rfl⟩, hout⟩
    rw [List.flatten_singleton] at hout
    rwa [hout] at h

/-- Pieces give something if no call on them is refused, namely all that the calls give. -/
lemma processPieces_eq_ok_iff :
    c.processPieces direction padded pieces = .ok out ↔
      ∃ outs, (c.run (pieceCalls direction padded pieces)).1 = pieceAnswers outs ∧
        outs.flatten = out := by
  fun_induction processPieces c direction padded pieces generalizing out with
  | case1 c => exact process_last_eq_ok_iff c padded direction []
  | case2 c last => exact process_last_eq_ok_iff c padded direction last
  | case3 c piece rest hrest e c' hpiece =>
    -- a piece is refused, so that its call has no answer
    rw [pieceCalls_cons hrest]
    simp only [run_piece, hpiece, cons_eq_pieceAnswers_iff]
    constructor
    · intro h
      cases h
    · rintro ⟨_, ⟨_, _, _, h, _⟩, _⟩
      cases h
  | case4 c piece rest hrest front c' hpiece ih =>
    rw [pieceCalls_cons hrest, map_eq_ok_iff]
    simp only [run_piece, hpiece, cons_eq_pieceAnswers_iff]
    constructor
    · rintro ⟨back, hback, rfl⟩
      obtain ⟨outs, houts, rfl⟩ := ih.1 hback
      exact ⟨front :: outs, ⟨front, outs, rfl, rfl, houts⟩, rfl⟩
    · rintro ⟨_, ⟨_, outs, rfl, ⟨⟩, houts⟩, rfl⟩
      exact ⟨outs.flatten, ih.2 ⟨outs, houts, rfl⟩, rfl⟩

end Context

namespace Options

variable {o : Options} {files : Files} {suite : Provider.Suite} {out : Bytes}

/-! ## Results -/

/-- Everything before the output is written goes well: the input is read, the context is set up,
the length of the pieces is counted and no piece is refused. All that the pieces give comes out. -/
def Produces (o : Options) (files : Files) (suite : Provider.Suite) (out : Bytes) : Prop :=
  ∃ input c length outs, readBytes files o.file = .ok input ∧ o.context files suite = .ok c ∧
    c.pieceLength? o.chunkSize input.length = some length ∧
    (c.run (Context.pieceCalls o.direction c.padding (Bytes.pieces length input))).1 =
      Context.pieceAnswers outs ∧
    outs.flatten = out

/-- A run gives something exactly if everything goes well. -/
lemma result_eq_ok_iff : o.result files suite = .ok out ↔ o.Produces files suite out := by
  rw [result, bind_eq_ok_iff]
  simp only [mapError_eq_ok_iff, bind_eq_ok_iff]
  constructor
  · rintro ⟨input, hin, c, hc, h⟩
    cases hlength : c.pieceLength? o.chunkSize input.length with
    | none => rw [hlength] at h; cases h
    | some length =>
      rw [hlength] at h
      obtain ⟨outs, houts, hout⟩ := Context.processPieces_eq_ok_iff.1 (mapError_eq_ok_iff.1 h)
      exact ⟨input, c, length, outs, hin, hc, hlength, houts, hout⟩
  · rintro ⟨input, c, length, outs, hin, hc, hlength, houts, hout⟩
    refine ⟨input, hin, c, hc, ?_⟩
    rw [hlength]
    exact mapError_eq_ok_iff.2 (Context.processPieces_eq_ok_iff.2 ⟨outs, houts, hout⟩)

/-- A run without a result fails, or it has everything but a length of its pieces that it can
count. -/
lemma result_eq_error {outcome : Outcome} (h : o.result files suite = .error outcome) :
    (∃ e, outcome = .failed e) ∨
      (outcome = .overflowed ∧ ∃ input c, readBytes files o.file = .ok input ∧
        o.context files suite = .ok c ∧ c.pieceLength? o.chunkSize input.length = none) := by
  rw [Options.result] at h
  cases hin : readBytes files o.file with
  | error e => rw [hin] at h; cases h; exact .inl ⟨e, rfl⟩
  | ok input =>
    rw [hin] at h
    cases hc : o.context files suite with
    | error e => rw [hc] at h; cases h; exact .inl ⟨e, rfl⟩
    | ok c =>
      rw [hc] at h
      simp only [ok_mapError, ok_bind] at h
      cases hl : c.pieceLength? o.chunkSize input.length with
      | none => rw [hl] at h; cases h; exact .inr ⟨rfl, input, c, rfl, rfl, hl⟩
      | some length =>
        rw [hl] at h
        dsimp only at h
        cases hp : c.processPieces o.direction c.padding (Bytes.pieces length input) with
        | error e => rw [hp] at h; cases h; exact .inl ⟨_, rfl⟩
        | ok out => rw [hp] at h; cases h

/-- A run without a result does not end with exit code 0. -/
lemma exitCode_of_result {outcome : Outcome} (h : o.result files suite = .error outcome) :
    outcome.exitCode ≠ 0 := by
  rcases result_eq_error h with ⟨e, rfl⟩ | ⟨rfl, -⟩
  · exact Nat.one_ne_zero
  · exact Nat.succ_ne_zero 100

/-- A run fails and leaves the directory alone, or it puts all that it gives into the output. -/
lemma runIn_cases (o : Options) (d : Directory) (suite : Provider.Suite) :
    ((o.runIn d suite).1.exitCode ≠ 0 ∧ (o.runIn d suite).2 = d) ∨
      ∃ out d', o.result d.read suite = .ok out ∧ d.write o.output (Hex.encode out) = .ok d' ∧
        o.runIn d suite = (.done, d') := by
  cases hr : o.result d.read suite with
  | error outcome =>
    rw [runIn_of_error hr]
    exact .inl ⟨exitCode_of_result hr, rfl⟩
  | ok out =>
    simp only [runIn, hr]
    cases hw : d.write o.output (Hex.encode out) with
    | error e => exact .inl ⟨Nat.one_ne_zero, rfl⟩
    | ok d' => exact .inr ⟨out, d', rfl, hw, rfl⟩

/-- If everything goes well, and the output is a path of a file, that file is written. -/
lemma runIn_of_produces {d : Directory} {name : String} (hout : o.Produces d.read suite out)
    (hname : Directory.name? o.output = some name) :
    o.runIn d suite = (.done, d.put name (Hex.encode out)) := by
  simp only [runIn, result_eq_ok_iff.2 hout, Directory.write_eq_ok_iff.2 ⟨name, hname, rfl⟩]

end Options

/-! ## Main results -/

/-- Every way in which a run ends. -/
lemma runArguments_cases (arguments : List String) (d : Directory)
    (suite : Provider.Suite := .standard) :
    ((runArguments arguments d suite).1.exitCode ≠ 0 ∧ (runArguments arguments d suite).2 = d) ∨
      ((∃ argument ∈ arguments, Options.Asks argument) ∧
        runArguments arguments d suite = (.shown, d)) ∨
      ∃ o name out, Options.ofArguments arguments = .ok o ∧
        Directory.name? o.output = some name ∧ o.Produces d.read suite out ∧
        runArguments arguments d suite = (.done, d.put name (Hex.encode out)) := by
  rw [runArguments]
  cases ho : Options.ofArguments arguments with
  | error stop =>
    rcases Options.ofArguments_error ho with rfl | hasks
    · exact .inl ⟨Nat.succ_ne_zero 1, rfl⟩
    · cases stop with
      | refused => exact .inl ⟨Nat.succ_ne_zero 1, rfl⟩
      | help => exact .inr (.inl ⟨hasks, rfl⟩)
      | version => exact .inr (.inl ⟨hasks, rfl⟩)
  | ok o =>
    rcases o.runIn_cases d suite with hfails | ⟨out, d', hout, hwrite, hrun⟩
    · exact .inl hfails
    · obtain ⟨name, hname, rfl⟩ := Directory.write_eq_ok_iff.1 hwrite
      exact .inr (.inr ⟨o, name, out, rfl, hname, Options.result_eq_ok_iff.1 hout, hrun⟩)

/-- A run that does not end with exit code 0 leaves every file as it was, and makes none. With exit
code 0 it has shown what was asked for, and left every file as it was too, or it has written the
output and no other file: text that spells all that the pieces of the input gave, processed as they
were with the files that were there at first, whichever of them the output is. If all pieces give
something and the output is a path of a file, the exit code is 0.

That the disk takes the text as a whole, and that there are no files but those of a flat
`Directory`, is assumed in `Directory.write` and `Directory.place`. -/
theorem runArguments_all_or_nothing (arguments : List String) (d : Directory)
    (suite : Provider.Suite := .standard) :
    ((runArguments arguments d suite).1.exitCode ≠ 0 → (runArguments arguments d suite).2 = d) ∧
    ((runArguments arguments d suite).1.exitCode = 0 →
      ((∃ argument ∈ arguments, Options.Asks argument) ∧
          (runArguments arguments d suite).2 = d) ∨
        ∃ o name text out, Options.ofArguments arguments = .ok o ∧
          Directory.name? o.output = some name ∧ o.Produces d.read suite out ∧
          (runArguments arguments d suite).2.text? name = some text ∧
          Hex.decode text = .ok out ∧
          ∀ other, other ≠ name →
            (runArguments arguments d suite).2.text? other = d.text? other) ∧
    ∀ o name out, Options.ofArguments arguments = .ok o → Directory.name? o.output = some name →
      o.Produces d.read suite out → (runArguments arguments d suite).1.exitCode = 0 := by
  rw [← and_assoc]
  refine ⟨?_, fun o name out ho hname hout => ?_⟩
  · rcases runArguments_cases arguments d suite with
      ⟨hcode, hkept⟩ | ⟨hasks, hrun⟩ | ⟨o, name, out, ho, hname, hout, hrun⟩
    · exact ⟨fun _ => hkept, fun hzero => absurd hzero hcode⟩
    · rw [hrun]
      exact ⟨fun _ => rfl, fun _ => .inl ⟨hasks, rfl⟩⟩
    · rw [hrun]
      refine ⟨fun hcode => absurd rfl hcode, fun _ => .inr ?_⟩
      exact ⟨o, name, Hex.encode out, out, ho, hname, hout, if_pos rfl, Hex.decode_encode out,
        fun other hother => if_neg hother⟩
  · rw [runArguments, ho]
    exact congrArg (fun r => r.1.exitCode) (Options.runIn_of_produces hout hname)

/-- AES in ECB refuses the second piece of 17 bytes without padding, and the output stays as it was.
In CFB the output takes the place of the key. -/
theorem runArguments_all_or_nothing_aes :
    (runArguments ["-f", "in", "-o", "out", "-k", "key", "-m", "ecb", "-x", "encrypt",
        "--no-padding", "--chunk-size", "16"]
      (.ofFiles [("in", "000102030405060708090a0b0c0d0e0f 10"), ("out", "before"),
        ("key", "000102030405060708090a0b0c0d0e0f")])).1.exitCode = 1 ∧
    (runArguments ["-f", "in", "-o", "out", "-k", "key", "-m", "ecb", "-x", "encrypt",
        "--no-padding", "--chunk-size", "16"]
      (.ofFiles [("in", "000102030405060708090a0b0c0d0e0f 10"), ("out", "before"),
        ("key", "000102030405060708090a0b0c0d0e0f")])).2.text? "out" = some "before" ∧
    (runArguments ["-f", "in", "-o", "key", "-k", "key", "-m", "cfb", "-x", "encrypt"]
      (.ofFiles [("in", "2F\nff"), ("key", "000102030405060708090a0b0c0d0e0f")])).1.exitCode = 0 ∧
    (runArguments ["-f", "in", "-o", "key", "-k", "key", "-m", "cfb", "-x", "encrypt"]
      (.ofFiles [("in", "2F\nff"), ("key", "000102030405060708090a0b0c0d0e0f")])).2.text? "key" =
        some "e9 5e" ∧
    (runArguments ["-f", "in", "-o", "key", "-k", "key", "-m", "cfb", "-x", "encrypt"]
      (.ofFiles [("in", "2F\nff"), ("key", "000102030405060708090a0b0c0d0e0f")])).2.text? "in" =
        some "2F\nff" := by
  have hcode : (runArguments ["-f", "in", "-o", "out", "-k", "key", "-m", "ecb", "-x", "encrypt",
        "--no-padding", "--chunk-size", "16"]
      (.ofFiles [("in", "000102030405060708090a0b0c0d0e0f 10"), ("out", "before"),
        ("key", "000102030405060708090a0b0c0d0e0f")])).1.exitCode = 1 := by
    decide +kernel
  have hkept := (runArguments_all_or_nothing _ _).1 (by rw [hcode]; exact Nat.one_ne_zero)
  have hzero : (runArguments ["-f", "in", "-o", "key", "-k", "key", "-m", "cfb", "-x", "encrypt"]
      (.ofFiles [("in", "2F\nff"),
        ("key", "000102030405060708090a0b0c0d0e0f")])).1.exitCode = 0 := by
    decide +kernel
  refine ⟨hcode, by rw [hkept]; rfl, hzero, by decide +kernel, ?_⟩
  rcases (runArguments_all_or_nothing _ _).2.1 hzero with
    ⟨hasks, -⟩ | ⟨o, name, text, out, ho, hname, -, -, -, hothers⟩
  · exact absurd hasks (by decide +kernel)
  · have hoptions : Options.ofArguments
          ["-f", "in", "-o", "key", "-k", "key", "-m", "cfb", "-x", "encrypt"] =
        .ok ⟨"in", "key", some "key", none, none, .aes, .cfb, .encrypt, true, none, none⟩ :=
      toOption_eq_some_iff.1 (by decide +kernel)
    cases ho.symm.trans hoptions
    cases hname.symm.trans (show Directory.name? "key" = some "key" by decide +kernel)
    exact hothers "in" (by decide)

end SymmetricCipher
