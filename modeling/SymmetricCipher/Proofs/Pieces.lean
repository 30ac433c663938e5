import SymmetricCipher.Context.Pieces
import SymmetricCipher.Proofs.Inversion
import SymmetricCipher.Proofs.Padding
import SymmetricCipher.Proofs.Refinement

/-!
# Data in pieces

A long input is processed in pieces, as one stream of which only the last piece is padded. What
comes out is what a single call gives, up to the wording of a refusal, which names the length of the
last piece then: `Context.Follows.processPieces`. For the reference context this is a matter of the
single pass behind `Settings.respond`, which takes a piece at its front off the log and the data
alike, and of padding, which stands at the end of the data only.
-/

namespace SymmetricCipher

/-- What is given, if anything is, is mapped. -/
lemma Except.toOption_map {ε α β : Type} (f : α → β) (x : Except ε α) :
    (x.map f).toOption = x.toOption.map f := by
  cases x <;> rfl

/-! ## Cutting data -/

namespace Bytes

variable {n : Nat} {data piece : Bytes}

/-- Whole blocks are cut into blocks only. -/
lemma pieces_of_partialBlock_eq_nil (h : partialBlock n data = []) :
    pieces n data = wholeBlocks n data := by
  rw [pieces, h]
  rfl

/-- Otherwise the rest is the last piece. -/
lemma pieces_of_partialBlock_ne_nil (h : partialBlock n data ≠ []) :
    pieces n data = wholeBlocks n data ++ [partialBlock n data] := by
  rw [pieces]
  exact if_neg fun hempty => h (List.isEmpty_iff.1 hempty)

/-- The pieces together are the data. -/
lemma flatten_pieces (n : Nat) (data : Bytes) : (pieces n data).flatten = data := by
  have hdata := wholeBlocks_append_partialBlock n data
  by_cases h : partialBlock n data = []
  · rw [h, List.append_nil] at hdata
    rw [pieces_of_partialBlock_eq_nil h, hdata]
  · rw [pieces_of_partialBlock_ne_nil h, List.flatten_append, List.flatten_singleton, hdata]

/-- No piece is empty. -/
lemma ne_nil_of_mem_pieces (hn : 0 < n) (hmem : piece ∈ pieces n data) : piece ≠ [] := by
  have whole {b : Bytes} (hb : b ∈ wholeBlocks n data) : b ≠ [] := by
    have hlen := length_of_mem_wholeBlocks hb
    exact List.length_pos_iff.1 (by omega)
  by_cases h : partialBlock n data = []
  · rw [pieces_of_partialBlock_eq_nil h] at hmem
    exact whole hmem
  · rw [pieces_of_partialBlock_ne_nil h] at hmem
    rcases List.mem_append.1 hmem with hb | hlast
    · exact whole hb
    · rwa [List.mem_singleton.1 hlast]

/-- All pieces but the last one have the length that is asked for. -/
lemma length_of_mem_dropLast_pieces (hmem : piece ∈ (pieces n data).dropLast) :
    piece.length = n := by
  by_cases h : partialBlock n data = []
  · rw [pieces_of_partialBlock_eq_nil h] at hmem
    exact length_of_mem_wholeBlocks (List.dropLast_subset _ hmem)
  · rw [pieces_of_partialBlock_ne_nil h, List.dropLast_concat] at hmem
    exact length_of_mem_wholeBlocks hmem

/-- Data is one piece of its own length. -/
lemma pieces_length (h : data ≠ []) : pieces data.length data = [data] := by
  have hpos : 0 < data.length := List.length_pos_iff.2 h
  have hrest : partialBlock data.length data = [] :=
    partialBlock_eq_nil (Nat.mod_self _)
  rw [pieces_of_partialBlock_eq_nil hrest, wholeBlocks_block hpos rfl]

end Bytes

namespace Settings

variable {s : Settings} {direction : Direction} {log data key x y : Bytes}

/-! ## Single passes -/

/-- A call is accepted if a key is set and its data, as it goes to the cipher, is aligned. -/
lemma accept_of_aligned (hk : s.key = some key)
    (ha : s.mode.Aligned s.algorithm.blockSize (s.prepare direction data)) :
    s.accept direction data = .ok (key, s.prepare direction data) := by
  have hn : ¬(s.mode.isBlockMode = true ∧
      (s.prepare direction data).length % s.algorithm.blockSize ≠ 0) :=
    fun h => h.2 (ha h.1)
  rw [accept, hk]
  exact if_neg hn

/-- What a call answers comes from the end of a single pass, behind what the pass makes of the
log. -/
lemma respond_spec (hv : s.Valid) (hlog : s.mode.Aligned s.algorithm.blockSize log)
    (ha : s.accept direction data = .ok (key, x)) :
    ∃ front out, s.algorithm.oneShot s.mode key s.iv direction log = .ok front ∧
      front.length = log.length ∧
      s.algorithm.oneShot s.mode key s.iv direction (log ++ x) = .ok (front ++ out) ∧
      out.length = x.length ∧ s.respond log direction data = s.finish direction out := by
  obtain ⟨hk, -, hx⟩ := of_accept ha
  obtain ⟨front, out, hfront, hlen, hboth, hout⟩ :=
    Algorithm.oneShot_append hv.supports (hv.key hk) hv.iv direction hlog hx
  refine ⟨front, out, hfront, hlen, hboth, hout, ?_⟩
  have hcut : (front ++ out).drop ((front ++ out).length - x.length) = out := by
    rw [List.length_append, hout, Nat.add_sub_cancel, List.drop_left]
  simp only [respond, ha, hboth, hcut]

/-! ## A piece in front -/

/-- The settings with padding turned on or off. -/
def padded (s : Settings) (on : Bool) : Settings := { s with padding := on }

/-- Padding does not matter to whether settings are valid. -/
lemma Valid.padded (hv : s.Valid) (on : Bool) : (s.padded on).Valid := ⟨hv.supports, hv.iv, hv.key⟩

/-- Whole blocks in front go to the cipher as they are. -/
lemma prepare_append (hx : s.mode.Aligned s.algorithm.blockSize x) (direction : Direction)
    (y : Bytes) : s.prepare direction (x ++ y) = x ++ s.prepare direction y := by
  cases direction with
  | encrypt =>
    rw [prepare, prepare]
    split
    · rename_i hp
      exact Padding.add_append (hx (Bool.and_eq_true_iff.1 hp).1) y
    · rfl
  | decrypt => rfl

/-- Whatever stands in front of whole blocks is answered as it is. -/
lemma finish_append (x : Bytes) (hy : s.mode.Aligned s.algorithm.blockSize y) (hne : y ≠ []) :
    s.finish direction (x ++ y) = (s.finish direction y).map (x ++ ·) := by
  cases direction with
  | encrypt => rfl
  | decrypt =>
    rw [finish, finish]
    split
    · rename_i hp
      exact Padding.remove_append x (hy (Bool.and_eq_true_iff.1 hp).1) hne
    · rfl

/-- Whole blocks in front do not matter to what is aligned. -/
lemma aligned_append_iff (hx : s.mode.Aligned s.algorithm.blockSize x) :
    s.mode.Aligned s.algorithm.blockSize (x ++ y) ↔ s.mode.Aligned s.algorithm.blockSize y := by
  refine ⟨fun h hm => ?_, hx.append⟩
  have hboth := h hm
  rw [List.length_append, Nat.add_mod, hx hm, Nat.zero_add, Nat.mod_mod] at hboth
  exact hboth

/-- Data that is accepted goes to the log as the cipher gets it. -/
lemma record_of_accept {logs : Logs} (ha : s.accept direction data = .ok (key, x)) :
    s.record logs direction data = logs.append direction x := by
  rw [record, ha]

/-- Without a key all data is refused. -/
lemma respond_of_key_none (hk : s.key = none) (log : Bytes) (direction : Direction) (data : Bytes) :
    s.respond log direction data = .error .keyNotSet := by
  rw [respond, accept, hk]

/-- Block modes refuse what is not whole blocks. -/
lemma accept_of_misaligned
    (ha : ¬s.mode.Aligned s.algorithm.blockSize (s.prepare direction data)) :
    ∃ e, s.accept direction data = .error e := by
  cases h : s.accept direction data with
  | error e => exact ⟨e, rfl⟩
  | ok r =>
    obtain ⟨-, hr, hx⟩ := of_accept h
    rw [hr] at hx
    exact absurd hx ha

/-- Data does not get lost on the way to the cipher. -/
lemma prepare_ne_nil (direction : Direction) (hy : y ≠ []) : s.prepare direction y ≠ [] := by
  cases direction with
  | encrypt =>
    rw [prepare]
    split
    · exact List.append_ne_nil_of_left_ne_nil hy _
    · exact hy
  | decrypt => exact hy

/-- Without padding, a piece of whole blocks goes to the cipher as it is. -/
lemma accept_piece (hk : s.key = some key) (direction : Direction)
    (hx : s.mode.Aligned s.algorithm.blockSize x) :
    (s.padded false).accept direction x = .ok (key, x) := by
  have hpads : (s.padded false).pads = false := Bool.and_false _
  have hprepare := prepare_of_pads_eq_false hpads direction x
  have ha := accept_of_aligned (s := s.padded false) hk (hprepare ▸ hx)
  rwa [hprepare] at ha

/-- A piece of whole blocks is answered by what a single pass adds to that over the log. -/
lemma respond_piece (hv : s.Valid) (hk : s.key = some key)
    (hlog : s.mode.Aligned s.algorithm.blockSize log) (direction : Direction)
    (hx : s.mode.Aligned s.algorithm.blockSize x) :
    ∃ front out, s.algorithm.oneShot s.mode key s.iv direction log = .ok front ∧
      s.algorithm.oneShot s.mode key s.iv direction (log ++ x) = .ok (front ++ out) ∧
      (s.padded false).respond log direction x = .ok out := by
  have hpads : (s.padded false).pads = false := Bool.and_false _
  obtain ⟨front, out, hfront, -, hpass, -, hrespond⟩ :=
    respond_spec (hv.padded false) hlog (accept_piece hk direction hx)
  exact ⟨front, out, hfront, hpass, hrespond.trans (finish_of_pads_eq_false hpads direction out)⟩

/-- What follows a piece of whole blocks is answered, behind the log with the piece, as in a call on
both. -/
lemma respond_append (hv : s.Valid) (hk : s.key = some key)
    (hlog : s.mode.Aligned s.algorithm.blockSize log) (direction : Direction)
    (hx : s.mode.Aligned s.algorithm.blockSize x) (hy : y ≠ []) :
    ∃ out, (s.padded false).respond log direction x = .ok out ∧
      (s.respond log direction (x ++ y)).toOption =
        ((s.respond (log ++ x) direction y).map (out ++ ·)).toOption := by
  obtain ⟨front, out, hfront, hpass, hpiece⟩ := respond_piece hv hk hlog direction hx
  refine ⟨out, hpiece, ?_⟩
  by_cases ha : s.mode.Aligned s.algorithm.blockSize (s.prepare direction y)
  · have hrest := accept_of_aligned hk ha
    have hboth : s.accept direction (x ++ y) = .ok (key, x ++ s.prepare direction y) := by
      rw [← prepare_append hx]
      exact accept_of_aligned hk (by rw [prepare_append hx]; exact hx.append ha)
    obtain ⟨_, back, hfront', -, hpass', hback, hrespond⟩ := respond_spec hv (hlog.append hx) hrest
    obtain ⟨_, out', hfront'', -, hpass'', -, hrespond'⟩ := respond_spec hv hlog hboth
    cases hpass.symm.trans hfront'
    cases hfront.symm.trans hfront''
    -- both calls end in the same single pass
    rw [List.append_assoc, List.append_assoc] at hpass'
    obtain rfl : out ++ back = out' :=
      List.append_cancel_left (Except.ok.inj (hpass'.symm.trans hpass''))
    have hne : back ≠ [] := fun h => prepare_ne_nil direction hy
      (List.eq_nil_of_length_eq_zero (by rw [← hback, h]; rfl))
    rw [hrespond, hrespond', finish_append out (ha.of_length_eq hback) hne]
  · obtain ⟨e, hrest⟩ := accept_of_misaligned ha
    have hboth : ¬s.mode.Aligned s.algorithm.blockSize (s.prepare direction (x ++ y)) := by
      rw [prepare_append hx, aligned_append_iff hx]
      exact ha
    obtain ⟨e', hboth⟩ := accept_of_misaligned hboth
    rw [respond, respond, hrest, hboth]
    rfl

end Settings

namespace Context

/-! ## Pieces of an input -/

variable {c : Context} {s : Settings} {logs : Logs}

/-- A context that follows a reference has valid settings. -/
lemma Follows.valid {r : Reference} (h : c.Follows r) : r.settings.Valid := by
  rw [← h.settings]
  exact h.sound.valid

/-- Padding is turned on and off without an end of the stream. -/
lemma Follows.setPadding (h : c.Follows ⟨s, logs⟩) (on : Bool) :
    (c.setPadding on).Follows ⟨s.padded on, logs⟩ :=
  (h.perform (.setPadding on)).2

/-- Pieces of whole blocks, with anything but nothing as the last one, give what a call on all of
them gives while the stream goes on. -/
lemma Follows.processPieces (h : c.Follows ⟨s, logs⟩) (hc : s.continuous = true)
    {direction : Direction} (hlog : s.mode.Aligned s.algorithm.blockSize (logs direction))
    (padded : Bool) {pieces : List Bytes} (hne : ∀ piece ∈ pieces, piece ≠ [])
    (hfront : ∀ piece ∈ pieces.dropLast, s.mode.Aligned s.algorithm.blockSize piece) :
    (c.processPieces direction padded pieces).toOption =
      ((s.padded padded).respond (logs direction) direction pieces.flatten).toOption := by
  have opening (s : Settings) (hc : s.continuous = true) (logs : Logs) (on : Bool) :
      (s.padded on).opening logs = logs :=
    Settings.opening_of_continuous hc logs
  fun_induction Context.processPieces c direction padded pieces generalizing s logs with
  | case1 c =>
    rw [((h.setPadding padded).process direction []).1, opening s hc]
    rfl
  | case2 c last =>
    rw [((h.setPadding padded).process direction last).1, opening s hc, List.flatten_singleton]
  | case3 c piece rest hrest e c' hpiece =>
    have hv := h.valid
    obtain ⟨hanswer, -⟩ := (h.setPadding false).process direction piece
    rw [hpiece, opening s hc] at hanswer
    cases hk : s.key with
    | none =>
      rw [Settings.respond_of_key_none (s := s.padded padded) hk]
      rfl
    | some key =>
      -- with a key no piece before the last one is refused
      obtain ⟨-, out, -, -, hok⟩ := Settings.respond_piece hv hk hlog direction
        (hfront piece (by rw [List.dropLast_cons_of_ne_nil hrest]; exact List.mem_cons_self))
      cases hanswer.trans hok
  | case4 c piece rest hrest out c' hpiece ih =>
    have hv := h.valid
    rw [List.dropLast_cons_of_ne_nil hrest] at hfront
    have hx := hfront piece List.mem_cons_self
    obtain ⟨hanswer, hnext⟩ := (h.setPadding false).process direction piece
    rw [hpiece, opening s hc] at hanswer hnext
    cases hk : s.key with
    | none =>
      rw [Settings.respond_of_key_none (s := s.padded false) hk] at hanswer
      cases hanswer
    | some key =>
      obtain ⟨next, hnextrest⟩ := List.exists_mem_of_ne_nil rest hrest
      have hy : rest.flatten ≠ [] := fun hnil =>
        hne next (List.mem_cons_of_mem piece hnextrest)
          (List.flatten_eq_nil_iff.1 hnil next hnextrest)
      obtain ⟨out', hok, hboth⟩ :=
        Settings.respond_append (hv.padded padded) hk hlog direction hx hy
      cases hanswer.trans hok
      rw [Settings.record_of_accept (Settings.accept_piece hk direction hx)] at hnext
      have hrest := ih hnext hc (by rw [Logs.append_self]; exact hlog.append hx)
        (fun p hp => hne p (List.mem_cons_of_mem piece hp))
        fun p hp => hfront p (List.mem_cons_of_mem piece hp)
      rw [Logs.append_self] at hrest
      rw [List.flatten_cons, hboth, Except.toOption_map, Except.toOption_map, hrest]
      rfl

/-- A number of whole blocks that is large enough, and no larger than it has to be. -/
structure RoundsUp (blockSize n length : Nat) : Prop where
  whole : blockSize ∣ length
  le : n ≤ length
  lt : length < n + blockSize

/-- The next multiple is such a number. -/
lemma roundsUp_roundUp {blockSize : Nat} (hpos : 0 < blockSize) (n : Nat) :
    RoundsUp blockSize n (roundUp blockSize n) := by
  have hlt := Nat.mod_lt (n + blockSize - 1) hpos
  have hdiv := Nat.div_add_mod (n + blockSize - 1) blockSize
  rw [Nat.mul_comm] at hdiv
  refine ⟨Nat.dvd_mul_left blockSize _, ?_, ?_⟩
  · rw [roundUp]
    omega
  · rw [roundUp]
    omega

/-- The length of the pieces is a positive number of bytes, and of whole blocks in a block mode. -/
lemma pieceLength?_spec {n : Nat} {inputLength length : Nat}
    (h : c.pieceLength? (some n) inputLength = some length) :
    0 < length ∧ (c.mode.isBlockMode = true → length % c.blockSize = 0) := by
  have hpos : 0 < max n 1 := by omega
  rw [pieceLength?] at h
  split at h
  · dsimp only at h
    split at h
    · cases h
      have hround := roundsUp_roundUp c.algorithm.blockSize_pos (max n 1)
      exact ⟨Nat.lt_of_lt_of_le hpos hround.le, fun _ => Nat.mod_eq_zero_of_dvd hround.whole⟩
    · cases h
  · rename_i hm
    cases h
    exact ⟨hpos, fun h => absurd h hm⟩

/-- From the start of a stream, an input gives the same in pieces and as a whole. It is cut only if
the stream goes on. -/
theorem Follows.processPieces_pieceLength? (h : c.Follows ⟨s, .empty⟩) {requested : Option Nat}
    (hc : requested.isSome = true → s.continuous = true) {data : Bytes} {length : Nat}
    (hlength : c.pieceLength? requested data.length = some length) (direction : Direction)
    (padded : Bool) :
    (c.processPieces direction padded (Bytes.pieces length data)).toOption =
      ((s.padded padded).respond [] direction data).toOption := by
  cases requested with
  | none =>
    -- there is one piece at most, whether the stream goes on or not
    obtain ⟨hanswer, -⟩ := (h.setPadding padded).process direction data
    rw [Settings.opening_empty] at hanswer
    cases hlength
    have hone : c.processPieces direction padded (Bytes.pieces (max data.length 1) data) =
        ((c.setPadding padded).process direction data).1 := by
      by_cases hnil : data = []
      · subst hnil
        rfl
      · rw [Nat.max_eq_left (List.length_pos_iff.2 hnil), Bytes.pieces_length hnil]
        rfl
    rw [hone, hanswer]
    rfl
  | some n =>
    obtain ⟨hpos, hblocks⟩ := pieceLength?_spec hlength
    have hmode : c.mode = s.mode := congrArg Settings.mode h.settings
    have halgorithm : c.algorithm = s.algorithm := congrArg Settings.algorithm h.settings
    rw [hmode, blockSize, halgorithm] at hblocks
    have hfull : ∀ piece ∈ Bytes.pieces length data, piece ≠ [] :=
      fun piece hp => Bytes.ne_nil_of_mem_pieces hpos hp
    have hwhole : ∀ piece ∈ (Bytes.pieces length data).dropLast,
        s.mode.Aligned s.algorithm.blockSize piece := fun piece hp hm => by
      rw [Bytes.length_of_mem_dropLast_pieces hp]
      exact hblocks hm
    have hstart : s.mode.Aligned s.algorithm.blockSize (Logs.empty direction) :=
      fun _ => Nat.zero_mod _
    have hpieces := h.processPieces (hc rfl) hstart padded hfull hwhole
    rw [Bytes.flatten_pieces] at hpieces
    exact hpieces

end Context

end SymmetricCipher
