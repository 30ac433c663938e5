import Mathlib.Algebra.Order.Floor.Div
import Mathlib.Logic.Function.Iterate
import SymmetricCipher.PasswordKey
import SymmetricCipher.Proofs.Chaining

/-!
# Keys from passwords

Under a method, a hash, a salt and a number of iterations a password stands for one long string of
bytes, and a key of any length is the front of it (`derive_of_admits`). The string is one digest for
PBKDF1, and as many blocks as can be numbered for PBKDF2.
-/

namespace SymmetricCipher

/-- No digest is empty. -/
lemma Hash.outputSize_pos (hash : Hash) : 0 < hash.outputSize := by
  cases hash <;> decide

namespace PasswordKey

/-- The most blocks whose indices fit into the word that they are encoded with. -/
def maxBlocks : Nat := UInt32.size - 1

/-- Repeating a function is iterating it, from the last application on instead of the first. -/
lemma repeat_eq_iterate {α : Type} (f : α → α) (n : Nat) (x : α) : Nat.repeat f n x = f^[n] x := by
  induction n with
  | zero => rfl
  | succ n ih =>
    rw [Function.iterate_succ_apply', ← ih]
    rfl

/-! ## PBKDF1 -/

/-- The first digest counts as an iteration, and only the last one is cut. -/
lemma pbkdf1_of_le {iterations : Nat} (h : iterations ≠ 0) (password salt : Bytes) {hash : Hash}
    {length : Nat} (hl : length ≤ hash.outputSize) :
    pbkdf1 password salt hash iterations length =
      .ok ((hash.digest^[iterations] (password ++ salt)).take length) := by
  obtain ⟨n, rfl⟩ := Nat.exists_eq_succ_of_ne_zero h
  rw [pbkdf1, if_neg h, if_neg (Nat.not_lt.2 hl), repeat_eq_iterate]
  rfl

/-- One hash at least makes any data as long as a digest. -/
lemma length_iterate_digest (hash : Hash) {iterations : Nat} (h : iterations ≠ 0) (data : Bytes) :
    (hash.digest^[iterations] data).length = hash.outputSize := by
  obtain ⟨n, rfl⟩ := Nat.exists_eq_succ_of_ne_zero h
  rw [Function.iterate_succ_apply']
  exact hash.length_digest _

/-- Further iterations hash the whole digest that the iterations before them leave. -/
lemma pbkdf1_add {c : Nat} (hc : c ≠ 0) (k : Nat) (password salt : Bytes) {hash : Hash}
    {length : Nat} (hl : length ≤ hash.outputSize) :
    ∃ full, pbkdf1 password salt hash c hash.outputSize = .ok full ∧
      full.length = hash.outputSize ∧
      pbkdf1 password salt hash (c + k) length = .ok ((hash.digest^[k] full).take length) := by
  have hfull := length_iterate_digest hash hc (password ++ salt)
  have hck : c + k ≠ 0 := by omega
  refine ⟨hash.digest^[c] (password ++ salt), ?_, hfull, ?_⟩
  · rw [pbkdf1_of_le hc _ _ (Nat.le_refl _), List.take_of_length_le (Nat.le_of_eq hfull)]
  · rw [pbkdf1_of_le hck _ _ hl, Nat.add_comm, Function.iterate_add_apply]

/-! ## PBKDF2 -/

/-- Codes of `n` bytes make chains of `n` bytes. -/
lemma length_repeat_chainStep {code : Bytes → Bytes} {n : Nat}
    (hcode : ∀ message, (code message).length = n) (links : Nat) :
    ∀ s : Bytes × Bytes, s.2.length = n →
      (Nat.repeat (chainStep code) links s).2.length = n := by
  intro s hs
  induction links with
  | zero => exact hs
  | succ links ih =>
    show (Bytes.xor (Nat.repeat (chainStep code) links s).2 (code _)).length = n
    rw [Bytes.length_xor, ih, hcode, Nat.min_self]

/-- A block of PBKDF2 is as long as a digest. -/
lemma length_pbkdf2Block (hash : Hash) (password salt : Bytes) (iterations : Nat) (index : UInt32) :
    (pbkdf2Block (hash.hmac password) salt iterations index).length = hash.outputSize :=
  length_repeat_chainStep (hash.length_hmac password) _ _ (hash.length_hmac password _)

/-- The first blocks, one after the other. -/
def pbkdf2Blocks (password salt : Bytes) (hash : Hash) (iterations count : Nat) : Bytes :=
  (List.range count).flatMap fun i =>
    pbkdf2Block (hash.hmac password) salt iterations (blockIndex i)

/-- Some blocks of PBKDF2 are as long as that many digests. -/
lemma length_pbkdf2Blocks (password salt : Bytes) (hash : Hash) (iterations count : Nat) :
    (pbkdf2Blocks password salt hash iterations count).length = count * hash.outputSize := by
  have hblocks : ∀ b ∈ (List.range count).map fun i =>
      pbkdf2Block (hash.hmac password) salt iterations (blockIndex i),
      b.length = hash.outputSize := by
    intro b hb
    obtain ⟨i, -, rfl⟩ := List.mem_map.1 hb
    exact length_pbkdf2Block hash password salt iterations (blockIndex i)
  rw [pbkdf2Blocks, List.flatMap_def, length_flatten_of_forall hblocks, List.length_map,
    List.length_range]

/-- More blocks continue fewer ones. -/
lemma pbkdf2Blocks_add (password salt : Bytes) (hash : Hash) (iterations count more : Nat) :
    ∃ rest, pbkdf2Blocks password salt hash iterations (count + more) =
      pbkdf2Blocks password salt hash iterations count ++ rest := by
  rw [pbkdf2Blocks, List.range_add, List.flatMap_append]
  exact ⟨_, rfl⟩

/-- A key is made of the fewest blocks that hold it. -/
lemma blockCount_le_iff {hash : Hash} {length count : Nat} :
    blockCount hash length ≤ count ↔ length ≤ count * hash.outputSize := by
  rw [blockCount, ← Nat.ceilDiv_eq_add_pred_div, ceilDiv_le_iff_le_mul hash.outputSize_pos,
    Nat.mul_comm]

/-- There are enough blocks for what is asked. -/
lemma le_blockCount_mul (hash : Hash) (length : Nat) :
    length ≤ blockCount hash length * hash.outputSize := blockCount_le_iff.1 (Nat.le_refl _)

/-- Bytes that are pushed one by one stand behind the buffer. -/
lemma toList_foldl_push (data : Bytes) : ∀ buffer : ByteArray,
    (data.foldl ByteArray.push buffer).data.toList = buffer.data.toList ++ data := by
  induction data with
  | nil => exact fun buffer => (List.append_nil _).symm
  | cons byte data ih =>
    intro buffer
    rw [List.foldl_cons, ih, ByteArray.data_push, Array.toList_push, List.append_assoc,
      List.singleton_append]

/-- The blocks that are pushed stand behind the buffer, one after the other. -/
lemma toList_fold_push (block : Nat → Bytes) (start : ByteArray) (count : Nat) :
    (count.fold (fun i _ buffer => (block i).foldl ByteArray.push buffer) start).data.toList =
      start.data.toList ++ (List.range count).flatMap block := by
  induction count with
  | zero => exact (List.append_nil _).symm
  | succ count ih =>
    rw [Nat.fold_succ, toList_foldl_push, ih, List.range_succ, List.flatMap_append,
      List.flatMap_singleton, List.append_assoc]

/-- The buffer holds the blocks in order, and nothing else. -/
lemma toList_fillBuffer (block : Nat → Bytes) (size count : Nat) :
    (fillBuffer block size count).data.toList = (List.range count).flatMap block := by
  rw [fillBuffer, toList_fold_push]
  rfl

/-- PBKDF2 cuts off what is asked from the front of its blocks. -/
lemma pbkdf2_eq {iterations : Nat} (h : iterations ≠ 0) (password salt : Bytes) (hash : Hash)
    (length : Nat) :
    pbkdf2 password salt hash iterations length =
      .ok ((pbkdf2Blocks password salt hash iterations (blockCount hash length)).take length) := by
  rw [pbkdf2, if_neg h]
  exact congrArg (fun blocks => Except.ok (List.take length blocks)) (toList_fillBuffer _ _ _)

/-- A key is the front of any number of blocks that hold it. -/
lemma pbkdf2_of_le {iterations : Nat} (h : iterations ≠ 0) (password salt : Bytes) {hash : Hash}
    {count length : Nat} (hl : length ≤ count * hash.outputSize) :
    pbkdf2 password salt hash iterations length =
      .ok ((pbkdf2Blocks password salt hash iterations count).take length) := by
  have hle := blockCount_le_iff.2 hl
  -- what is there beyond the blocks that are made is not taken
  obtain ⟨rest, hrest⟩ := pbkdf2Blocks_add password salt hash iterations (blockCount hash length)
    (count - blockCount hash length)
  rw [Nat.add_sub_cancel' hle] at hrest
  rw [pbkdf2_eq h, hrest, List.take_append_of_le_length]
  rw [length_pbkdf2Blocks]
  exact le_blockCount_mul hash length

/-- With at least one iteration PBKDF2 gives a key of the length that is asked for. -/
theorem pbkdf2_ok {iterations : Nat} (h : iterations ≠ 0) (password salt : Bytes) (hash : Hash)
    (length : Nat) :
    ∃ key, pbkdf2 password salt hash iterations length = .ok key ∧ key.length = length := by
  refine ⟨_, pbkdf2_eq h password salt hash length, ?_⟩
  rw [List.length_take, length_pbkdf2Blocks]
  exact Nat.min_eq_left (le_blockCount_mul hash length)

/-! ## Any method -/

/-- The first method is PBKDF1 of the same options. -/
lemma derive_pbkdf1 {options : PasswordOptions} (h : options.method = .pbkdf1) (password : Bytes)
    (length : Nat) :
    derive options password length =
      pbkdf1 password options.salt options.hash options.iterations length := by
  rw [derive, h]

/-- The second method is PBKDF2 of the same options. -/
lemma derive_pbkdf2 {options : PasswordOptions} (h : options.method = .pbkdf2) (password : Bytes)
    (length : Nat) :
    derive options password length =
      pbkdf2 password options.salt options.hash options.iterations length := by
  rw [derive, h]

/-- Without iterations there is no key of any length, and with them PBKDF1 has none that is longer
than a digest. -/
lemma derive_eq_error_iff {options : PasswordOptions} {password : Bytes} {length : Nat}
    {e : CipherError} :
    derive options password length = .error e ↔
      options.iterations = 0 ∧ e = .invalidIterationCount ∨
      options.iterations ≠ 0 ∧ options.method = .pbkdf1 ∧ options.hash.outputSize < length ∧
        e = .derivedKeyTooLong length options.hash.outputSize := by
  by_cases hi : options.iterations = 0
  · have hd : derive options password length = .error .invalidIterationCount := by
      cases hm : options.method with
      | pbkdf1 => rw [derive_pbkdf1 hm]; exact if_pos hi
      | pbkdf2 => rw [derive_pbkdf2 hm]; exact if_pos hi
    simp [hd, hi, eq_comm]
  · cases hm : options.method with
    | pbkdf1 =>
      rw [derive_pbkdf1 hm, pbkdf1, if_neg hi]
      split <;> simp [*, eq_comm]
    | pbkdf2 =>
      rw [derive_pbkdf2 hm, pbkdf2, if_neg hi]
      simp [hi]

/-- The lengths of the keys that a method can give: those of a digest, or of blocks that can be
numbered. -/
def Admits (options : PasswordOptions) (length : Nat) : Prop :=
  match options.method with
  | .pbkdf1 => length ≤ options.hash.outputSize
  | .pbkdf2 => length ≤ maxBlocks * options.hash.outputSize

/-- A password stands for a string of bytes, and its keys are fronts of it. -/
lemma derive_of_admits {options : PasswordOptions} (h : options.iterations ≠ 0) (password : Bytes) :
    ∃ stream : Bytes, ∀ {length : Nat}, Admits options length →
      length ≤ stream.length ∧ derive options password length = .ok (stream.take length) := by
  cases hm : options.method with
  | pbkdf1 =>
    refine ⟨options.hash.digest^[options.iterations] (password ++ options.salt), fun ha => ?_⟩
    rw [Admits, hm] at ha
    rw [length_iterate_digest options.hash h, derive_pbkdf1 hm]
    exact ⟨ha, pbkdf1_of_le h password options.salt ha⟩
  | pbkdf2 =>
    refine ⟨pbkdf2Blocks password options.salt options.hash options.iterations maxBlocks,
      fun ha => ?_⟩
    rw [Admits, hm] at ha
    rw [length_pbkdf2Blocks, derive_pbkdf2 hm]
    exact ⟨ha, pbkdf2_of_le h password options.salt ha⟩

/-! ## Main result -/

/-- A key is refused for want of iterations before all else, and by PBKDF1 for its length. Any other
key has the length that is asked for, and longer keys begin with it. In PBKDF1 further iterations
hash the whole digest that the iterations before them leave. -/
theorem derive_outcomes (options : PasswordOptions) (password : Bytes) :
    (∀ (length : Nat) (e : CipherError), derive options password length = .error e ↔
      options.iterations = 0 ∧ e = .invalidIterationCount ∨
      options.iterations ≠ 0 ∧ options.method = .pbkdf1 ∧ options.hash.outputSize < length ∧
        e = .derivedKeyTooLong length options.hash.outputSize) ∧
    (options.iterations ≠ 0 → ∀ length, Admits options length →
      ∃ key, derive options password length = .ok key ∧ key.length = length ∧
        ∀ longer, length ≤ longer → Admits options longer →
          ∃ key', derive options password longer = .ok key' ∧ key <+: key') ∧
    (options.method = .pbkdf1 → ∀ c k length, c ≠ 0 → length ≤ options.hash.outputSize →
      ∃ full, derive { options with iterations := c } password options.hash.outputSize = .ok full ∧
        full.length = options.hash.outputSize ∧
        derive { options with iterations := c + k } password length =
          .ok ((options.hash.digest^[k] full).take length)) := by
  refine ⟨fun length e => derive_eq_error_iff, fun h length ha => ?_, fun hm c k length hc hl => ?_⟩
  · obtain ⟨stream, hstream⟩ := derive_of_admits h password
    obtain ⟨hlen, hkey⟩ := hstream ha
    refine ⟨_, hkey, List.length_take_of_le hlen, fun longer hle ha' => ?_⟩
    exact ⟨_, (hstream ha').2, List.take_prefix_take_left hle⟩
  · have run (n : Nat) := @derive_pbkdf1 { options with iterations := n } hm password
    simp only [run]
    exact pbkdf1_add hc k password options.salt hl

/-- One digest of MD5 has sixteen bytes, of which five are taken after five iterations. -/
theorem derive_outcomes_md5 :
    derive { method := .pbkdf1, hash := .md5, iterations := 0 } [7] 17 =
      .error .invalidIterationCount ∧
    derive { method := .pbkdf1, hash := .md5, iterations := 2 } [7] 17 =
      .error (.derivedKeyTooLong 17 16) ∧
    (∃ key, derive { hash := .md5, iterations := 2 } [7] 5 = .ok key ∧ key.length = 5 ∧
      ∃ longer, derive { hash := .md5, iterations := 2 } [7] 17 = .ok longer ∧ key <+: longer) ∧
    ∃ full, derive { method := .pbkdf1, hash := .md5, iterations := 2 } [7] 16 = .ok full ∧
      full.length = 16 ∧
      derive { method := .pbkdf1, hash := .md5, iterations := 5 } [7] 5 =
        .ok ((Hash.md5.digest^[3] full).take 5) := by
  obtain ⟨key, hkey, hlen, hlonger⟩ := (derive_outcomes { hash := .md5, iterations := 2 } [7]).2.1
    (by decide) 5 (show 5 ≤ maxBlocks * 16 by decide)
  refine ⟨((derive_outcomes _ [7]).1 17 _).2 (.inl ⟨rfl, rfl⟩),
    ((derive_outcomes _ [7]).1 17 _).2 (.inr ⟨by decide, rfl, by decide, rfl⟩),
    ⟨key, hkey, hlen, hlonger 17 (by decide) (show 17 ≤ maxBlocks * 16 by decide)⟩, ?_⟩
  exact (derive_outcomes { method := .pbkdf1, hash := .md5 } [7]).2.2 rfl 2 3 5 (by decide)
    (by decide)

end PasswordKey

end SymmetricCipher
