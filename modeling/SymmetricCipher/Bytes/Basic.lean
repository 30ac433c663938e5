/-!
# Byte strings

Data, keys and registers are lists of bytes. This module masks one byte string by another, fits a
byte string to a given length, and cuts a byte string into its whole blocks and the rest.
-/

namespace SymmetricCipher

/-- A byte string. -/
abbrev Bytes := List UInt8

namespace Bytes

/-- The exclusive or of two byte strings, byte by byte, up to the shorter length. -/
def xor (a b : Bytes) : Bytes := List.zipWith (· ^^^ ·) a b

/-- `fit n data` is `data` cut to `n` bytes, or filled up with null bytes to `n`. -/
def fit (n : Nat) (data : Bytes) : Bytes := data.take n ++ List.replicate (n - data.length) 0

/-- The first `k` blocks of `n` bytes each. -/
def firstBlocks (n : Nat) : Nat → Bytes → List Bytes
  | 0, _ => []
  | k + 1, data => data.take n :: firstBlocks n k (data.drop n)

/-- The blocks of `n` bytes that fit into the data, in order. -/
def wholeBlocks (n : Nat) (data : Bytes) : List Bytes := firstBlocks n (data.length / n) data

/-- What is left of the data after its whole blocks of `n` bytes. -/
def partialBlock (n : Nat) (data : Bytes) : Bytes := data.drop (data.length / n * n)

/-- Cuts the data into pieces of `n` bytes, the last piece being shorter if the length asks for
it. -/
def pieces (n : Nat) (data : Bytes) : List Bytes :=
  let rest := partialBlock n data
  if rest.isEmpty then wholeBlocks n data else wholeBlocks n data ++ [rest]

/-- The longer of two lists is cut to the shorter one. -/
theorem length_xor (a b : Bytes) : (xor a b).length = min a.length b.length := by
  simp [xor]

/-- A list is cut or filled up to the length that is asked for. -/
theorem length_fit (n : Nat) (data : Bytes) : (fit n data).length = n := by
  simp [fit]
  omega

/-- A byte string that is as long as asked stays as it is. -/
theorem fit_length (data : Bytes) : fit data.length data = data := by
  simp [fit]

/-- The first blocks, put together again, are a front piece of the data. -/
theorem flatten_firstBlocks (n k : Nat) (data : Bytes) :
    (firstBlocks n k data).flatten = data.take (k * n) := by
  induction k generalizing data with
  | zero => simp [firstBlocks]
  | succ k ih =>
    rw [firstBlocks, List.flatten_cons, ih, Nat.succ_mul, Nat.add_comm (k * n) n, List.take_add]

/-- Whole blocks and rest make up the data. -/
theorem wholeBlocks_append_partialBlock (n : Nat) (data : Bytes) :
    (wholeBlocks n data).flatten ++ partialBlock n data = data := by
  rw [wholeBlocks, flatten_firstBlocks, partialBlock, List.take_append_drop]

/-- There are as many whole blocks as the length holds. -/
theorem length_wholeBlocks (n : Nat) (data : Bytes) :
    (wholeBlocks n data).length = data.length / n := by
  have hfirst (k : Nat) : (firstBlocks n k data).length = k := by
    induction k generalizing data with
    | zero => rfl
    | succ k ih => rw [firstBlocks, List.length_cons, ih]
  exact hfirst _

/-- Every one of the first blocks has `n` bytes where the data has that many. -/
theorem length_of_mem_firstBlocks {n k : Nat} {data block : Bytes} (h : k * n ≤ data.length)
    (hb : block ∈ firstBlocks n k data) : block.length = n := by
  induction k generalizing data with
  | zero => simp [firstBlocks] at hb
  | succ k ih =>
    rw [Nat.succ_mul] at h
    rcases List.mem_cons.1 hb with rfl | hb
    · simp
      omega
    · exact ih (by simp; omega) hb

/-- Every whole block is of the block size. -/
theorem length_of_mem_wholeBlocks {n : Nat} {data block : Bytes}
    (hb : block ∈ wholeBlocks n data) : block.length = n :=
  length_of_mem_firstBlocks (Nat.div_mul_le_self _ _) hb

end Bytes

end SymmetricCipher
