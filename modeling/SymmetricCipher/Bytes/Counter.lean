import SymmetricCipher.Bytes.Basic

/-!
# Big-endian counters

A byte string read as a number, most significant byte first, and the successor of such a number
within its width.
-/

namespace SymmetricCipher.Bytes

/-- The number that a byte string spells, most significant byte first. -/
def toNumber (counter : Bytes) : Nat := counter.foldl (fun value byte => value * 256 + byte.toNat) 0

/-- Adds one to a counter, with the carry out of its first byte. -/
def addOne : Bytes → Bytes × Bool
  | [] => ([], true)
  | byte :: rest =>
    let (rest, carry) := addOne rest
    if carry then ((byte + 1) :: rest, byte == 255) else (byte :: rest, false)

/-- The next counter of the same width; the greatest one is followed by zero. -/
def increment (counter : Bytes) : Bytes := (addOne counter).1

/-- A counter keeps its width, also where it starts again at zero. -/
theorem length_increment (counter : Bytes) : (increment counter).length = counter.length := by
  unfold increment
  induction counter with
  | nil => rfl
  | cons byte rest ih =>
    simp only [addOne]
    split <;> simp [ih]

end SymmetricCipher.Bytes
