import SymmetricCipher.Bytes.Basic
import SymmetricCipher.Cipher.Aes.Substitution

/-!
# The state of AES and the steps of a round

A block is a square of four columns of four bytes, filled column by column. Each step of a round
stands here together with the step that undoes it.
-/

namespace SymmetricCipher.Aes

/-- Four bytes: a column of the state, or a word of the key. -/
structure Column where
  b0 : UInt8
  b1 : UInt8
  b2 : UInt8
  b3 : UInt8
  deriving DecidableEq, Repr

namespace Column

/-- Applies a function to every byte of a column. -/
@[inline] def map (f : UInt8 → UInt8) (c : Column) : Column := ⟨f c.b0, f c.b1, f c.b2, f c.b3⟩

/-- The exclusive or of two columns. -/
def xor (c d : Column) : Column := ⟨c.b0 ^^^ d.b0, c.b1 ^^^ d.b1, c.b2 ^^^ d.b2, c.b3 ^^^ d.b3⟩

/-- Moves every byte up by one place, the first to the end. -/
def rotate (c : Column) : Column := ⟨c.b1, c.b2, c.b3, c.b0⟩

/-- The column of no bytes set, which stands for a word that is not there. -/
def zero : Column := ⟨0, 0, 0, 0⟩

/-- The four bytes of a column. -/
def toBytes (c : Column) : Bytes := [c.b0, c.b1, c.b2, c.b3]

/-- The column that starts at place `i` of a byte string. -/
def ofBytes (data : Bytes) (i : Nat) : Column :=
  ⟨data.getD i 0, data.getD (i + 1) 0, data.getD (i + 2) 0, data.getD (i + 3) 0⟩

end Column

/-- A block of sixteen bytes, as four columns. -/
structure State where
  c0 : Column
  c1 : Column
  c2 : Column
  c3 : Column
  deriving DecidableEq, Repr

namespace State

/-- Applies a function to every column. -/
@[inline] def map (f : Column → Column) (s : State) : State := ⟨f s.c0, f s.c1, f s.c2, f s.c3⟩

/-- The state that a block of sixteen bytes fills. -/
def ofBytes (block : Bytes) : State :=
  ⟨.ofBytes block 0, .ofBytes block 4, .ofBytes block 8, .ofBytes block 12⟩

/-- The sixteen bytes of a state. -/
def toBytes (s : State) : Bytes :=
  s.c0.toBytes ++ s.c1.toBytes ++ s.c2.toBytes ++ s.c3.toBytes

/-- Masks the state with a round key. -/
def addKey (key s : State) : State :=
  ⟨s.c0.xor key.c0, s.c1.xor key.c1, s.c2.xor key.c2, s.c3.xor key.c3⟩

/-- Replaces every byte by its entry in the substitution table. -/
def substitute (s : State) : State := s.map (·.map Aes.substitute)

/-- Undoes the substitution of every byte. -/
def unsubstitute (s : State) : State := s.map (·.map Aes.unsubstitute)

/-- Rotates row `r` to the left by `r` places. -/
def shiftRows (s : State) : State :=
  ⟨⟨s.c0.b0, s.c1.b1, s.c2.b2, s.c3.b3⟩, ⟨s.c1.b0, s.c2.b1, s.c3.b2, s.c0.b3⟩,
    ⟨s.c2.b0, s.c3.b1, s.c0.b2, s.c1.b3⟩, ⟨s.c3.b0, s.c0.b1, s.c1.b2, s.c2.b3⟩⟩

/-- Rotates row `r` to the right by `r` places. -/
def unshiftRows (s : State) : State :=
  ⟨⟨s.c0.b0, s.c3.b1, s.c2.b2, s.c1.b3⟩, ⟨s.c1.b0, s.c0.b1, s.c3.b2, s.c2.b3⟩,
    ⟨s.c2.b0, s.c1.b1, s.c0.b2, s.c3.b3⟩, ⟨s.c3.b0, s.c2.b1, s.c1.b2, s.c0.b3⟩⟩

end State

/-- Multiplication by `x` in the field of 256 elements modulo `x^8 + x^4 + x^3 + x + 1`. -/
def timesX (a : UInt8) : UInt8 := if a &&& 0x80 = 0 then a <<< 1 else (a <<< 1) ^^^ 0x1b

/-- Adds to `sum` the products of `a` with the `n` low bits of `b`. -/
def multiplyBits : Nat → UInt8 → UInt8 → UInt8 → UInt8
  | 0, _, _, sum => sum
  | n + 1, a, b, sum =>
    multiplyBits n (timesX a) (b >>> 1) (if b &&& 1 = 0 then sum else sum ^^^ a)

/-- Multiplication in the field of 256 elements. -/
def multiply (a b : UInt8) : UInt8 := multiplyBits 8 a b 0

/-- The product of a row of a matrix over the field with a column. -/
@[inline] def dot (m0 m1 m2 m3 : UInt8) (c : Column) : UInt8 :=
  multiply m0 c.b0 ^^^ multiply m1 c.b1 ^^^ multiply m2 c.b2 ^^^ multiply m3 c.b3

/-- The column mixing matrix, whose rows are turns of 2, 3, 1, 1, applied to a column. -/
def mixColumn (c : Column) : Column :=
  ⟨dot 2 3 1 1 c, dot 1 2 3 1 c, dot 1 1 2 3 c, dot 3 1 1 2 c⟩

/-- The inverse matrix, whose rows are turns of 14, 11, 13, 9, applied to a column. -/
def unmixColumn (c : Column) : Column :=
  ⟨dot 14 11 13 9 c, dot 9 14 11 13 c, dot 13 9 14 11 c, dot 11 13 9 14 c⟩

namespace State

/-- Mixes every column. -/
def mixColumns (s : State) : State := s.map mixColumn

/-- Undoes the mixing of every column. -/
def unmixColumns (s : State) : State := s.map unmixColumn

end State

end SymmetricCipher.Aes
