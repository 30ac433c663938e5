import SymmetricCipher.Chaining.Run
import SymmetricCipher.Error

/-!
# RC4

A stream cipher: the key shuffles the 256 bytes, and each keystream byte is drawn from them by
another swap.
-/

namespace SymmetricCipher

/-- The state of the keystream: the shuffled bytes and two places in them. -/
structure Rc4 where
  bytes : Vector UInt8 256
  i : UInt8
  j : UInt8
  deriving DecidableEq

namespace Rc4

/-- The bytes in their natural order. -/
def identity : Vector UInt8 256 := Vector.ofFn fun i => UInt8.ofNat i

/-- Swaps the bytes at two places. -/
@[inline] def swap (bytes : Vector UInt8 256) (i j : UInt8) : Vector UInt8 256 :=
  bytes.swap i.toNat j.toNat i.toNat_lt j.toNat_lt

/-- One step of the shuffle: the second place moves on by the byte at the first place and by the
key byte, and the two places are swapped. -/
def shuffleStep (key : Array UInt8) (s : Vector UInt8 256 × UInt8) (i : Nat) :
    Vector UInt8 256 × UInt8 :=
  let place := UInt8.ofNat i
  let j := s.2 + s.1.get place.toFin + key.getD (i % key.size) 0
  (swap s.1 place j, j)

/-- The bytes, shuffled by a key. -/
def shuffle (key : Bytes) : Vector UInt8 256 :=
  ((List.range 256).foldl (shuffleStep key.toArray) (identity, 0)).1

/-- The keystream of a key of 1 to 256 bytes, at its start. -/
def ofKey (key : Bytes) : Except CipherError Rc4 :=
  if key.length = 0 ∨ 256 < key.length then .error (.invalidKeyLength .rc4 key.length)
  else .ok ⟨shuffle key, 0, 0⟩

/-- Draws the next keystream byte. -/
def next (s : Rc4) : UInt8 × Rc4 :=
  let i := s.i + 1
  let j := s.j + s.bytes.get i.toFin
  let bytes := swap s.bytes i j
  (bytes.get (bytes.get i.toFin + bytes.get j.toFin).toFin, ⟨bytes, i, j⟩)

/-- Masks one byte with the next keystream byte. -/
def step (s : Rc4) (byte : UInt8) : UInt8 × Rc4 :=
  let (mask, s) := s.next
  (byte ^^^ mask, s)

/-- Masks the data with the keystream, and moves on by as many bytes. -/
def apply (s : Rc4) (data : Bytes) : Bytes × Rc4 := mapState step s data

end Rc4

end SymmetricCipher
