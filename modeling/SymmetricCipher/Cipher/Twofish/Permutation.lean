/-!
# Tables of Twofish

The two fixed byte permutations, generated from tables of four-bit permutations, and the two
matrices that mix key bytes and round bytes.
-/

namespace SymmetricCipher.Twofish

/-- Four permutations of the four-bit numbers. -/
structure NibbleTables where
  t0 : List UInt8
  t1 : List UInt8
  t2 : List UInt8
  t3 : List UInt8

/-- The four-bit permutations behind the first byte permutation. -/
def nibbles0 : NibbleTables where
  t0 := [0x8, 0x1, 0x7, 0xD, 0x6, 0xF, 0x3, 0x2, 0x0, 0xB, 0x5, 0x9, 0xE, 0xC, 0xA, 0x4]
  t1 := [0xE, 0xC, 0xB, 0x8, 0x1, 0x2, 0x3, 0x5, 0xF, 0x4, 0xA, 0x6, 0x7, 0x0, 0x9, 0xD]
  t2 := [0xB, 0xA, 0x5, 0xE, 0x6, 0xD, 0x9, 0x0, 0xC, 0x8, 0xF, 0x3, 0x2, 0x4, 0x7, 0x1]
  t3 := [0xD, 0x7, 0xF, 0x4, 0x1, 0x2, 0x6, 0xE, 0x9, 0xB, 0x3, 0x0, 0x8, 0x5, 0xC, 0xA]

/-- The four-bit permutations behind the second byte permutation. -/
def nibbles1 : NibbleTables where
  t0 := [0x2, 0x8, 0xB, 0xD, 0xF, 0x7, 0x6, 0xE, 0x3, 0x1, 0x9, 0x4, 0x0, 0xA, 0xC, 0x5]
  t1 := [0x1, 0xE, 0x2, 0xB, 0x4, 0xC, 0x3, 0x7, 0x6, 0xD, 0xA, 0x5, 0xF, 0x9, 0x0, 0x8]
  t2 := [0x4, 0xC, 0x7, 0x5, 0x1, 0x6, 0x9, 0xA, 0x0, 0xE, 0xD, 0x8, 0x2, 0xB, 0x3, 0xF]
  t3 := [0xB, 0x9, 0x5, 0x1, 0xC, 0x3, 0xD, 0xE, 0x6, 0x4, 0x7, 0xF, 0x2, 0x0, 0x8, 0xA]

/-- Turns a four-bit number to the right by one bit. -/
def rotateNibble (x : UInt8) : UInt8 := ((x >>> 1) ||| (x <<< 3)) &&& 0x0f

/-- The linear mix of two four-bit numbers. -/
def mixNibbles (a b : UInt8) : UInt8 × UInt8 :=
  (a ^^^ b, a ^^^ rotateNibble b ^^^ ((a <<< 3) &&& 0x0f))

/-- The byte permutation that four tables make: two rounds of mixing and looking up. -/
def permuteByte (t : NibbleTables) (x : UInt8) : UInt8 :=
  let (a, b) := mixNibbles (x >>> 4) (x &&& 0x0f)
  let (a, b) := mixNibbles (t.t0.getD a.toNat 0) (t.t1.getD b.toNat 0)
  (t.t3.getD b.toNat 0 <<< 4) ||| t.t2.getD a.toNat 0

/-- A byte permutation as a table. -/
def tabulate (t : NibbleTables) : Vector UInt8 256 :=
  Vector.ofFn fun i => permuteByte t (UInt8.ofNat i)

/-- The table of the first byte permutation. -/
def table0 : Vector UInt8 256 := tabulate nibbles0

/-- The table of the second byte permutation. -/
def table1 : Vector UInt8 256 := tabulate nibbles1

/-- The first byte permutation. -/
def q0 (x : UInt8) : UInt8 := table0.get x.toFin

/-- The second byte permutation. -/
def q1 (x : UInt8) : UInt8 := table1.get x.toFin

/-- The matrix that mixes the four bytes of a word, row by row. -/
def mdsMatrix : List (List UInt8) :=
  [[0x01, 0xEF, 0x5B, 0x5B],
    [0x5B, 0xEF, 0xEF, 0x01],
    [0xEF, 0x5B, 0x01, 0xEF],
    [0xEF, 0x01, 0xEF, 0x5B]]

/-- The matrix that condenses eight key bytes to four, row by row. -/
def rsMatrix : List (List UInt8) :=
  [[0x01, 0xA4, 0x55, 0x87, 0x5A, 0x58, 0xDB, 0x9E],
    [0xA4, 0x56, 0x82, 0xF3, 0x1E, 0xC6, 0x68, 0xE5],
    [0x02, 0xA1, 0xFC, 0xC1, 0x47, 0xAE, 0x3D, 0x19],
    [0xA4, 0x55, 0x87, 0x5A, 0x58, 0xDB, 0x9E, 0x03]]

/-- The modulus of the field in which the first matrix works. -/
def mdsModulus : UInt16 := 0x169

/-- The modulus of the field in which the second matrix works. -/
def rsModulus : UInt16 := 0x14d

/-- Adds to `sum` the products of `a` with the `n` low bits of `b`, modulo a polynomial. -/
def multiplyBits (modulus : UInt16) : Nat → UInt16 → UInt8 → UInt16 → UInt16
  | 0, _, _, sum => sum
  | n + 1, a, b, sum =>
    let doubled := a <<< 1
    multiplyBits modulus n (if doubled &&& 0x100 = 0 then doubled else doubled ^^^ modulus) (b >>> 1)
      (if b &&& 1 = 0 then sum else sum ^^^ a)

/-- Multiplication in the field of 256 elements that the modulus gives. -/
def multiply (modulus : UInt16) (a b : UInt8) : UInt8 :=
  (multiplyBits modulus 8 a.toUInt16 b 0).toUInt8

end SymmetricCipher.Twofish
