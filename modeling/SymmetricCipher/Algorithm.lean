import SymmetricCipher.Mode

/-!
# Algorithms

The symmetric algorithms, their names and sizes, the key lengths they accept and the modes they
run in.
-/

namespace SymmetricCipher

/-- A symmetric algorithm. -/
inductive Algorithm where
  | aes
  | twofish
  | des
  /-- Triple DES, the three keys used inside each block. -/
  | tripleDes
  /-- Triple DES as three chained CBC layers, one for each key. -/
  | tripleDesInnerCbc
  | rc4
  deriving DecidableEq, Repr

namespace Algorithm

/-- All algorithms. -/
def all : List Algorithm := [aes, twofish, des, tripleDes, tripleDesInnerCbc, rc4]

/-- The name of an algorithm. -/
def name : Algorithm → String
  | aes => "aes"
  | twofish => "twofish"
  | des => "des"
  | tripleDes => "3des"
  | tripleDesInnerCbc => "3des-inner-cbc"
  | rc4 => "rc4"

/-- Other names that algorithms go by. -/
def aliases : List (String × Algorithm) :=
  [("rijndael", aes), ("tripledes", tripleDes), ("des3", tripleDes), ("des-ede3", tripleDes),
    ("3cbc", tripleDesInnerCbc), ("arcfour", rc4)]

/-- The algorithm with the given name or alias in any mixture of ASCII upper and lower case. -/
def ofName? (text : String) : Option Algorithm :=
  match aliases.lookup text.toLower with
  | some algorithm => some algorithm
  | none => all.find? (·.name == text.toLower)

/-- The block size in bytes; a stream cipher counts as having blocks of one byte. -/
def blockSize : Algorithm → Nat
  | aes | twofish => 16
  | des | tripleDes | tripleDesInnerCbc => 8
  | rc4 => 1

/-- RC4 is the one stream cipher. -/
def isStream (algorithm : Algorithm) : Bool := algorithm == rc4

/-- The key length in bytes that holds until another one is set. -/
def defaultKeyLength : Algorithm → Nat
  | aes | twofish | rc4 => 16
  | des => 8
  | tripleDes | tripleDesInnerCbc => 24

/-- Whether a key of `length` bytes is accepted. -/
def acceptsKeyLength (algorithm : Algorithm) (length : Nat) : Bool :=
  match algorithm with
  | aes => length == 16 || length == 24 || length == 32
  | twofish => 0 < length
  | des => length == 8
  | tripleDes | tripleDesInnerCbc => length == 8 || length == 16 || length == 24
  | rc4 => 1 ≤ length && length ≤ 256

/-- A stream cipher runs in STREAM mode only, the layered Triple DES in CBC only, and every other
block cipher in each mode but STREAM. -/
def supports (algorithm : Algorithm) (mode : Mode) : Bool :=
  if algorithm.isStream then mode == .stream
  else
    match algorithm with
    | tripleDesInnerCbc => mode == .cbc
    | _ => mode != .stream

/-- No block is empty. -/
theorem blockSize_pos (algorithm : Algorithm) : 0 < algorithm.blockSize := by
  cases algorithm <;> decide

end Algorithm

end SymmetricCipher
