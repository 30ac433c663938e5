/-!
# Modes of operation

The seven ways to run a cipher over data, their names, and which of them work on whole blocks or
start from an initialization vector.
-/

namespace SymmetricCipher

/-- A mode of operation. -/
inductive Mode where
  /-- Every block on its own. -/
  | ecb
  /-- Every block masked by the ciphertext block before it. -/
  | cbc
  /-- A keystream from an encrypted counter. -/
  | ctr
  /-- Ciphertext feedback, a block at a time. -/
  | cfb
  /-- Ciphertext feedback, a byte at a time. -/
  | cfb8
  /-- A keystream from the cipher's own output. -/
  | ofb
  /-- The keystream of a stream cipher, with no chaining. -/
  | stream
  deriving DecidableEq, Repr

namespace Mode

/-- All modes. -/
def all : List Mode := [ecb, cbc, ctr, cfb, cfb8, ofb, stream]

/-- The name of a mode. -/
def name : Mode → String
  | ecb => "ecb"
  | cbc => "cbc"
  | ctr => "ctr"
  | cfb => "cfb"
  | cfb8 => "cfb8"
  | ofb => "ofb"
  | stream => "stream"

/-- The mode with the given name in any mixture of ASCII upper and lower case. -/
def ofName? (text : String) : Option Mode := all.find? (·.name == text.toLower)

/-- ECB and CBC take whole blocks only, and so need padding. -/
def isBlockMode : Mode → Bool
  | ecb | cbc => true
  | _ => false

/-- All modes but ECB and STREAM start from an initialization vector. -/
def usesIv : Mode → Bool
  | ecb | stream => false
  | _ => true

end Mode

end SymmetricCipher
