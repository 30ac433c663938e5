import SymmetricCipher.Bytes.Word
import SymmetricCipher.Digest.Hash

/-!
# Keys from passwords

The two derivation methods of PKCS#5. PBKDF1 hashes over and over again and gives at most one
digest. PBKDF2 gives blocks of any number, each the exclusive or of a chain of message
authentication codes.
-/

namespace SymmetricCipher

/-- A derivation method. -/
inductive DerivationMethod where
  | pbkdf1
  | pbkdf2
  deriving DecidableEq, Repr

/-- How to derive a key from a password. -/
structure PasswordOptions where
  method : DerivationMethod := .pbkdf2
  hash : Hash := .sha1
  salt : Bytes := "cipher-modes/salt".toUTF8.toList
  iterations : Nat := 1000
  /-- The length of the key in bytes, if it is not that of the context. -/
  keyLength : Option Nat := none
  deriving DecidableEq, Repr

namespace PasswordKey

/-- The first bytes of the password and the salt, hashed as often as asked. -/
def pbkdf1 (password salt : Bytes) (hash : Hash) (iterations length : Nat) :
    Except CipherError Bytes :=
  if iterations = 0 then .error .invalidIterationCount
  else if hash.outputSize < length then .error (.derivedKeyTooLong length hash.outputSize)
  else .ok ((Nat.repeat hash.digest (iterations - 1) (hash.digest (password ++ salt))).take length)

/-- One link of the chain of a block: the next code, and the exclusive or of all so far. -/
def chainStep (code : Bytes → Bytes) (s : Bytes × Bytes) : Bytes × Bytes :=
  let next := code s.1
  (next, Bytes.xor s.2 next)

/-- The block of the given index: the exclusive or of a chain of codes, of which the first is that
of the salt and the index. -/
def pbkdf2Block (code : Bytes → Bytes) (salt : Bytes) (iterations : Nat) (index : UInt32) : Bytes :=
  let first := code (salt ++ Bytes.ofWord32BE index)
  (Nat.repeat (chainStep code) (iterations - 1) (first, first)).2

/-- The index that block `i` is encoded with, a word that counts from one. -/
def blockIndex (i : Nat) : UInt32 := UInt32.ofNat i + 1

/-- The number of blocks that a key of the given length takes. -/
def blockCount (hash : Hash) (length : Nat) : Nat :=
  (length + hash.outputSize - 1) / hash.outputSize

/-- The first `count` blocks, of `size` bytes each, one after the other in a buffer that is made for
all of them. -/
def fillBuffer (block : Nat → Bytes) (size count : Nat) : ByteArray :=
  count.fold (fun i _ buffer => (block i).foldl ByteArray.push buffer)
    (ByteArray.emptyWithCapacity (count * size))

/-- The first bytes of as many blocks as they take. -/
def pbkdf2 (password salt : Bytes) (hash : Hash) (iterations length : Nat) :
    Except CipherError Bytes :=
  if iterations = 0 then .error .invalidIterationCount
  else
    let block (i : Nat) : Bytes := pbkdf2Block (hash.hmac password) salt iterations (blockIndex i)
    let buffer := fillBuffer block hash.outputSize (blockCount hash length)
    .ok (buffer.data.toList.take length)

/-- Derives a key of the given length. -/
def derive (options : PasswordOptions) (password : Bytes) (length : Nat) :
    Except CipherError Bytes :=
  match options.method with
  | .pbkdf1 => pbkdf1 password options.salt options.hash options.iterations length
  | .pbkdf2 => pbkdf2 password options.salt options.hash options.iterations length

end PasswordKey

end SymmetricCipher
