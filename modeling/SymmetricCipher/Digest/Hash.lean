import SymmetricCipher.Digest.Md5
import SymmetricCipher.Digest.Sha1
import SymmetricCipher.Digest.Sha2
import SymmetricCipher.Error

/-!
# Hashes

The hash functions by name, and the message authentication code that each of them gives.
-/

namespace SymmetricCipher

/-- A hash function. -/
inductive Hash where
  | md5
  | sha1
  | sha224
  | sha256
  | sha384
  | sha512
  deriving DecidableEq, Repr

namespace Hash

/-- All hash functions. -/
def all : List Hash := [md5, sha1, sha224, sha256, sha384, sha512]

/-- The name of a hash function. -/
def name : Hash → String
  | md5 => "md5"
  | sha1 => "sha1"
  | sha224 => "sha224"
  | sha256 => "sha256"
  | sha384 => "sha384"
  | sha512 => "sha512"

/-- Reads the name of a hash function: letter case does not matter, nor do hyphens anywhere. -/
def ofName (text : String) : Except CipherError Hash :=
  let plain := String.ofList (text.toLower.toList.filter (· != '-'))
  match all.find? (·.name == plain) with
  | some hash => .ok hash
  | none => .error (.unsupportedHash text)

/-- The length of a digest in bytes. -/
def outputSize : Hash → Nat
  | md5 => 16
  | sha1 => 20
  | sha224 => 28
  | sha256 => 32
  | sha384 => 48
  | sha512 => 64

/-- The length in bytes of the blocks in which a message is hashed. -/
def blockSize : Hash → Nat
  | md5 | sha1 | sha224 | sha256 => 64
  | sha384 | sha512 => 128

/-- The digest of the data. -/
def digest : Hash → Bytes → Bytes
  | md5 => Md5.digest
  | sha1 => Sha1.digest
  | sha224 => Sha2.digest224
  | sha256 => Sha2.digest256
  | sha384 => Sha2.digest384
  | sha512 => Sha2.digest512

/-- The key of a message authentication code as one block; a longer key is hashed first. -/
def blockKey (hash : Hash) (key : Bytes) : Bytes :=
  Bytes.fit hash.blockSize (if hash.blockSize < key.length then hash.digest key else key)

/-- The message authentication code HMAC. -/
def hmac (hash : Hash) (key message : Bytes) : Bytes :=
  let key := hash.blockKey key
  hash.digest (key.map (· ^^^ 0x5c) ++ hash.digest (key.map (· ^^^ 0x36) ++ message))

/-- Every digest has the length of its hash function. -/
theorem length_digest (hash : Hash) (data : Bytes) :
    (hash.digest data).length = hash.outputSize := by
  cases hash <;>
    simp [digest, outputSize, Md5.length_digest, Sha1.length_digest, Sha2.digest224, Sha2.digest256,
      Sha2.digest384, Sha2.digest512, Sha2.length_run32, Sha2.length_run64]

/-- Every message authentication code has the length of a digest. -/
theorem length_hmac (hash : Hash) (key message : Bytes) :
    (hash.hmac key message).length = hash.outputSize := length_digest _ _

end Hash

end SymmetricCipher
