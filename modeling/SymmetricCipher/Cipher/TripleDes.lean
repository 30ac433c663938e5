import SymmetricCipher.Cipher.Des.Basic

/-!
# Triple DES

Three DES keys in one key of up to 24 bytes, and the block cipher that encrypts under the first,
decrypts under the second and encrypts under the third.
-/

namespace SymmetricCipher.TripleDes

/-- Expands a key to three keys of eight bytes: eight bytes serve three times, sixteen bytes give
the first key again as the third. Other lengths are refused in the name of the algorithm. -/
def expandKey (algorithm : Algorithm) (key : Bytes) : Except CipherError Bytes :=
  if key.length = 8 then .ok (key ++ key ++ key)
  else if key.length = 16 then .ok (key ++ key.take 8)
  else if key.length = 24 then .ok key
  else .error (.invalidKeyLength algorithm key.length)

/-- Three values, one for each of the DES keys. -/
structure Layers (α : Type) where
  first : α
  second : α
  third : α

/-- The round keys of the three DES keys of an expanded key. -/
def schedules (expanded : Bytes) : Layers (List UInt64) :=
  ⟨Des.roundKeys (expanded.take 8), Des.roundKeys ((expanded.drop 8).take 8),
    Des.roundKeys (expanded.drop 16)⟩

/-- The three DES ciphers of a key. -/
def layers (algorithm : Algorithm) (key : Bytes) : Except CipherError (Layers BlockCipher) :=
  match expandKey algorithm key with
  | .error e => .error e
  | .ok expanded =>
    let keys := schedules expanded
    .ok ⟨Des.cipherOf keys.first, Des.cipherOf keys.second, Des.cipherOf keys.third⟩

/-- Encrypts under the first, decrypts under the second and encrypts under the third key. -/
def cipherOf (keys : Layers (List UInt64)) : BlockCipher where
  blockSize := 8
  encryptBlock block :=
    Des.encryptBlock keys.third (Des.decryptBlock keys.second (Des.encryptBlock keys.first block))
  decryptBlock block :=
    Des.decryptBlock keys.first (Des.encryptBlock keys.second (Des.decryptBlock keys.third block))
  blockSize_pos := (Des.cipherOf keys.first).blockSize_pos
  length_encryptBlock _ _ := rfl
  length_decryptBlock _ _ := rfl

/-- Triple DES under a key of 8, 16 or 24 bytes. -/
def cipher (key : Bytes) : Except CipherError BlockCipher :=
  match expandKey .tripleDes key with
  | .error e => .error e
  | .ok expanded => .ok (cipherOf (schedules expanded))

end SymmetricCipher.TripleDes
