import SymmetricCipher.Cipher.Aes.Basic
import SymmetricCipher.Cipher.Rc4
import SymmetricCipher.Cipher.TripleDes
import SymmetricCipher.Cipher.Twofish.Basic

/-!
# Keys of an algorithm

How a key is brought to the form that an algorithm takes, and the software cipher it gives.
-/

namespace SymmetricCipher.Algorithm

/-- Brings a key to the form the algorithm takes: a Twofish key is filled up or cut, a Triple DES
key expanded to three keys, and every other key stays as it is if its length is accepted. -/
def normalizeKey (algorithm : Algorithm) (key : Bytes) : Except CipherError Bytes :=
  match algorithm with
  | twofish => Twofish.normalizeKey key
  | tripleDes | tripleDesInnerCbc => TripleDes.expandKey algorithm key
  | aes | des | rc4 =>
    if algorithm.acceptsKeyLength key.length then .ok key
    else .error (.invalidKeyLength algorithm key.length)

/-- The software block cipher under a key. The layered Triple DES and the stream cipher have
none. -/
def blockCipher (algorithm : Algorithm) (key : Bytes) : Except CipherError BlockCipher :=
  match algorithm with
  | aes => Aes.cipher key
  | twofish => Twofish.cipher key
  | des => Des.cipher key
  | tripleDes => TripleDes.cipher key
  | tripleDesInnerCbc | rc4 => .error (.unsupportedMode algorithm .ecb)

/-- The cipher of a key works on the blocks of its algorithm. -/
theorem blockSize_blockCipher {algorithm : Algorithm} {key : Bytes} {cipher : BlockCipher}
    (h : algorithm.blockCipher key = .ok cipher) : cipher.blockSize = algorithm.blockSize := by
  cases algorithm with
  | aes =>
    simp only [blockCipher, Aes.cipher] at h
    split at h <;> cases h
    rfl
  | twofish =>
    simp only [blockCipher, Twofish.cipher] at h
    split at h <;> cases h
    rfl
  | des =>
    simp only [blockCipher, Des.cipher] at h
    split at h <;> cases h
    rfl
  | tripleDes =>
    simp only [blockCipher, TripleDes.cipher] at h
    split at h <;> cases h
    rfl
  | tripleDesInnerCbc => cases h
  | rc4 => cases h

/-- The three DES ciphers of the layered Triple DES. -/
def innerLayers (algorithm : Algorithm) (key : Bytes) :
    Except CipherError (TripleDes.Layers BlockCipher) :=
  TripleDes.layers algorithm key

/-- The keystream under a key, which only the stream cipher has. -/
def keystream (algorithm : Algorithm) (key : Bytes) : Except CipherError Rc4 :=
  match algorithm with
  | rc4 => Rc4.ofKey key
  | _ => .error (.unsupportedMode algorithm .stream)

end SymmetricCipher.Algorithm
