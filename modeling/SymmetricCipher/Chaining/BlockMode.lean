import SymmetricCipher.Chaining.Run
import SymmetricCipher.Chaining.State
import SymmetricCipher.Cipher.Block

/-!
# ECB and CBC

The modes that work on whole blocks. ECB treats every block on its own: `Cᵢ = E(Pᵢ)`. CBC masks
every block by the ciphertext block before it: `Cᵢ = E(Pᵢ ⊕ Cᵢ₋₁)`, the initialization vector
standing for `C₀`.
-/

namespace SymmetricCipher

/-- One block in ECB. -/
def ecbStep (cipher : BlockCipher) (direction : Direction) (s : ChainState) (block : Bytes) :
    Bytes × ChainState :=
  (cipher.onBlock direction block, s)

/-- Encrypts one block in CBC; the ciphertext block becomes the register. -/
def cbcEncryptStep (cipher : BlockCipher) (s : ChainState) (block : Bytes) : Bytes × ChainState :=
  let out := cipher.encryptBlock (Bytes.xor block s.register)
  (out, { s with register := out })

/-- Decrypts one block in CBC; the ciphertext block becomes the register. -/
def cbcDecryptStep (cipher : BlockCipher) (s : ChainState) (block : Bytes) : Bytes × ChainState :=
  (Bytes.xor (cipher.decryptBlock block) s.register, { s with register := block })

/-- Runs data through ECB. -/
def ecb (cipher : BlockCipher) (direction : Direction) : ChainState → Bytes → Bytes × ChainState :=
  mapBlocks (ecbStep cipher direction) cipher.blockSize

/-- Runs data through CBC. -/
def cbc (cipher : BlockCipher) : Direction → ChainState → Bytes → Bytes × ChainState
  | .encrypt => mapBlocks (cbcEncryptStep cipher) cipher.blockSize
  | .decrypt => mapBlocks (cbcDecryptStep cipher) cipher.blockSize

end SymmetricCipher
