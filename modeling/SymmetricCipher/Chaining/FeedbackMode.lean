import SymmetricCipher.Chaining.Run
import SymmetricCipher.Chaining.State
import SymmetricCipher.Cipher.Block

/-!
# CFB and CFB8

The modes that feed the ciphertext back. In CFB, `Cᵢ = Pᵢ ⊕ E(Cᵢ₋₁)` block by block; the register
holds the ciphertext of the current block up to the position and the rest of its keystream behind
it. In CFB8 every byte is masked by the first byte of the encrypted register, and the ciphertext
byte is shifted in at the end. Both directions use encryption only.
-/

namespace SymmetricCipher

/-- The register in which CFB finds the next keystream byte. -/
def cfbRegister (cipher : BlockCipher) (s : ChainState) : Bytes :=
  if s.position = 0 then cipher.encryptBlock s.register else s.register

/-- One byte in CFB: it is masked, and the ciphertext byte takes the place of its mask. -/
def cfbStep (cipher : BlockCipher) (direction : Direction) (s : ChainState) (byte : UInt8) :
    UInt8 × ChainState :=
  let register := cfbRegister cipher s
  let out := byte ^^^ register.getD s.position 0
  let ciphertext := match direction with
    | .encrypt => out
    | .decrypt => byte
  (out, { s with
    register := register.set s.position ciphertext
    position := (s.position + 1) % cipher.blockSize })

/-- One byte in CFB8: it is masked, and the ciphertext byte is shifted into the register. -/
def cfb8Step (cipher : BlockCipher) (direction : Direction) (s : ChainState) (byte : UInt8) :
    UInt8 × ChainState :=
  let out := byte ^^^ (cipher.encryptBlock s.register).headD 0
  let ciphertext := match direction with
    | .encrypt => out
    | .decrypt => byte
  (out, { s with register := s.register.drop 1 ++ [ciphertext] })

/-- Runs data through CFB. -/
def cfb (cipher : BlockCipher) (direction : Direction) : ChainState → Bytes → Bytes × ChainState :=
  mapState (cfbStep cipher direction)

/-- Runs data through CFB8. -/
def cfb8 (cipher : BlockCipher) (direction : Direction) : ChainState → Bytes → Bytes × ChainState :=
  mapState (cfb8Step cipher direction)

end SymmetricCipher
