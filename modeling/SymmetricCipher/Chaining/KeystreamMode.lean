import SymmetricCipher.Bytes.Counter
import SymmetricCipher.Chaining.Run
import SymmetricCipher.Chaining.State
import SymmetricCipher.Cipher.Block

/-!
# CTR and OFB

The modes that make a keystream of their own and mask the data with it, so that encryption and
decryption are the same. The `i`-th keystream block is `E(T + i)` for the counter `T` in CTR and
`E` applied `i + 1` times to the initialization vector in OFB. What is left of a keystream block
serves the next call.
-/

namespace SymmetricCipher

/-- One byte in CTR: at the start of a block the counter is encrypted and moves on. -/
def ctrStep (cipher : BlockCipher) (s : ChainState) (byte : UInt8) : UInt8 × ChainState :=
  let s := if s.position = 0
    then { s with carry := cipher.encryptBlock s.register, register := Bytes.increment s.register }
    else s
  (byte ^^^ s.carry.getD s.position 0,
    { s with position := (s.position + 1) % cipher.blockSize })

/-- One byte in OFB: at the start of a block the register is encrypted. -/
def ofbStep (cipher : BlockCipher) (s : ChainState) (byte : UInt8) : UInt8 × ChainState :=
  let s := if s.position = 0 then { s with register := cipher.encryptBlock s.register } else s
  (byte ^^^ s.register.getD s.position 0,
    { s with position := (s.position + 1) % cipher.blockSize })

/-- Runs data through CTR. -/
def ctr (cipher : BlockCipher) : ChainState → Bytes → Bytes × ChainState :=
  mapState (ctrStep cipher)

/-- Runs data through OFB. -/
def ofb (cipher : BlockCipher) : ChainState → Bytes → Bytes × ChainState :=
  mapState (ofbStep cipher)

end SymmetricCipher
