import SymmetricCipher.Bytes.Basic

/-!
# Chaining state

What a mode of operation carries from one call to the next, for one direction.
-/

namespace SymmetricCipher

/-- The chaining state of one direction. -/
structure ChainState where
  /-- The working register: the last ciphertext block (CBC, CFB), the counter (CTR), the keystream
  block (OFB) or the shift register (CFB8). -/
  register : Bytes
  /-- The current keystream block of CTR. -/
  carry : Bytes
  /-- How many bytes of the current keystream block are used up. -/
  position : Nat
  deriving DecidableEq, Repr

/-- The state at the start of a stream: the register holds the initialization vector. -/
def ChainState.start (iv : Bytes) : ChainState := ⟨iv, List.replicate iv.length 0, 0⟩

end SymmetricCipher
