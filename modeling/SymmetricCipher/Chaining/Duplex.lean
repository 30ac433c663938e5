import SymmetricCipher.Chaining.BlockMode
import SymmetricCipher.Chaining.FeedbackMode
import SymmetricCipher.Chaining.KeystreamMode
import SymmetricCipher.Cipher.Rc4

/-!
# Both directions of a mode

A duplex keeps one chaining state for encryption and another for decryption. The two never touch
each other, and a refused call changes neither.
-/

namespace SymmetricCipher

/-- Runs data through a mode, without asking whether it ends with a whole block. STREAM has no
block cipher to run. -/
def runMode (mode : Mode) (cipher : BlockCipher) (direction : Direction) (s : ChainState)
    (data : Bytes) : Except CipherError (Bytes × ChainState) :=
  match mode with
  | .ecb => .ok (ecb cipher direction s data)
  | .cbc => .ok (cbc cipher direction s data)
  | .ctr => .ok (ctr cipher s data)
  | .cfb => .ok (cfb cipher direction s data)
  | .cfb8 => .ok (cfb8 cipher direction s data)
  | .ofb => .ok (ofb cipher s data)
  | .stream => .error .streamModeOnBlockCipher

/-- A mode with the chaining states of its two directions. -/
structure Duplex where
  mode : Mode
  encrypting : ChainState
  decrypting : ChainState
  deriving DecidableEq, Repr

namespace Duplex

/-- Both directions at the start of their stream, for an initialization vector of one block. -/
def start (mode : Mode) (iv : Bytes) : Duplex := ⟨mode, .start iv, .start iv⟩

/-- Both directions back at the start of their stream. -/
def reset (d : Duplex) (iv : Bytes) : Duplex := start d.mode iv

/-- The chaining state of a direction. -/
def state (d : Duplex) : Direction → ChainState
  | .encrypt => d.encrypting
  | .decrypt => d.decrypting

/-- Replaces the chaining state of a direction. -/
def setState (d : Duplex) (direction : Direction) (s : ChainState) : Duplex :=
  match direction with
  | .encrypt => { d with encrypting := s }
  | .decrypt => { d with decrypting := s }

/-- Runs data through a direction. In ECB and CBC it has to end with a whole block. -/
def apply (d : Duplex) (cipher : BlockCipher) (direction : Direction) (data : Bytes) :
    Except CipherError (Bytes × Duplex) :=
  if d.mode.isBlockMode ∧ data.length % cipher.blockSize ≠ 0 then
    .error (.misalignedInput data.length cipher.blockSize)
  else
    match runMode d.mode cipher direction (d.state direction) data with
    | .error e => .error e
    | .ok (out, s) => .ok (out, d.setState direction s)

end Duplex

/-- A keystream with the positions of its two directions. -/
structure StreamDuplex where
  /-- The keystream at its start. -/
  fresh : Rc4
  encrypting : Rc4
  decrypting : Rc4
  deriving DecidableEq

namespace StreamDuplex

/-- Both directions at the start of the keystream. -/
def start (fresh : Rc4) : StreamDuplex := ⟨fresh, fresh, fresh⟩

/-- Both directions back at the start of the keystream. -/
def reset (d : StreamDuplex) : StreamDuplex := start d.fresh

/-- Runs data through a direction. -/
def apply (d : StreamDuplex) (direction : Direction) (data : Bytes) : Bytes × StreamDuplex :=
  match direction with
  | .encrypt =>
    let (out, s) := d.encrypting.apply data
    (out, { d with encrypting := s })
  | .decrypt =>
    let (out, s) := d.decrypting.apply data
    (out, { d with decrypting := s })

end StreamDuplex

end SymmetricCipher
