import SymmetricCipher.Chaining.Run
import SymmetricCipher.Key

/-!
# The built-in backend

The backend that is always there. It has the block ciphers under exactly the key lengths of their
normal form, gives single blocks to emulate any mode, and runs ECB and CBC on its own: each
direction holds the ciphertext block that masks its next one. Its ciphers and its chaining come in a
suite, so that nothing here hangs on how they are made.
-/

namespace SymmetricCipher.Provider

/-- The ciphers that the backend takes as they come, and the way they are chained in CBC. -/
structure Suite where
  /-- The block cipher of an algorithm under a key, if the key has a length that it takes. -/
  keyed : Algorithm → Bytes → Option BlockCipher
  /-- Runs a block under its mask through CBC, and gives the mask of the next one. -/
  chainBlock : BlockCipher → Direction → Bytes → Bytes → Bytes × Bytes
  blockSize_keyed : ∀ {algorithm : Algorithm} {key : Bytes} {cipher : BlockCipher},
    keyed algorithm key = some cipher → cipher.blockSize = algorithm.blockSize

/-- The name of the backend. -/
def name : String := "rustcrypto"

/-- A failure of the backend. -/
def failure (reason : String) : CipherError := .backendFailed name reason

/-- Whether the backend has the algorithm under keys of the given length. -/
def supports (algorithm : Algorithm) (keyLength : Nat) : Bool :=
  match algorithm with
  | .aes | .twofish => keyLength == 16 || keyLength == 24 || keyLength == 32
  | .des => keyLength == 8
  | .tripleDes => keyLength == 24
  | .tripleDesInnerCbc | .rc4 => false

/-- Whether the backend runs the mode on its own. -/
def isNative (algorithm : Algorithm) (mode : Mode) (keyLength : Nat) : Bool :=
  (mode == .ecb || mode == .cbc) && supports algorithm keyLength

/-- The suite of this library's own ciphers. -/
def Suite.standard : Suite where
  keyed algorithm key :=
    match supports algorithm key.length, algorithm.blockCipher key with
    | true, .ok cipher => some cipher
    | _, _ => none
  chainBlock cipher direction mask block :=
    match direction with
    | .encrypt =>
      let out := cipher.encryptBlock (Bytes.xor block mask)
      (out, out)
    | .decrypt => (Bytes.xor (cipher.decryptBlock block) mask, block)
  blockSize_keyed := by
    intro algorithm key cipher h
    split at h
    · cases h
      exact Algorithm.blockSize_blockCipher ‹_›
    · cases h

/-- Whether the backend has a cipher of the algorithm at all; AES counts as an algorithm of its own
for each key length. -/
def provides (algorithm : Algorithm) (keyLength : Nat) : Bool :=
  match algorithm with
  | .aes => keyLength == 16 || keyLength == 24 || keyLength == 32
  | .twofish | .des | .tripleDes => true
  | .tripleDesInnerCbc | .rc4 => false

/-- The cipher of the backend under a key. It refuses algorithms it does not have, and keys that are
not in their normal form. -/
def cipher (algorithm : Algorithm) (key : Bytes) (suite : Suite := .standard) :
    Except CipherError BlockCipher :=
  if provides algorithm key.length then
    match suite.keyed algorithm key with
    | some cipher => .ok cipher
    | none =>
      .error (failure (algorithm.name ++ " rejected a " ++ Nat.repr key.length ++ "-byte key"))
  else .error (failure (algorithm.name ++ " is not provided"))

/-- How a session chains blocks. -/
inductive Chain where
  /-- No chaining. -/
  | plain
  /-- The masks of the next block to encrypt and of the next block to decrypt. -/
  | masked (encrypting decrypting : Bytes)
  deriving DecidableEq, Repr

/-- The chain of a mode at the start of a stream. -/
def Chain.start (mode : Mode) (blockSize : Nat) (iv : Bytes) : Except CipherError Chain :=
  match mode with
  | .ecb => .ok .plain
  | .cbc =>
    if iv.length = blockSize then .ok (.masked iv iv)
    else .error (failure ("iv of " ++ Nat.repr iv.length ++ " bytes rejected"))
  | other => .error (failure ("no native " ++ other.name ++ " mode"))

/-- An open session. -/
structure Session where
  suite : Suite
  mode : Mode
  cipher : BlockCipher
  chain : Chain

namespace Session

/-- Opens a session at the start of a stream. -/
def init (suite : Suite) (algorithm : Algorithm) (mode : Mode) (key iv : Bytes) :
    Except CipherError Session :=
  match Provider.cipher algorithm key suite with
  | .error e => .error e
  | .ok cipher =>
    match Chain.start mode cipher.blockSize iv with
    | .error e => .error e
    | .ok chain => .ok ⟨suite, mode, cipher, chain⟩

/-- Runs whole blocks through a chain. -/
def runChain (suite : Suite) (cipher : BlockCipher) (chain : Chain) (direction : Direction)
    (blocks : List Bytes) : List Bytes × Chain :=
  match chain, direction with
  | .plain, direction => (blocks.map (cipher.onBlock direction), .plain)
  | .masked encrypting decrypting, .encrypt =>
    let (outs, mask) := mapState (suite.chainBlock cipher .encrypt) encrypting blocks
    (outs, .masked mask decrypting)
  | .masked encrypting decrypting, .decrypt =>
    let (outs, mask) := mapState (suite.chainBlock cipher .decrypt) decrypting blocks
    (outs, .masked encrypting mask)

/-- Runs data that ends with a whole block through a direction; other data is refused. -/
def transform (s : Session) (direction : Direction) (data : Bytes) :
    Except CipherError (Bytes × Session) :=
  if data.length % s.cipher.blockSize ≠ 0 then
    .error (failure (Nat.repr data.length ++ " bytes is not a multiple of the "
      ++ Nat.repr s.cipher.blockSize ++ "-byte block"))
  else
    let (outs, chain) :=
      runChain s.suite s.cipher s.chain direction (Bytes.wholeBlocks s.cipher.blockSize data)
    .ok (outs.flatten, { s with chain := chain })

/-- Takes both directions back to the start of a stream. -/
def restart (s : Session) (iv : Bytes) : Except CipherError Session :=
  match Chain.start s.mode s.cipher.blockSize iv with
  | .error e => .error e
  | .ok chain => .ok { s with chain := chain }

end Session

end SymmetricCipher.Provider
