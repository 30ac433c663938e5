import SymmetricCipher.Backend.Selection

/-!
# Machines

What a context processes its data with: a block cipher run through a mode, three layers that are
chained each on its own, a keystream, or a session with a backend. A machine is built for one key
and one mode, at the start of a stream.
-/

namespace SymmetricCipher

/-- What a context processes its data with. -/
inductive Machine where
  /-- A block cipher, of this library or of a backend, that is run through a mode. -/
  | chained (cipher : BlockCipher) (duplex : Duplex)
  /-- Three DES layers, each with a chain of its own. -/
  | layered (ciphers : TripleDes.Layers BlockCipher) (duplexes : TripleDes.Layers Duplex)
  | keystream (duplex : StreamDuplex)
  /-- A session with a backend that runs the mode itself. -/
  | session (s : Session)

namespace Machine

/-- Runs data through three layers. To encrypt, the first layer encrypts, the second decrypts and
the third encrypts; to decrypt, each does the opposite, the third one first. -/
def applyLayers (ciphers : TripleDes.Layers BlockCipher) (duplexes : TripleDes.Layers Duplex) :
    Direction → Bytes → Except CipherError (Bytes × TripleDes.Layers Duplex)
  | .encrypt, data => do
    let (data, first) ← duplexes.first.apply ciphers.first .encrypt data
    let (data, second) ← duplexes.second.apply ciphers.second .decrypt data
    let (data, third) ← duplexes.third.apply ciphers.third .encrypt data
    return (data, ⟨first, second, third⟩)
  | .decrypt, data => do
    let (data, third) ← duplexes.third.apply ciphers.third .decrypt data
    let (data, second) ← duplexes.second.apply ciphers.second .encrypt data
    let (data, first) ← duplexes.first.apply ciphers.first .decrypt data
    return (data, ⟨first, second, third⟩)

/-- Runs data through a direction. -/
def apply (machine : Machine) (direction : Direction) (data : Bytes) :
    Except CipherError Bytes × Machine :=
  match machine with
  | chained cipher duplex =>
    match duplex.apply cipher direction data with
    | .error e => (.error e, machine)
    | .ok (out, duplex) => (.ok out, chained cipher duplex)
  | layered ciphers duplexes =>
    match applyLayers ciphers duplexes direction data with
    | .error e => (.error e, machine)
    | .ok (out, duplexes) => (.ok out, layered ciphers duplexes)
  | keystream duplex =>
    let (out, duplex) := duplex.apply direction data
    (.ok out, keystream duplex)
  | session s =>
    let (result, s) := s.transform direction data
    (result, session s)

/-- Takes both directions back to the start of a stream, which only a backend may refuse. -/
def restart (machine : Machine) (iv : Bytes) : Except CipherError Machine :=
  match machine with
  | chained cipher duplex => .ok (chained cipher (duplex.reset iv))
  | layered ciphers duplexes =>
    .ok (layered ciphers
      ⟨duplexes.first.reset iv, duplexes.second.reset iv, duplexes.third.reset iv⟩)
  | keystream duplex => .ok (keystream duplex.reset)
  | session s =>
    match s.restart iv with
    | .error e => .error e
    | .ok s => .ok (session s)

/-- The ticket of the session that the machine holds, if it has one. -/
def ticket? : Machine → Option Nat
  | session s => s.ticket?
  | _ => none

/-- The machine that runs on the ciphers of this library alone. -/
def software (algorithm : Algorithm) (mode : Mode) (key iv : Bytes) : Except CipherError Machine :=
  match algorithm, mode with
  | .tripleDesInnerCbc, _ =>
    match algorithm.innerLayers key with
    | .error e => .error e
    | .ok ciphers => .ok (layered ciphers ⟨.start .cbc iv, .start .cbc iv, .start .cbc iv⟩)
  | _, .stream =>
    match algorithm.keystream key with
    | .error e => .error e
    | .ok fresh => .ok (keystream (.start fresh))
  | _, _ =>
    match algorithm.blockCipher key with
    | .error e => .error e
    | .ok cipher => .ok (chained cipher (.start mode iv))

/-- The machine that runs on a backend: in a session, or on its single blocks. -/
def accelerated (backend : Backend) (emulate : Bool) (ticket : Nat) (algorithm : Algorithm)
    (mode : Mode) (key iv : Bytes) : Except CipherError Machine :=
  if emulate then
    match backend.rawBlock algorithm key with
    | .error e => .error e
    | .ok cipher => .ok (chained cipher (.start mode iv))
  else
    match backend.init ticket algorithm mode key iv with
    | .error e => .error e
    | .ok s => .ok (session s)

/-- The machine for a selection, with the engine it runs on. Where the backend fails, software takes
its place. -/
def ofSelection (selection : Selection) (ticket : Nat) (algorithm : Algorithm) (mode : Mode)
    (key iv : Bytes) : Except CipherError (Engine × Machine) :=
  let fallback := (software algorithm mode key iv).map fun machine => (Engine.software, machine)
  match selection with
  | .software => fallback
  | .accelerated backend emulate =>
    match accelerated backend emulate ticket algorithm mode key iv with
    | .ok machine => .ok (.accelerated, machine)
    | .error _ => fallback

end Machine

end SymmetricCipher
