import SymmetricCipher.Backend.Provider
import SymmetricCipher.Backend.Simulated

/-!
# Backends and their sessions

A backend offers to run some modes of some algorithms on its own, in a session, or to give single
blocks from which any mode can be built.
-/

namespace SymmetricCipher

/-- A backend. -/
inductive Backend where
  /-- The built-in backend, over a suite of ciphers. -/
  | provider (suite : Provider.Suite := .standard)
  | simulated (s : Simulated)

/-- A session with a backend. -/
inductive Session where
  | provider (s : Provider.Session)
  | simulated (s : Simulated.Session)

namespace Backend

/-- The name of a backend. -/
def name : Backend → String
  | provider _ => Provider.name
  | simulated s => s.name

/-- Whether the backend runs the mode on its own under keys of the given length. -/
def isAvailable : Backend → Algorithm → Mode → Nat → Bool
  | provider _ => Provider.isNative
  | simulated s => s.isNative

/-- Whether the backend gives single blocks of the algorithm under keys of the given length. -/
def supportsRawBlock : Backend → Algorithm → Nat → Bool
  | provider _ => Provider.supports
  | simulated s => s.hasRawBlock

/-- Opens a session at the start of a stream. A simulated one is known by the ticket. -/
def init (backend : Backend) (ticket : Nat) (algorithm : Algorithm) (mode : Mode)
    (key iv : Bytes) : Except CipherError Session :=
  match backend with
  | provider suite => (Provider.Session.init suite algorithm mode key iv).map .provider
  | simulated s => (s.init ticket algorithm mode key iv).map .simulated

/-- The cipher for single blocks. -/
def rawBlock (backend : Backend) (algorithm : Algorithm) (key : Bytes) :
    Except CipherError BlockCipher :=
  match backend with
  | provider suite => Provider.cipher algorithm key suite
  | simulated s => s.rawBlock algorithm key

end Backend

namespace Session

/-- The ticket of a simulated session. The built-in backend has nothing to release, and so its
sessions have none. -/
def ticket? : Session → Option Nat
  | provider _ => none
  | simulated s => some s.ticket

/-- Runs data through a direction. -/
def transform (session : Session) (direction : Direction) (data : Bytes) :
    Except CipherError Bytes × Session :=
  match session with
  | provider s =>
    match s.transform direction data with
    | .error e => (.error e, session)
    | .ok (out, s) => (.ok out, .provider s)
  | simulated s =>
    let (result, s) := s.transform direction data
    (result, .simulated s)

/-- Takes both directions back to the start of a stream; a refusal changes nothing. -/
def restart (session : Session) (iv : Bytes) : Except CipherError Session :=
  match session with
  | provider s => (s.restart iv).map .provider
  | simulated s => (s.restart iv).map .simulated

end Session

end SymmetricCipher
