import SymmetricCipher.Chaining.Duplex
import SymmetricCipher.Key

/-!
# Simulated backends

A backend that computes with the ciphers of this library but claims what it is told to claim and
fails when it is told to fail. It shows how a context copes with devices that come, go and break.
-/

namespace SymmetricCipher

/-- When a simulated backend fails. -/
structure Faults where
  /-- It opens no session. -/
  onInit : Bool := false
  /-- It gives no single blocks. -/
  onRawBlock : Bool := false
  /-- It does not go back to the start of a stream. -/
  onRestart : Bool := false
  /-- It processes so many calls of a session and no more. -/
  afterCalls : Option Nat := none
  /-- Its sessions fail with a padding error instead of a device error. -/
  asPadding : Bool := false
  deriving DecidableEq, Repr

/-- A simulated backend: its name, what it claims to offer, and when it fails. -/
structure Simulated where
  name : String
  /-- The modes it claims to run on its own, by algorithm and key length. -/
  isNative : Algorithm → Mode → Nat → Bool
  /-- The algorithms of which it claims to give single blocks, by key length. -/
  hasRawBlock : Algorithm → Nat → Bool
  faults : Faults

/-- What a simulated backend is told to claim: an algorithm, under keys of one length or of any. -/
structure Offer where
  algorithm : Algorithm
  keyLength : Option Nat := none
  deriving DecidableEq, Repr

/-- Whether an offer covers an algorithm under keys of the given length. -/
def Offer.covers (offer : Offer) (algorithm : Algorithm) (keyLength : Nat) : Bool :=
  offer.algorithm == algorithm && (offer.keyLength.getD keyLength) == keyLength

namespace Simulated

/-- The backend that claims the listed modes of the listed algorithms, and single blocks of
others. -/
def ofOffers (name : String) (native : List (Mode × Offer)) (raw : List Offer) (faults : Faults) :
    Simulated where
  name := name
  isNative algorithm mode keyLength :=
    native.any fun entry => entry.1 == mode && entry.2.covers algorithm keyLength
  hasRawBlock algorithm keyLength := raw.any fun offer => offer.covers algorithm keyLength
  faults := faults

/-- A session with a simulated backend. -/
structure Session where
  /-- The number the session is known by. -/
  ticket : Nat
  name : String
  faults : Faults
  cipher : BlockCipher
  duplex : Duplex
  /-- How many calls the session has taken. -/
  calls : Nat

/-- Opens a session at the start of a stream. -/
def init (s : Simulated) (ticket : Nat) (algorithm : Algorithm) (mode : Mode) (key iv : Bytes) :
    Except CipherError Session :=
  if s.faults.onInit then .error (.backendFailed s.name "no device")
  else
    match algorithm.blockCipher key with
    | .error e => .error e
    | .ok cipher => .ok ⟨ticket, s.name, s.faults, cipher, .start mode iv, 0⟩

/-- The cipher for single blocks. -/
def rawBlock (s : Simulated) (algorithm : Algorithm) (key : Bytes) :
    Except CipherError BlockCipher :=
  if s.faults.onRawBlock then .error (.backendFailed s.name "no device")
  else algorithm.blockCipher key

namespace Session

/-- Whether the session has taken as many calls as it processes. -/
def isExhausted (s : Session) : Bool :=
  match s.faults.afterCalls with
  | none => false
  | some limit => limit ≤ s.calls

/-- Runs data through a direction. A failed call counts as a call and changes nothing else. -/
def transform (s : Session) (direction : Direction) (data : Bytes) :
    Except CipherError Bytes × Session :=
  let counted := { s with calls := s.calls + 1 }
  if s.isExhausted then
    (.error (if s.faults.asPadding then .invalidPadding else .backendFailed s.name "device lost"),
      counted)
  else
    match s.duplex.apply s.cipher direction data with
    | .error e => (.error e, counted)
    | .ok (out, duplex) => (.ok out, { counted with duplex := duplex })

/-- Takes both directions back to the start of a stream. -/
def restart (s : Session) (iv : Bytes) : Except CipherError Session :=
  if s.faults.onRestart then .error (.backendFailed s.name "restart refused")
  else .ok { s with duplex := s.duplex.reset iv }

end Session

end Simulated

end SymmetricCipher
