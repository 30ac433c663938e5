import SymmetricCipher.Backend.Basic

/-!
# The ledger of sessions

A record of every session with a simulated backend that was opened or closed, each under a ticket
of its own. It shows that what is opened is closed again, once.
-/

namespace SymmetricCipher

/-- An entry of the ledger. -/
inductive SessionEvent where
  | opened (ticket : Nat)
  | closed (ticket : Nat)
  deriving DecidableEq, Repr

/-- What happened to sessions, the first event first. -/
abbrev Ledger := List SessionEvent

namespace Ledger

/-- How many sessions were opened. -/
def opened (ledger : Ledger) : Nat :=
  ledger.countP fun
    | .opened _ => true
    | .closed _ => false

/-- How many sessions were closed. -/
def closed (ledger : Ledger) : Nat :=
  ledger.countP fun
    | .opened _ => false
    | .closed _ => true

/-- Tickets are given out in order. -/
def nextTicket (ledger : Ledger) : Nat := ledger.opened

/-- Notes that a session was opened, if it has a ticket. -/
def noteOpened (ledger : Ledger) (ticket? : Option Nat) : Ledger :=
  ledger ++ (ticket?.map .opened).toList

/-- Notes that a session was closed, if it has a ticket. -/
def noteClosed (ledger : Ledger) (ticket? : Option Nat) : Ledger :=
  ledger ++ (ticket?.map .closed).toList

end Ledger

end SymmetricCipher
