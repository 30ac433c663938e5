import SymmetricCipher.Chaining.Run
import SymmetricCipher.Context.Process

/-!
# Calls

Everything that can be asked of a context, as data, so that a run of calls is a list.
-/

namespace SymmetricCipher

/-- A call on a context. -/
inductive Call where
  | setKey (key : Bytes)
  | setKeyLength (bits : Nat)
  | setPassword (password : Bytes) (options : PasswordOptions)
  | setIv (iv : Bytes)
  | setMode (mode : Mode)
  | setContinuous (on : Bool)
  | setPadding (on : Bool)
  | prefer (engine : Option Engine)
  | reset
  | process (direction : Direction) (data : Bytes)
  deriving DecidableEq, Repr

/-- The answer to a call: the data, if the call gives any, or the reason why it is refused. -/
abbrev Answer := Except CipherError (Option Bytes)

namespace Context

/-- The answer to a setting, and the context after it: as it was, if the setting is refused.
Settings that assign one field after the other do the same, since each looks first at all that it
may be refused for (`Fields.perform_eq_of_isSetting`). -/
def settle (c : Context) : Except CipherError Context → Answer × Context
  | .error e => (.error e, c)
  | .ok c => (.ok none, c)

/-- Answers a call. -/
def perform (c : Context) : Call → Answer × Context
  | .setKey key => c.settle (c.setKey key)
  | .setKeyLength bits => c.settle (c.setKeyLength bits)
  | .setPassword password options => c.settle (c.setPassword password options)
  | .setIv iv => (.ok none, c.setIv iv)
  | .setMode mode => c.settle (c.setMode mode)
  | .setContinuous on => (.ok none, c.setContinuous on)
  | .setPadding on => (.ok none, c.setPadding on)
  | .prefer engine => (.ok none, c.prefer engine)
  | .reset => (.ok none, c.reset)
  | .process direction data =>
    let (result, c) := c.process direction data
    (result.map some, c)

/-- Answers calls one after the other. -/
def run (c : Context) (calls : List Call) : List Answer × Context := mapState perform c calls

end Context

end SymmetricCipher
