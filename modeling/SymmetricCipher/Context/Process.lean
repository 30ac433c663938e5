import SymmetricCipher.Context.Basic
import SymmetricCipher.Padding

/-!
# Processing data

Data is encrypted or decrypted in three steps. The machine is made ready: built if settings have
changed, and taken back to the start of the stream unless the stream goes on. Then the data is
padded and its length checked, and the machine runs it. A backend that fails while the stream goes
on leaves the position unknown, and all further data is refused until the stream starts again.
-/

namespace SymmetricCipher.Context

/-- Builds the machine for the settings that hold. The session of the machine before it is closed
first. An error leaves the caller with the context as it was, where giving up the old machine first
would have lost it: but under settings that were accepted there is none (`Context.rebuild_ok`),
since software can always take a backend's place. -/
def rebuild (c : Context) (key : Bytes) : Except CipherError (Machine × Context) :=
  let c := c.close
  let selection := Selection.select c.backends c.algorithm c.mode key.length c.preferred
  match Machine.ofSelection selection c.ledger.nextTicket c.algorithm c.mode key c.iv with
  | .error e => .error e
  | .ok (engine, machine) =>
    .ok (machine, { c with
      machinery := .current engine machine
      restarting := false
      ledger := c.ledger.noteOpened machine.ticket? })

/-- The machine, ready for the next data, and the context that holds it. -/
def ready (c : Context) : Except CipherError (Machine × Context) :=
  if c.desynchronized then .error .streamDesynchronized
  else
    match c.key with
    | none => .error .keyNotSet
    | some key =>
      match c.machinery with
      | .current engine machine =>
        if c.continuous && !c.restarting then .ok (machine, c)
        else
          match machine.restart c.iv with
          | .error e => .error e
          | .ok machine =>
            .ok (machine, { c with machinery := .current engine machine, restarting := false })
      | _ => c.rebuild key

/-- The data as the machine gets it: padded, if it is to be encrypted. -/
def prepare (c : Context) : Direction → Bytes → Bytes
  | .encrypt, data => if c.pads then Padding.add c.blockSize data else data
  | .decrypt, data => data

/-- The data as it is handed out: without its padding, if it was decrypted. -/
def finish (c : Context) : Direction → Bytes → Except CipherError Bytes
  | .encrypt, data => .ok data
  | .decrypt, data => if c.pads then Padding.remove c.blockSize data else .ok data

/-- Keeps a machine that has run, and notes whether its stream is lost. -/
def keep (c : Context) (machine : Machine) (lost : Bool) : Context :=
  { c with
    machinery := c.machinery.replace machine
    desynchronized := c.desynchronized || lost }

/-- Encrypts or decrypts data. -/
def process (c : Context) (direction : Direction) (data : Bytes) :
    Except CipherError Bytes × Context :=
  match c.ready with
  | .error e => (.error e, c)
  | .ok (machine, c) =>
    let data := c.prepare direction data
    if c.mode.isBlockMode ∧ data.length % c.blockSize ≠ 0 then
      (.error (.misalignedInput data.length c.blockSize), c)
    else
      match machine.apply direction data with
      | (.error e, machine) => (.error e, c.keep machine (c.continuous && e.isBackendFailure))
      | (.ok out, machine) => (c.finish direction out, c.keep machine false)

/-- Encrypts data. -/
def encrypt (c : Context) (data : Bytes) : Except CipherError Bytes × Context :=
  c.process .encrypt data

/-- Decrypts data. -/
def decrypt (c : Context) (data : Bytes) : Except CipherError Bytes × Context :=
  c.process .decrypt data

end SymmetricCipher.Context
