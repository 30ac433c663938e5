import SymmetricCipher.Proofs.OneShot
import SymmetricCipher.Proofs.Settings

/-!
# Reference contexts

The contract of a context, without a key schedule, a machine or a chaining state. A reference
context holds what has been set and, for each direction, the log of all data since the stream
started. It answers a call with data from the whole log: a single pass is made over the log with the
data at its end, and what comes of the data is cut off.
-/

namespace SymmetricCipher

namespace Settings

/-- Whether data is padded. -/
def pads (s : Settings) : Bool := s.mode.isBlockMode && s.padding

/-- The data of a call as it goes through the cipher: padded, if it is to be encrypted. -/
def prepare (s : Settings) : Direction → Bytes → Bytes
  | .encrypt, data => if s.pads then Padding.add s.algorithm.blockSize data else data
  | .decrypt, data => data

/-- The data of a call as it is answered: without its padding, if it was decrypted. -/
def finish (s : Settings) : Direction → Bytes → Except CipherError Bytes
  | .encrypt, data => .ok data
  | .decrypt, data => if s.pads then Padding.remove s.algorithm.blockSize data else .ok data

/-- Without padding data goes to the cipher as it comes. -/
lemma prepare_of_pads_eq_false {s : Settings} (h : s.pads = false) (direction : Direction)
    (data : Bytes) : s.prepare direction data = data := by
  cases direction with
  | encrypt => exact if_neg (h ▸ Bool.false_ne_true)
  | decrypt => rfl

/-- Without padding data is answered as it comes from the cipher. -/
lemma finish_of_pads_eq_false {s : Settings} (h : s.pads = false) (direction : Direction)
    (data : Bytes) : s.finish direction data = .ok data := by
  cases direction with
  | encrypt => rfl
  | decrypt => exact if_neg (h ▸ Bool.false_ne_true)

/-- The key and the data of a call as they go to the cipher, or why they do not. -/
def accept (s : Settings) (direction : Direction) (data : Bytes) :
    Except CipherError (Bytes × Bytes) :=
  match s.key with
  | none => .error .keyNotSet
  | some key =>
    let data := s.prepare direction data
    if s.mode.isBlockMode ∧ data.length % s.algorithm.blockSize ≠ 0 then
      .error (.misalignedInput data.length s.algorithm.blockSize)
    else .ok (key, data)

/-- The answer to a call whose direction has seen the data of the log. -/
def respond (s : Settings) (log : Bytes) (direction : Direction) (data : Bytes) :
    Except CipherError Bytes :=
  match s.accept direction data with
  | .error e => .error e
  | .ok (key, data) =>
    match s.algorithm.oneShot s.mode key s.iv direction (log ++ data) with
    | .error e => .error e
    | .ok out => s.finish direction (out.drop (out.length - data.length))

/-- The logs after a call. Its data stays there even if its padding is refused. -/
def record (s : Settings) (logs : Logs) (direction : Direction) (data : Bytes) : Logs :=
  match s.accept direction data with
  | .error _ => logs
  | .ok (_, data) => logs.append direction data

/-- The logs that a call with data starts from: none, if every call stands alone. -/
def opening (s : Settings) (logs : Logs) : Logs := if s.continuous then logs else .empty

/-- A continuous stream goes on. -/
lemma opening_of_continuous {s : Settings} (h : s.continuous = true) (logs : Logs) :
    s.opening logs = logs :=
  if_pos h

/-- There is nothing to drop from empty logs. -/
@[simp] lemma opening_empty (s : Settings) : s.opening .empty = .empty := ite_self _

/-- A stream that was opened is open. -/
@[simp] lemma opening_opening (s : Settings) (logs : Logs) :
    s.opening (s.opening logs) = s.opening logs := by
  rw [opening, opening]
  split <;> rfl

end Settings

/-- What has been set, and what has gone through each direction since. -/
structure Reference where
  settings : Settings
  logs : Logs

namespace Reference

/-- The reference context that nothing was asked of yet. -/
def create (algorithm : Algorithm) (mode : Mode) : Reference :=
  ⟨.initial algorithm mode, .empty⟩

/-- Answers a call. -/
def perform (r : Reference) (call : Call) : Answer × Reference :=
  match call with
  | .process direction data =>
    let logs := r.settings.opening r.logs
    ((r.settings.respond (logs direction) direction data).map some,
      { r with logs := r.settings.record logs direction data })
  | call =>
    match r.settings.update call with
    | .error e => (.error e, r)
    | .ok s => (.ok none, ⟨s, if call.effect = .none then r.logs else .empty⟩)

/-- A setting empties the logs if the stream starts again with it. -/
lemma perform_setting (r : Reference) {call : Call} (h : call.IsSetting) :
    r.perform call =
      match r.settings.update call with
      | .error e => (.error e, r)
      | .ok s => (.ok none, ⟨s, if call.effect = .none then r.logs else .empty⟩) := by
  cases call with
  | process direction data => exact h.elim
  | _ => rfl

/-- Answers calls one after the other. -/
def run (r : Reference) (calls : List Call) : List Answer × Reference := mapState perform r calls

/-- A single pass over a log with accepted data at its end always gives something, and keeps the
length. -/
def Total (r : Reference) : Prop :=
  ∀ {direction : Direction} {data key x : Bytes},
    r.settings.accept direction data = .ok (key, x) →
    ∃ out, r.settings.algorithm.oneShot r.settings.mode key r.settings.iv direction
        (r.settings.opening r.logs direction ++ x) = .ok out ∧
      out.length = (r.settings.opening r.logs direction ++ x).length

end Reference

end SymmetricCipher
