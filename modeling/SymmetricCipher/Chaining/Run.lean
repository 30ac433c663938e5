import SymmetricCipher.Bytes.Basic

/-!
# Running a list through a step with a state

Every mode of operation is a step that turns one unit of data, a byte or a block, into another and
moves a state on. Running two lists one after the other is running them as one list, which is why
data may be cut into calls.
-/

namespace SymmetricCipher

/-- Sends a list through a step from the left, and gives the results and the last state. -/
def mapState {σ α β : Type} (step : σ → α → β × σ) : σ → List α → List β × σ
  | s, [] => ([], s)
  | s, x :: xs =>
    let (y, s) := step s x
    let (ys, s) := mapState step s xs
    (y :: ys, s)

/-- Sends the whole blocks of the data through a step; a partial last block stays as it is. -/
def mapBlocks {σ : Type} (step : σ → Bytes → Bytes × σ) (blockSize : Nat) (s : σ) (data : Bytes) :
    Bytes × σ :=
  let (blocks, s) := mapState step s (Bytes.wholeBlocks blockSize data)
  (blocks.flatten ++ Bytes.partialBlock blockSize data, s)

section mapState

variable {σ α β : Type} (step : σ → α → β × σ)

/-- No input gives no result and leaves the state. -/
@[simp] theorem mapState_nil (s : σ) : mapState step s [] = ([], s) := rfl

/-- The first input is run first, and the others from the state that it leaves. -/
theorem mapState_cons (s : σ) (x : α) (xs : List α) :
    mapState step s (x :: xs) =
      ((step s x).1 :: (mapState step (step s x).2 xs).1, (mapState step (step s x).2 xs).2) := rfl

/-- Every input gives one result. -/
@[simp] theorem length_mapState (s : σ) (xs : List α) :
    (mapState step s xs).1.length = xs.length := by
  induction xs generalizing s with
  | nil => rfl
  | cons x xs ih => simp [mapState_cons, ih]

/-- A list that is cut in two gives the results of the front, then those of the back from the state
that the front leaves. -/
theorem mapState_append (s : σ) (xs ys : List α) :
    mapState step s (xs ++ ys) =
      ((mapState step s xs).1 ++ (mapState step (mapState step s xs).2 ys).1,
        (mapState step (mapState step s xs).2 ys).2) := by
  induction xs generalizing s with
  | nil => rfl
  | cons x xs ih => simp [mapState_cons, ih]

end mapState

end SymmetricCipher
