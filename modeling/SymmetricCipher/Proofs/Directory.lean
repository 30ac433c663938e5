import Mathlib.Tactic.Lemma
import SymmetricCipher.CommandLine.Directory

/-!
# Reading what was written

Which file a path stands for is a matter of the path alone, `Directory.name?`: two walks along one
path, in any two directories, stay side by side, and differ in nothing but the text of the file
that they come to. So reading and writing are lookups and updates under that name, and what was
written is read again.
-/

namespace SymmetricCipher.Directory

/-- The directory without any file. -/
def empty : Directory := ⟨fun _ => none⟩

/-- The file that a path stands for, whether there is one of that name or not. -/
def name? (path : String) : Option String :=
  match empty.place path with
  | .vacant name => some name
  | _ => none

/-- Where a walk is in a directory, beside the same walk where there is no file. -/
inductive Beside (d : Directory) : Place → Place → Prop where
  | folder : Beside d .folder .folder
  | outside : Beside d .outside .outside
  | found {name text : String} (holds : d.text? name = some text) :
      Beside d (.file name text) (.vacant name)
  | missed {name : String} (holds : d.text? name = none) : Beside d (.vacant name) (.vacant name)
  | barred (reason : FileError) : Beside d (.barred reason) (.barred reason)
  | slashed (reason reason' : FileError) : Beside d (.slashed reason) (.slashed reason')
  | nowhere (reason reason' : FileError) : Beside d (.nowhere reason) (.nowhere reason')

variable {d d' : Directory} {path other text text' : String}

namespace Beside

variable {p q : Place}

/-- Walks that leave a name behind have lost sight of it, whatever the reason. -/
lemma leave (d : Directory) (reason reason' : FileError) (piece : String) :
    d.Beside (leave reason piece) (leave reason' piece) := by
  rw [Directory.leave, Directory.leave]
  split
  · exact .slashed reason reason'
  · exact .nowhere reason reason'

/-- A name leads to a place of the same kind, whatever files there are. -/
lemma entry (d : Directory) (name : String) : d.Beside (d.entry name) (empty.entry name) := by
  rw [Directory.entry, Directory.entry]
  split
  · exact .barred .nameTooLong
  · cases h : d.text? name with
    | none => exact .missed h
    | some text => exact .found h

/-- The next piece of a path leads to a place of the same kind. -/
lemma enter (h : d.Beside p q) (piece : String) :
    d.Beside (d.enter p piece) (empty.enter q piece) := by
  cases h with
  | folder =>
    rw [Directory.enter, Directory.enter]
    split
    · exact .folder
    · split
      · exact .outside
      · exact .entry d piece
  | outside =>
    rw [Directory.enter, Directory.enter]
    split
    · exact .outside
    · exact .barred _
  | found holds => exact .leave d _ _ piece
  | missed holds => exact .leave d _ _ piece
  | barred reason => exact .leave d _ _ piece
  | slashed reason reason' => exact .leave d _ _ piece
  | nowhere reason reason' => exact .nowhere reason reason'

/-- All pieces of a path lead to a place of the same kind. -/
lemma foldl (h : d.Beside p q) (steps : List String) :
    d.Beside (steps.foldl d.enter p) (steps.foldl empty.enter q) := by
  induction steps generalizing p q with
  | nil => exact h
  | cons piece steps ih => exact ih (h.enter piece)

/-- A path leads to a place of the same kind in every directory. -/
lemma place (d : Directory) (path : String) : d.Beside (d.place path) (empty.place path) := by
  rw [Directory.place, Directory.place]
  split
  · exact .nowhere _ _
  · split
    · exact .nowhere _ _
    · exact .nowhere _ _
    · exact .foldl .outside _
    · exact .foldl .folder _

end Beside

/-- A path is read where it stands for a file that is there. -/
theorem read_eq_ok_iff :
    d.read path = .ok text ↔ ∃ name, name? path = some name ∧ d.text? name = some text := by
  have hplace := Beside.place d path
  rw [read, name?]
  generalize d.place path = p at hplace ⊢
  generalize empty.place path = q at hplace ⊢
  -- only the first two kinds of places have a name
  cases hplace with
  | @found name text' holds =>
    constructor
    · rintro ⟨⟩
      exact ⟨name, rfl, holds⟩
    · rintro ⟨_, ⟨⟩, h⟩
      exact congrArg Except.ok (Option.some.inj (holds.symm.trans h))
  | @missed name holds =>
    refine ⟨nofun, ?_⟩
    rintro ⟨_, ⟨⟩, h⟩
    cases holds.symm.trans h
  | _ => exact ⟨nofun, nofun⟩

/-- A path is written where it stands for a file, and the file gets the text. -/
theorem write_eq_ok_iff :
    d.write path text = .ok d' ↔ ∃ name, name? path = some name ∧ d' = d.put name text := by
  have hplace := Beside.place d path
  rw [write, name?]
  generalize d.place path = p at hplace ⊢
  generalize empty.place path = q at hplace ⊢
  have named {name : String} : (Except.ok (d.put name text) : Except FileError Directory) = .ok d' ↔
      ∃ other, some name = some other ∧ d' = d.put other text := by
    constructor
    · rintro ⟨⟩
      exact ⟨name, rfl, rfl⟩
    · rintro ⟨_, ⟨⟩, rfl⟩
      rfl
  cases hplace with
  | found holds => exact named
  | missed holds => exact named
  | _ => exact ⟨nofun, nofun⟩

/-- What was written is read again, along any path to the same file. -/
lemma read_of_write (h : d.write path text = .ok d') (hsame : name? other = name? path) :
    d'.read other = .ok text := by
  obtain ⟨name, hname, rfl⟩ := write_eq_ok_iff.1 h
  exact read_eq_ok_iff.2 ⟨name, hsame.trans hname, if_pos rfl⟩

/-- A file keeps its text when another one is written. -/
lemma read_of_write_of_ne (h : d.write path text = .ok d') (hne : name? other ≠ name? path)
    (hread : d.read other = .ok text') : d'.read other = .ok text' := by
  obtain ⟨name, hname, rfl⟩ := write_eq_ok_iff.1 h
  obtain ⟨name', hname', htext⟩ := read_eq_ok_iff.1 hread
  have hdiffers : name' ≠ name := by
    rintro rfl
    exact hne (hname'.trans hname.symm)
  exact read_eq_ok_iff.2 ⟨name', hname', (if_neg hdiffers).trans htext⟩

def Writable (d : Directory) (path : String) : Prop :=
  ∃ (text : String) (d' : Directory), d.write path text = .ok d'

/-- Where one text can be written, any can. -/
lemma Writable.write (h : d.Writable path) (text : String) :
    ∃ d', d.write path text = .ok d' := by
  obtain ⟨text', d', h⟩ := h
  obtain ⟨name, hname, -⟩ := write_eq_ok_iff.1 h
  exact ⟨_, write_eq_ok_iff.2 ⟨name, hname, rfl⟩⟩

end SymmetricCipher.Directory
