import Mathlib.Logic.Function.Basic

/-!
Files by their names, with the calls that create them, add to them and rename them. Whether a call
succeeds is up to the system.
-/

namespace Pvpgn.FileTable
open Function

section Files
variable {Name Byte : Type} [DecidableEq Name]

abbrev Files (Name Byte : Type) := Name → Option (List Byte)

def create (files : Files Name Byte) (name : Name) : Files Name Byte :=
  Function.update files name (some [])

def append (files : Files Name Byte) (name : Name) (bytes : List Byte) : Files Name Byte :=
  Function.update files name ((files name).map fun contents => contents ++ bytes)

/-- A file under another name, where it takes the place of one that is there. -/
def move (files : Files Name Byte) (old new : Name) : Files Name Byte :=
  if old = new then files
  else Function.update (Function.update files old none) new (files old)

/-- `rename`: a name without a file is an error. -/
def rename (works : Bool) (files : Files Name Byte) (old new : Name) : Int × Files Name Byte :=
  if works ∧ files old ≠ none then (0, move files old new) else (-1, files)

variable (files : Files Name Byte) {new old other : Name}

@[simp] theorem create_same (name : Name) : create files name name = some [] := update_self ..

theorem create_other {name : Name} (apart : other ≠ name) :
    create files name other = files other := update_of_ne apart ..

theorem append_same (files : Files Name Byte) (name : Name) (bytes contents : List Byte)
    (there : files name = some contents) :
    append files name bytes name = some (contents ++ bytes) := by
  rw [append, update_self, there, Option.map_some]

theorem append_other {name : Name} (bytes : List Byte) (apart : other ≠ name) :
    append files name bytes other = files other :=
  update_of_ne apart ..

theorem move_new : move files old new new = files old := by
  unfold move
  split
  · next same => rw [same]
  · exact update_self ..

theorem move_old (apart : old ≠ new) : move files old new old = none := by
  rw [move, if_neg apart, update_of_ne apart, update_self]

theorem move_other (fromOld : other ≠ old) (fromNew : other ≠ new) :
    move files old new other = files other := by
  unfold move
  split
  · rfl
  · rw [update_of_ne fromNew, update_of_ne fromOld]

theorem rename_works (there : files old ≠ none) :
    rename true files old new = (0, move files old new) := if_pos ⟨rfl, there⟩

theorem rename_fails :
    rename false files old new = (-1, files) := if_neg fun works => Bool.false_ne_true works.1

theorem rename_other (works : Bool) (files : Files Name Byte) (fromOld : other ≠ old)
    (fromNew : other ≠ new) : (rename works files old new).2 other = files other := by
  unfold rename
  split
  · exact move_other files fromOld fromNew
  · rfl

end Files

end Pvpgn.FileTable
