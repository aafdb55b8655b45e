import Mathlib.Data.List.Basic
import Mathlib.Data.List.TakeDrop

/-!
Arrays of a C program as lists whose every access is checked. `none` is an
access outside the array; it is never a value of the program.
-/

namespace Pvpgn.CheckedArray
open List

variable {Cell : Type}

def readAt (cells : List Cell) (index : Nat) : Option Cell := cells[index]?

def writeAt (cells : List Cell) (index : Nat) (value : Cell) : Option (List Cell) :=
  if index < cells.length then some (cells.set index value) else none

/-- The source range is read in full before the target range is written. -/
def moveCells (cells : List Cell) (target source count : Nat) : Option (List Cell) :=
  if target + count ≤ cells.length ∧ source + count ≤ cells.length then
    some (cells.take target ++ (cells.drop source).take count ++ cells.drop (target + count))
  else none

def resize (cells : List Cell) (count : Nat) (filler : Cell) : List Cell :=
  cells.take count ++ replicate (count - cells.length) filler

variable (cells : List Cell)

variable (count : Nat) (filler : Cell) (index : Nat)

theorem read_inside (inside : index < cells.length) : readAt cells index = some cells[index] := by
  simp [readAt, inside]

theorem write_inside (value : Cell) (inside : index < cells.length) :
    writeAt cells index value = some (cells.set index value) := by
  simp [writeAt, inside]

theorem move_inside (target source count : Nat) (targetInside : target + count ≤ cells.length)
    (sourceInside : source + count ≤ cells.length) :
    ∃ moved, moveCells cells target source count = some moved ∧ moved.length = cells.length ∧
      ∀ index, moved[index]? =
        if target ≤ index ∧ index < target + count then cells[source + (index - target)]?
        else cells[index]? := by
  refine ⟨_, if_pos ⟨targetInside, sourceInside⟩, ?_, ?_⟩
  · simp only [length_append, length_take, length_drop]
    omega
  intro index
  have taken : (cells.take target).length = target := by
    simp only [length_take]
    omega
  have copied : ((cells.drop source).take count).length = count := by
    simp only [length_take, length_drop]
    omega
  rcases Nat.lt_or_ge index target with before | after
  · have outside : ¬ (target ≤ index ∧ index < target + count) := by omega
    rw [if_neg outside, append_assoc, getElem?_append_left (by omega), getElem?_take_of_lt before]
  by_cases within : index < target + count
  · rw [if_pos ⟨after, within⟩, getElem?_append_left (by simp only [length_append]; omega),
      getElem?_append_right (by omega), taken, getElem?_take_of_lt (by omega), getElem?_drop]
  have outside : ¬ (target ≤ index ∧ index < target + count) := by omega
  rw [if_neg outside, getElem?_append_right (by simp only [length_append]; omega), getElem?_drop]
  congr 1
  simp only [length_append]
  omega

theorem resize_length : (resize cells count filler).length = count := by
  simp only [resize, length_append, length_take, length_replicate]
  omega

theorem resize_kept (old : index < cells.length) (kept : index < count) :
    (resize cells count filler)[index]? = cells[index]? := by
  rw [resize, getElem?_append_left (by simp only [length_take]; omega), getElem?_take_of_lt kept]

end Pvpgn.CheckedArray
