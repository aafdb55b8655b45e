import Pvpgn.CheckedArray
import Mathlib.Data.List.TakeWhile

/-!
A buffer of characters of a fixed size that a program fills from its start, every write checked, and
the string that ends at its first NUL.
-/

namespace Pvpgn.CharBuffer
open CheckedArray List

structure Buffer where
  cells : List UInt8
  position : Nat

def filled (size : Nat) (content : List UInt8) : Buffer :=
  ⟨content ++ replicate (size - content.length) 0, content.length⟩

variable (size : Nat) (content : List UInt8)

@[simp] theorem filled_position : (filled size content).position = content.length := rfl

def put (buffer : Buffer) (byte : UInt8) : Option Buffer :=
  (writeAt buffer.cells buffer.position byte).map fun cells => ⟨cells, buffer.position + 1⟩

def putAll : Buffer → List UInt8 → Option Buffer
  | buffer, [] => some buffer
  | buffer, byte :: rest => (put buffer byte).bind fun buffer => putAll buffer rest

/-- The string at the start of the cells; a reader would leave cells without a NUL. -/
def stringAt (cells : List UInt8) : Option (List UInt8) :=
  if 0 ∈ cells then some (cells.takeWhile (· ≠ 0)) else none

theorem put_all (cells bytes : List UInt8) (position : Nat)
    (room : position + bytes.length ≤ cells.length) :
    putAll ⟨cells, position⟩ bytes =
      some ⟨cells.take position ++ bytes ++ cells.drop (position + bytes.length),
        position + bytes.length⟩ := by
  induction bytes generalizing cells position with
  | nil => simp [putAll]
  | cons byte rest ih =>
    rw [length_cons] at room
    have next := ih (cells.set position byte) (position + 1)
      (by rw [length_set]; omega)
    have before : (cells.set position byte).take (position + 1) =
        cells.take position ++ [byte] := by
      rw [take_add_one, take_set_of_le (Nat.le_refl _), getElem?_set_self (by omega)]
      rfl
    have behind : (cells.set position byte).drop (position + 1 + rest.length) =
        cells.drop (position + (rest.length + 1)) := by
      rw [drop_set_of_lt (by omega), Nat.add_assoc, Nat.add_comm 1]
    have inside : position < cells.length := by omega
    rw [putAll, put, write_inside _ _ _ inside, Option.map_some, Option.bind_some, next, before,
      behind]
    simp [Nat.add_assoc, Nat.add_comm 1]

theorem put_all_filled (bytes : List UInt8) (room : content.length + bytes.length ≤ size) :
    putAll (filled size content) bytes = some (filled size (content ++ bytes)) := by
  have total : (content ++ replicate (size - content.length) (0 : UInt8)).length = size := by
    simp only [length_append, length_replicate]
    omega
  rw [filled, put_all _ _ _ (by rw [total]; exact room), filled]
  simp [drop_append, Nat.sub_sub]

theorem string_written (rest : List UInt8) (nulFree : 0 ∉ content) :
    stringAt (content ++ 0 :: rest) = some content := by
  have plain : ∀ byte ∈ content, (decide (byte ≠ 0)) = true := by
    intro byte member
    rw [decide_eq_true_eq]
    rintro rfl
    exact nulFree member
  rw [stringAt, if_pos (by simp), takeWhile_append_of_pos plain]
  simp

theorem string_filled (nulFree : 0 ∉ content) (room : content.length < size) :
    stringAt (filled size content).cells = some content := by
  have tail : replicate (size - content.length) (0 : UInt8) =
      0 :: replicate (size - (content.length + 1)) 0 := by
    rw [← replicate_succ]
    congr 1
    omega
  rw [filled, tail]
  exact string_written content _ nulFree

end Pvpgn.CharBuffer
