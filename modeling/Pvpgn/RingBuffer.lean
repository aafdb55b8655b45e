import Mathlib.Data.List.Basic
import Mathlib.Tactic.Ring

/-!
The circular layout of a queue in an array. Item `i` lies `i` cells after the
tail, wrapping at the end of the array. Cells outside the occupied arc may hold
anything. The lemmas say what a write at the head, a step of the tail and the
unwrapping of a full ring into a longer array do to the queue.
-/

namespace Pvpgn.RingBuffer
open List Nat

variable {Item : Type}

def slot (size tail offset : Nat) : Nat := (tail + offset) % size

def Holds (cells : List (Option Item)) (tail : Nat) (items : List Item) : Prop :=
  items.length ≤ cells.length ∧
  ∀ offset (inside : offset < items.length),
    cells[slot cells.length tail offset]? = some (some items[offset])

variable (cells : List (Option Item)) (size tail offset : Nat)

theorem slot_inside (positive : 0 < size) : slot size tail offset < size := mod_lt _ positive

theorem slot_unwrapped (inside : tail + offset < size) :
    slot size tail offset = tail + offset := mod_eq_of_lt inside

theorem slot_wrapped (past : size ≤ tail + offset) (once : tail + offset < size + size) :
    slot size tail offset = tail + offset - size := by
  rw [slot, mod_eq_sub_mod past, mod_eq_of_lt (by omega)]

theorem slot_injective (left right : Nat) (tailInside : tail < size) (leftInside : left < size)
    (rightInside : right < size) (same : slot size tail left = slot size tail right) :
    left = right := by
  rcases lt_or_ge (tail + left) size with l | l <;>
    rcases lt_or_ge (tail + right) size with r | r
  · rw [slot_unwrapped _ _ _ l, slot_unwrapped _ _ _ r] at same
    omega
  · rw [slot_unwrapped _ _ _ l, slot_wrapped _ _ _ r (by omega)] at same
    omega
  · rw [slot_wrapped _ _ _ l (by omega), slot_unwrapped _ _ _ r] at same
    omega
  · rw [slot_wrapped _ _ _ l (by omega), slot_wrapped _ _ _ r (by omega)] at same
    omega

theorem slot_step : slot size (slot size tail 1) offset = slot size tail (offset + 1) := by
  simp only [slot, mod_add_mod]
  congr 1
  omega

theorem holds_nil : Holds cells tail [] :=
  ⟨zero_le _, fun _ inside => absurd inside (not_lt_zero _)⟩

variable (item : Item) (items : List Item)

theorem holds_write (item : Item) (held : Holds cells tail items) (tailInside : tail < cells.length)
    (space : items.length < cells.length) :
    Holds (cells.set (slot cells.length tail items.length) (some item)) tail
      (items ++ [item]) := by
  refine ⟨by simp only [length_append, length_set, length_singleton]; omega, ?_⟩
  intro offset inside
  rw [length_set, getElem?_set]
  have headInside := slot_inside cells.length tail items.length (by omega)
  rw [length_append, length_singleton] at inside
  by_cases last : offset = items.length
  · subst last
    simp [headInside]
  have old : offset < items.length := by omega
  have apart : slot cells.length tail items.length ≠ slot cells.length tail offset := by
    intro same
    have := slot_injective _ _ _ _ tailInside space (by omega) same
    omega
  rw [if_neg apart, held.2 offset old, getElem_append_left old]

theorem holds_first (held : Holds cells tail (item :: items)) (tailInside : tail < cells.length) :
    cells[tail]? = some (some item) := by
  have first := held.2 0 (by simp)
  rwa [slot_unwrapped _ _ _ (by omega)] at first

theorem holds_advance (held : Holds cells tail (item :: items)) :
    Holds cells (slot cells.length tail 1) items := by
  have long := held.1
  rw [length_cons] at long
  refine ⟨by omega, ?_⟩
  intro offset inside
  have next := held.2 (offset + 1) (by simpa using inside)
  rw [slot_step, next]
  rfl

/-- A full ring moves into a longer array: the arc from the tail to the end stays
in place and the wrapped arc continues after it. -/
theorem holds_unwrap (longer : List (Option Item)) (tail : Nat) (items : List Item)
    (held : Holds cells tail items) (tailInside : tail < cells.length)
    (grown : cells.length ≤ longer.length)
    (kept : ∀ index, tail ≤ index → index < cells.length → longer[index]? = cells[index]?)
    (wrapped : ∀ index, index < tail → longer[(cells.length + index) % longer.length]? =
      cells[index]?) : Holds longer tail items := by
  have bound := held.1
  refine ⟨by omega, ?_⟩
  intro offset inside
  have old := held.2 offset inside
  rcases lt_or_ge (tail + offset) cells.length with straight | past
  · rw [slot_unwrapped _ _ _ straight] at old
    rw [slot_unwrapped _ _ _ (by omega), kept _ (by omega) straight, old]
  rw [slot_wrapped _ _ _ past (by omega)] at old
  have place : slot longer.length tail offset =
      (cells.length + (tail + offset - cells.length)) % longer.length := by
    rw [slot]
    congr 1
    omega
  rw [place, wrapped _ (by omega), old]

end Pvpgn.RingBuffer
