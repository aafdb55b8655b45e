import Mathlib.Data.List.Nodup

/-!
A cursor that goes round a list. A reader starts behind the cursor and stops in front of it, or
earlier, and then leaves the cursor at the element that it has read last.
-/

namespace Pvpgn.CyclicCursor
open List Option
variable {Elem : Type} [DecidableEq Elem]

/-- The elements from the one behind the cursor round to the one in front of it. -/
def route (elems : List Elem) : Option Elem → List Elem
  | none => elems
  | some place => (elems.dropWhile (· ≠ place)).tail ++ elems.takeWhile (· ≠ place)

def cycle (elems : List Elem) (cursor : Option Elem) : List Elem :=
  route elems cursor ++ cursor.toList

/-- What one reader reads, and where it leaves the cursor. -/
inductive Reading (elems : List Elem) (cursor : Option Elem) : List Elem → Option Elem → Prop
  | whole : Reading elems cursor (route elems cursor) cursor
  | stopped {front back : List Elem} {place : Elem}
      (split : route elems cursor = front ++ place :: back) :
      Reading elems cursor (front ++ [place]) (some place)

def Listed (elems : List Elem) (cursor : Option Elem) : Prop :=
  ∀ place, cursor = some place → place ∈ elems

section Routes

variable {back front : List Elem} {place : Elem}

theorem route_split (absent : place ∉ front) :
    route (front ++ place :: back) (some place) = back ++ front := by
  have pass : ∀ other ∈ front, decide (other ≠ place) = true := by
    intro other member
    simpa using ne_of_mem_of_not_mem member absent
  rw [route, dropWhile_append_of_pos pass, takeWhile_append_of_pos pass]
  simp

section
variable {elems : List Elem} {cursor : Option Elem} (listed : Listed elems cursor)
include listed

theorem cycle_rotates :
    ∃ before behind, elems = before ++ behind ∧ cycle elems cursor = behind ++ before := by
  cases cursor with
  | none => exact ⟨[], elems, rfl, by simp [cycle, route]⟩
  | some place =>
    obtain ⟨front, back, split, absent⟩ := eq_append_cons_of_mem (listed place rfl)
    refine ⟨front ++ [place], back, by simp [split], ?_⟩
    rw [cycle, split, route_split absent, append_assoc]
    rfl

theorem cycle_perm :
    (cycle elems cursor).Perm elems := by
  obtain ⟨before, behind, split, round⟩ := cycle_rotates listed
  rw [round, split]
  exact perm_append_comm

theorem route_distinct (distinct : elems.Nodup) :
    (route elems cursor).Nodup ∧ ∀ place, cursor = some place → place ∉ route elems cursor := by
  have round := (cycle_perm listed).nodup_iff.mpr distinct
  obtain ⟨first, _, apart⟩ := nodup_append.mp round
  refine ⟨first, ?_⟩
  rintro place rfl member
  exact apart place member place (by simp) rfl

theorem mem_route {elem : Elem} (member : elem ∈ elems) (other : cursor ≠ some elem) :
    elem ∈ route elems cursor := by
  rcases mem_append.mp ((cycle_perm listed).mem_iff.mpr member) with inside | here
  · exact inside
  · exact absurd (by simpa using here) other

theorem cycle_turn (distinct : elems.Nodup) (split : cycle elems cursor = front ++ place :: back) :
    cycle elems (some place) = back ++ front ++ [place] := by
  obtain ⟨before, behind, whole, round⟩ := cycle_rotates listed
  rw [round] at split
  have absent {first second : List Elem} (same : elems = first ++ place :: second) :
      place ∉ first := by
    rw [same, nodup_middle, nodup_cons] at distinct
    exact fun member => distinct.1 (mem_append_left _ member)
  rcases append_eq_append_iff.mp split with ⟨extra, pre, post⟩ | ⟨extra, pre, post⟩
  · -- the element is in front of the cursor
    have same : elems = extra ++ place :: (back ++ behind) := by simp [whole, post]
    rw [cycle, same, route_split (absent same), pre]
    simp
  -- the element is behind the cursor, or it is the first one in front of it
  cases extra with
  | nil =>
    have same : elems = [] ++ place :: (back ++ behind) := by
      rw [nil_append] at post
      simp [whole, ← post]
    rw [cycle, same, route_split (by simp), pre]
    simp
  | cons first extra =>
    obtain ⟨rfl, rfl⟩ := List.cons.inj post
    have same : elems = (before ++ front) ++ place :: extra := by simp [whole, pre]
    rw [cycle, same, route_split (absent same)]
    simp

end

end Routes

section Readings
variable {elems read : List Elem} {cursor after : Option Elem}

section
variable (reading : Reading elems cursor read after)
include reading

theorem reading_listed (listed : Listed elems cursor) :
    Listed elems after := by
  cases reading with
  | whole => exact listed
  | stopped split =>
    rintro place ⟨⟩
    apply (cycle_perm listed).mem_iff.mp
    rw [cycle, split]
    simp

theorem reading_part : read <+: route elems cursor := by
  cases reading with
  | whole => exact prefix_rfl
  | stopped split => exact ⟨_, by rw [split, append_assoc]; rfl⟩

/-- A reader reads everything but the element of the cursor, or it moves the cursor. -/
theorem reading_moves (listed : Listed elems cursor) (distinct : elems.Nodup) :
    (after = cursor ∧ read = route elems cursor) ∨
      (after ≠ cursor ∧ ∃ front back place, route elems cursor = front ++ place :: back ∧
        read = front ++ [place] ∧ after = some place) := by
  cases reading with
  | whole => exact Or.inl ⟨rfl, rfl⟩
  | stopped split =>
    refine Or.inr ⟨fun same => ?_, _, _, _, split, rfl, rfl⟩
    apply (route_distinct listed distinct).2 _ same.symm
    rw [split]
    simp

end

end Readings

section Rounds
variable {elems : List Elem} {cursor : Nat → Option Elem} {read : Nat → List Elem}

theorem readings_listed (readings : ∀ turn, Reading elems (cursor turn) (read turn)
    (cursor (turn + 1))) (listed : Listed elems (cursor 0)) (turn : Nat) :
    Listed elems (cursor turn) := by
  induction turn with
  | zero => exact listed
  | succ turn ih => exact reading_listed (readings turn) ih

section
variable (distinct : elems.Nodup)
  (readings : ∀ turn, Reading elems (cursor turn) (read turn) (cursor (turn + 1)))
  (listed : Listed elems (cursor 0))
include distinct readings listed

theorem read_later {elem : Elem} (member : elem ∈ elems) (bound turn : Nat)
    (near : (cycle elems (cursor turn)).idxOf elem < bound) (other : cursor turn ≠ some elem) :
    ∃ later, elem ∈ read later := by
  induction bound generalizing turn with
  | zero => omega
  | succ bound ih =>
    have here := readings_listed readings listed turn
    rcases reading_moves (readings turn) here distinct with
      ⟨_, whole⟩ | ⟨_, front, back, place, split, part, moved⟩
    · exact ⟨turn, whole ▸ mem_route here member other⟩
    by_cases found : elem ∈ front ++ [place]
    · exact ⟨turn, part ▸ found⟩
    have apart : elem ∉ front ∧ elem ≠ place := by simpa using found
    have round : cycle elems (cursor turn) =
        front ++ place :: (back ++ (cursor turn).toList) := by simp [cycle, split]
    have inside : elem ∈ back ++ (cursor turn).toList := by
      have whole := (cycle_perm here).mem_iff.mpr member
      rw [round] at whole
      simpa [apart] using whole
    apply ih (turn + 1)
    · rw [round, idxOf_append_of_notMem apart.1, idxOf_cons_ne _ (Ne.symm apart.2)] at near
      rw [moved, cycle_turn here distinct round, append_assoc, idxOf_append_of_mem inside]
      omega
    · rw [moved]
      exact fun same => apart.2 (some.inj same).symm

/-- Readers that take turns read everything if and only if there is no element that the cursor
never leaves. -/
theorem all_read :
    (∀ elem ∈ elems, ∃ turn, elem ∈ read turn) ↔
      cursor 0 = none ∨ ∃ turn, cursor (turn + 1) ≠ cursor turn := by
  constructor
  · intro every
    by_contra stuck
    simp only [not_or, not_exists, not_not] at stuck
    have still (turn : Nat) : cursor turn = cursor 0 := by
      induction turn with
      | zero => rfl
      | succ turn ih => exact (stuck.2 turn).trans ih
    obtain ⟨place, start⟩ := ne_none_iff_exists'.mp stuck.1
    obtain ⟨turn, found⟩ := every place (listed place start)
    have here := readings_listed readings listed turn
    exact (route_distinct here distinct).2 place ((still turn).trans start)
      ((reading_part (readings turn)).subset found)
  · intro moves elem member
    rcases moves with fresh | ⟨turn, moved⟩
    · exact read_later distinct readings listed member _ 0 (Nat.lt_succ_self _) (by simp [fresh])
    have here := readings_listed readings listed turn
    rcases reading_moves (readings turn) here distinct with
      ⟨same, _⟩ | ⟨_, front, back, place, _, part, now⟩
    · exact absurd same moved
    by_cases found : elem = place
    · exact ⟨turn, by rw [part, found]; simp⟩
    · refine read_later distinct readings listed member _ (turn + 1) (Nat.lt_succ_self _) ?_
      rw [now]
      exact fun same => found (some.inj same).symm

end

end Rounds

end Pvpgn.CyclicCursor
