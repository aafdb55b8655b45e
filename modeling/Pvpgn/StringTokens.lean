import Pvpgn.CharBuffer

/-!
Scanning a string in memory. A pointer is the cells from it on, of which the string takes those up
to its NUL; `none` is a read behind the cells. A NUL that a scan writes is behind its pointer then,
so that only the token it ends is kept.
-/

namespace Pvpgn.StringTokens
open List Option

variable (delimiter : UInt8)

/-- To the first cell that is not accepted. -/
def skip (accepts : UInt8 → Bool) (cells : List UInt8) : Option (List UInt8) :=
  let left := cells.dropWhile accepts
  if left = [] then none else some left

def inToken (byte : UInt8) : Bool := byte ≠ delimiter && byte ≠ 0

/-- The token, if there is one, and where the next call goes on. -/
def strtok (cells : List UInt8) : Option (Option (List UInt8) × List UInt8) := do
  let start ← skip (fun byte => byte = delimiter && byte ≠ 0) cells
  if start.head? = some 0 then some (none, start)
  else
    let stop ← skip (inToken delimiter) start
    let next := if stop.head? = some 0 then stop else stop.tail
    some (some (start.takeWhile (inToken delimiter)), next)

/-- What so many calls of `strsep` return before one returns `NULL`. -/
def strseps : Nat → List UInt8 → Option (List (List UInt8))
  | 0, _ => some []
  | count + 1, cells => do
    let stop ← skip (inToken delimiter) cells
    let others ← (if stop.head? = some 0 then some [] else strseps count stop.tail)
    some (cells.takeWhile (inToken delimiter) :: others)

variable {delimiter} {cells string behind : List UInt8} {accepts : UInt8 → Bool}

theorem take_string (nul : accepts 0 = false) :
    (string ++ 0 :: behind).takeWhile accepts = string.takeWhile accepts := by
  induction string with
  | nil => simp [nul]
  | cons byte rest ih => cases holds : accepts byte <;> simp [holds, ih]

theorem skip_string (nul : accepts 0 = false) :
    skip accepts (string ++ 0 :: behind) = some (string.dropWhile accepts ++ 0 :: behind) := by
  have left : (string ++ 0 :: behind).dropWhile accepts =
      string.dropWhile accepts ++ 0 :: behind := by
    induction string with
    | nil => simp [nul]
    | cons byte rest ih => cases holds : accepts byte <;> simp [holds, ih]
  rw [skip, left, if_neg (by simp)]

theorem skip_inside (accepts : UInt8 → Bool) (nul : accepts 0 = false) (ended : 0 ∈ cells) :
    ∃ left, skip accepts cells = some left ∧ 0 ∈ left := by
  obtain ⟨string, behind, rfl⟩ := append_of_mem ended
  exact ⟨_, skip_string nul, by simp⟩

/-- The terminator stays ahead of a pointer that does not stand on a NUL. -/
theorem tail_ended (ended : 0 ∈ cells) (other : cells.head? ≠ some 0) : 0 ∈ cells.tail := by
  cases cells with
  | nil => cases ended
  | cons byte rest => simpa [Ne.symm (by simpa using other : byte ≠ 0)] using ended

theorem strtok_inside (delimiter : UInt8) (ended : 0 ∈ cells) :
    ∃ token next, strtok delimiter cells = some (token, next) ∧ 0 ∈ next := by
  obtain ⟨start, found, ended⟩ :=
    skip_inside (fun byte => byte = delimiter && byte ≠ 0) (by simp) ended
  obtain ⟨stop, stopped, done⟩ := skip_inside (inToken delimiter) (by simp [inToken]) ended
  simp only [strtok, found, bind_eq_bind, bind_some, stopped]
  by_cases none : start.head? = some 0
  · exact ⟨_, _, if_pos none, ended⟩
  refine ⟨_, _, if_neg none, ?_⟩
  split
  · exact done
  · exact tail_ended done ‹_›

theorem strseps_inside (delimiter : UInt8) (count : Nat) (ended : 0 ∈ cells) :
    ∃ fields, strseps delimiter count cells = some fields := by
  induction count generalizing cells with
  | zero => exact ⟨[], rfl⟩
  | succ count ih =>
    obtain ⟨stop, stopped, done⟩ := skip_inside (inToken delimiter) (by simp [inToken]) ended
    simp only [strseps, stopped, bind_eq_bind, bind_some]
    split
    · exact ⟨_, rfl⟩
    · obtain ⟨others, rest⟩ := ih (tail_ended done ‹_›)
      exact ⟨_, by rw [rest, bind_some]⟩

end Pvpgn.StringTokens
