import Pvpgn.Stdio

/-!
`arraytostr` joins strings in a buffer that grows by a fixed step, at most once for a string. A
write outside the buffer, and a search for a NUL that leaves it, is `none`.
-/

namespace Pvpgn.StringJoin
open Stdio List Option

def combineStringInitLen : Nat := 1024
def combineStringIncreasement : Nat := 1024

/-- Allocated memory with a string and its NUL at the start. -/
structure Block where
  size : Nat
  content : Text

def strcat (result : Block) (bytes : Text) : Option Block :=
  if result.content.length + bytes.length < result.size then
    some { result with content := result.content ++ bytes }
  else none

/-- A string that loses its NUL can no longer be read. -/
def xrealloc (result : Block) (n : Nat) : Option Block :=
  if result.content.length < n then some { result with size := n } else none

/-- The check in front of a string. -/
def grow (delim string : Text) (result : Block) : Option Block :=
  if result.size ≤ result.content.length + string.length + delim.length then
    xrealloc result ((result.size + combineStringIncreasement) % 2 ^ 32)
  else some result

def joinLoop (delim : Text) : List (Option Text) → Bool → Block → Option Block
  | [], _, result => some result
  | none :: array, needDelim, result => joinLoop delim array needDelim result
  | some string :: array, needDelim, result => do
    let result ← grow delim string result
    let result ← (if needDelim then strcat result delim else some result)
    let result ← strcat result string
    joinLoop delim array true result

/-- `array` is the `count` pointers that are looked at. -/
def arraytostr (array : List (Option Text)) (delim : Text) : Option Text :=
  (joinLoop delim array false ⟨combineStringInitLen, []⟩).map Block.content

def strings (array : List (Option Text)) : List Text := array.filterMap id

def larger (delim string : Text) (n length : Nat) : Nat :=
  if n ≤ length + string.length + delim.length then (n + combineStringIncreasement) % 2 ^ 32 else n

/-- What a turn adds. -/
def added (delim string : Text) (needDelim : Bool) : Text :=
  (if needDelim then delim else []) ++ string

/-- Behind a text of `length` bytes in a buffer of `n`: each string, with a delimiter unless it is
the first, leaves room for the NUL in the buffer as it is after the check. -/
def fits (delim : Text) : Bool → Nat → Nat → List Text → Bool
  | _, _, _, [] => true
  | needDelim, n, length, string :: rest =>
    length + (added delim string needDelim).length < larger delim string n length &&
      fits delim true (larger delim string n length)
        (length + (added delim string needDelim).length) rest

variable (delim : Text)

theorem join_turn (string : Text) (needDelim : Bool) (result : Block) :
    (do let result ← grow delim string result
        let result ← (if needDelim then strcat result delim else some result)
        strcat result string) =
      if result.content.length + (added delim string needDelim).length <
          larger delim string result.size result.content.length then
        some ⟨larger delim string result.size result.content.length,
          result.content ++ added delim string needDelim⟩
      else none := by
  have grown : grow delim string result =
      xrealloc result (larger delim string result.size result.content.length) := by
    rw [grow, larger]
    split
    · rfl
    · rw [xrealloc, if_pos (by omega)]
  rw [grown]
  generalize larger delim string result.size result.content.length = n
  by_cases kept : result.content.length < n
  · cases needDelim with
    | false => simp [xrealloc, kept, strcat, added]
    | true =>
      by_cases first : result.content.length + delim.length < n
      · simp [xrealloc, kept, strcat, added, first, Nat.add_assoc]
      have full : ¬result.content.length + (delim ++ string).length < n := by
        rw [length_append]
        omega
      simp only [xrealloc, if_pos kept, strcat, first, added, if_true, if_false, full,
        bind_eq_bind, bind_some, bind_none]
  · rw [xrealloc, if_neg kept, if_neg (by omega)]
    rfl

def joined : Bool → List Text → Text
  | _, [] => []
  | needDelim, string :: rest => added delim string needDelim ++ joined true rest

theorem join_loop (array : List (Option Text)) (needDelim : Bool) (result : Block) :
    (joinLoop delim array needDelim result).map Block.content =
      if fits delim needDelim result.size result.content.length (strings array) then
        some (result.content ++ joined delim needDelim (strings array))
      else none := by
  induction array generalizing needDelim result with
  | nil => simp [joinLoop, strings, fits, joined]
  | cons pointer array ih =>
    cases pointer with
    | none => exact ih needDelim result
    | some string =>
      have unfolded : joinLoop delim (some string :: array) needDelim result =
          (do let result ← grow delim string result
              let result ← (if needDelim then strcat result delim else some result)
              strcat result string) >>= joinLoop delim array true := by
        simp only [joinLoop, bind_eq_bind, bind_assoc]
      change _ = if fits delim needDelim _ _ (string :: strings array) then
        some (result.content ++ joined delim needDelim (string :: strings array)) else none
      rw [unfolded, join_turn, fits, joined]
      by_cases room : result.content.length + (added delim string needDelim).length <
          larger delim string result.size result.content.length
      · simp only [room, if_true, bind_eq_bind, bind_some, ih, length_append, decide_true,
          Bool.true_and, append_assoc]
      · simp [room]

theorem joined_intercalate (strings : List Text) :
    joined delim false strings = delim.intercalate strings := by
  cases strings with
  | nil => rfl
  | cons string rest =>
    induction rest generalizing string with
    | nil => simp [joined, added]
    | cons next rest ih =>
      rw [intercalate_cons_cons, ← ih]
      simp [joined, added]

/-- The strings are joined exactly if each of them fits into the buffer, which grows by one step at
most before it. -/
theorem strings_joined (array : List (Option Text)) :
    arraytostr array delim = some (delim.intercalate (strings array)) ↔
      fits delim false combineStringInitLen 0 (strings array) = true := by
  have loop := join_loop delim array false ⟨combineStringInitLen, []⟩
  rw [arraytostr, loop, ← joined_intercalate]
  split
  · next room => exact iff_of_true rfl room
  · next full => exact iff_of_false (by simp) full

/-- A first string of 2048 bytes does not fit into the one step. -/
theorem long_string_overflows : arraytostr [some (replicate 2048 97)] [] = none := by
  have unfit : larger [] (replicate 2048 97) combineStringInitLen 0 = 2048 := by
    rw [larger, length_replicate]
    rfl
  rw [arraytostr, join_loop]
  simp only [strings, filterMap_cons, id_eq, fits, added, length_nil, unfit, length_append,
    length_replicate]
  rfl

end Pvpgn.StringJoin
