import Pvpgn.CheckedArray
import Pvpgn.Stdio
import Mathlib.Data.List.Infix

/-!
The ladders of `d2ladder.cpp`: an array of characters by falling experience, where every update of a
character moves one entry and shifts those it passes. An access outside the array is `none`.
-/

namespace Pvpgn.D2Ladder
open Stdio CheckedArray List Option Nat

def maxCharnameLen : Nat := 16

structure D2LadderInfo where
  experience : UInt32
  status : UInt16
  level : UInt8
  chclass : UInt8
  charname : Text
  deriving DecidableEq

def emptyInfo : D2LadderInfo := ⟨0, 0, 0, 0, []⟩

/-- `!strncasecmp(left, right, MAX_CHARNAME_LEN)` -/
def sameCharname (left right : Text) : Bool :=
  sameCaseless (left.take maxCharnameLen) (right.take maxCharnameLen)

/-- The loop of `d2ladder_find_pos`, for the entries before the given one. -/
def findPosLoop (info : D2LadderInfo) (ladder : List D2LadderInfo) : Nat → Option Int
  | 0 => some (-1)
  | i + 1 => do
    let entry ← readAt ladder i
    if info.experience < entry.experience then
      if sameCharname entry.charname info.charname then some (i : Int) else some (i + 1 : Int)
    else if i = 0 then some 0
    else findPosLoop info ladder i

def d2ladderFindPos (threshold : UInt32) (ladder : List D2LadderInfo) (info : D2LadderInfo) :
    Option Int :=
  if info.experience < threshold then some (-1) else findPosLoop info ladder ladder.length

def findCharLoop (info : D2LadderInfo) (ladder : List D2LadderInfo) : Nat → Option Int
  | 0 => some (-1)
  | i + 1 => do
    let entry ← readAt ladder i
    if sameCharname entry.charname info.charname then some (i : Int)
    else findCharLoop info ladder i

def d2ladderFindCharAll (ladder : List D2LadderInfo) (info : D2LadderInfo) : Option Int :=
  findCharLoop info ladder ladder.length

def shiftLoop (info : D2LadderInfo) (newpos direction : Int) :
    Nat → Int → List D2LadderInfo → Option (List D2LadderInfo)
  | fuel, i, ladder =>
    if i = newpos then writeAt ladder i.toNat info
    else match fuel with
      | 0 => none
      | fuel + 1 => do
        let entry ← readAt ladder (i + direction).toNat
        let ladder ← writeAt ladder i.toNat entry
        shiftLoop info newpos direction fuel (i + direction) ladder

def d2ladderUpdateInfoAndPos (ladder : List D2LadderInfo) (info : D2LadderInfo)
    (oldpos newpos : Int) : Option (Int × List D2LadderInfo) :=
  let last : Int := ladder.length - 1
  let oldpos := if oldpos < 0 ∨ ladder.length ≤ oldpos then last else oldpos
  let outflag := newpos < 0 ∨ ladder.length ≤ newpos
  let newpos := if outflag then last else newpos
  if oldpos = last ∧ outflag then some (0, ladder)
  else
    let newpos := if oldpos < newpos ∧ ¬outflag then newpos - 1 else newpos
    let direction := if oldpos < newpos then 1 else -1
    (shiftLoop info newpos direction ladder.length oldpos ladder).map fun ladder => (1, ladder)

def d2ladderInsert (threshold : UInt32) (ladder : List D2LadderInfo) (info : D2LadderInfo) :
    Option (Int × List D2LadderInfo) := do
  let newpos ← d2ladderFindPos threshold ladder info
  let oldpos ← d2ladderFindCharAll ladder info
  d2ladderUpdateInfoAndPos ladder info oldpos newpos

section Loops
variable {info : D2LadderInfo} {ladder : List D2LadderInfo}

theorem shift_stop (newpos direction : Int) (fuel : Nat) (inside : newpos.toNat < ladder.length) :
    shiftLoop info newpos direction fuel newpos ladder = some (ladder.set newpos.toNat info) := by
  unfold shiftLoop
  rw [if_pos rfl, write_inside ladder _ info inside]

theorem shift_step {newpos direction i : Int} {fuel : Nat} {entry : D2LadderInfo}
    (apart : i ≠ newpos) (inside : i.toNat < ladder.length)
    (next : ladder[(i + direction).toNat]? = some entry) :
    shiftLoop info newpos direction (fuel + 1) i ladder =
      shiftLoop info newpos direction fuel (i + direction) (ladder.set i.toNat entry) := by
  rw [shiftLoop]
  simp only [if_neg apart, readAt, next, write_inside ladder _ entry inside,
    bind_eq_bind, bind_some]

variable (front passed back : List D2LadderInfo) (entry : D2LadderInfo)

theorem set_middle (old new : D2LadderInfo) :
    (front ++ old :: back).set front.length new = front ++ new :: back := by
  simp

theorem shift_down (info : D2LadderInfo) (front passed back : List D2LadderInfo)
    (old : D2LadderInfo) (fuel : Nat) (enough : passed.length ≤ fuel) :
    shiftLoop info (front.length + passed.length) 1 fuel front.length
        (front ++ old :: (passed ++ back)) = some (front ++ passed ++ info :: back) := by
  induction passed generalizing front old fuel with
  | nil =>
    simp only [length_nil, cast_zero, add_zero, nil_append, append_nil]
    rw [shift_stop _ _ _ (by simp), Int.toNat_natCast, set_middle]
  | cons entry rest ih =>
    cases fuel with
    | zero => simp at enough
    | succ fuel =>
      have next := ih (front ++ [entry]) entry fuel (by simpa using enough)
      have index : ((front.length : Int) + 1).toNat = front.length + 1 := by omega
      have apart : (front.length : Int) ≠ front.length + ((entry :: rest).length : Nat) := by
        simp only [length_cons]
        omega
      have read : (front ++ old :: (entry :: rest ++ back))[((front.length : Int) + 1).toNat]? =
          some entry := by simp
      have ends : (front.length : Int) + ((entry :: rest).length : Nat) =
          ((front ++ [entry]).length : Nat) + (rest.length : Nat) := by
        simp only [length_cons, length_append, length_nil]
        omega
      have start : (front.length : Int) + 1 = ((front ++ [entry]).length : Nat) := by simp
      rw [shift_step apart (by simp) read, Int.toNat_natCast, set_middle, ends, start]
      simpa using next

theorem shift_up (info : D2LadderInfo) (front passed back : List D2LadderInfo) (old : D2LadderInfo)
    (fuel : Nat) (enough : passed.length ≤ fuel) :
    shiftLoop info front.length (-1) fuel (front.length + passed.length)
        (front ++ (passed ++ old :: back)) = some (front ++ info :: (passed ++ back)) := by
  induction passed using reverseRecOn generalizing old back fuel with
  | nil =>
    simp only [length_nil, cast_zero, add_zero, nil_append]
    rw [shift_stop _ _ _ (by simp), Int.toNat_natCast, set_middle]
  | append_singleton rest entry ih =>
    cases fuel with
    | zero => simp at enough
    | succ fuel =>
      have next := ih (entry :: back) entry fuel (by simpa using enough)
      have here : ((front.length : Int) + (rest ++ [entry]).length).toNat =
          front.length + rest.length + 1 := by
        simp only [length_append, length_singleton]
        omega
      have before : ((front.length : Int) + (rest ++ [entry]).length + -1).toNat =
          front.length + rest.length := by
        omega
      have start : (front.length : Int) + (rest ++ [entry]).length + -1 =
          front.length + rest.length := by
        omega
      have apart : (front.length : Int) + (rest ++ [entry]).length ≠ front.length := by
        omega
      have whole : front ++ (rest ++ [entry] ++ old :: back) =
          front ++ rest ++ [entry] ++ old :: back := by simp
      have ends : front.length + rest.length + 1 = (front ++ rest ++ [entry]).length := by
        simp only [length_append, length_singleton]
      have read : (front ++ rest ++ [entry] ++ old :: back)[((front.length : Int) +
          (rest ++ [entry]).length + -1).toNat]? = some entry := by
        rw [before]
        simp
      rw [whole, shift_step apart (by rw [here]; simp; omega) read, here, start, ends, set_middle]
      simpa using next

theorem read_middle : readAt (front ++ entry :: back) front.length = some entry := by
  simp [readAt]

theorem read_after (last : D2LadderInfo) :
    readAt (front ++ entry :: (passed ++ last :: back)) (front.length + 1 + passed.length) =
      some last := by
  have read := read_middle (front ++ entry :: passed) back last
  rw [append_assoc, cons_append, length_append, length_cons] at read
  rw [← read]
  congr 1
  omega

theorem find_pos_hit (greater : info.experience < entry.experience)
    (others : ∀ other ∈ passed, ¬info.experience < other.experience) :
    findPosLoop info (front ++ entry :: (passed ++ back)) (front.length + 1 + passed.length) =
      some (if sameCharname entry.charname info.charname then (front.length : Int)
        else front.length + 1) := by
  induction passed using reverseRecOn generalizing back with
  | nil =>
    rw [length_nil, add_zero, nil_append, findPosLoop, read_middle]
    simp only [bind_eq_bind, bind_some, if_pos greater]
    split <;> rfl
  | append_singleton rest last ih =>
    have skipped := ih (last :: back) fun other member => others other (by simp [member])
    have low := others last (by simp)
    rw [append_assoc, singleton_append, length_append, length_singleton, ← add_assoc, findPosLoop]
    simp [read_after, low, skipped]

theorem find_pos_none (some_ : passed ≠ [])
    (others : ∀ other ∈ passed, ¬info.experience < other.experience) :
    findPosLoop info (passed ++ back) passed.length = some 0 := by
  induction passed using reverseRecOn generalizing back with
  | nil => exact absurd rfl some_
  | append_singleton rest last ih =>
    have low := others last (by simp)
    rw [append_assoc, singleton_append, length_append, length_singleton, findPosLoop]
    have read : readAt (rest ++ last :: back) rest.length = some last := by simp [readAt]
    by_cases first : rest = []
    · subst first
      simp only [nil_append, length_nil] at read ⊢
      simp [read, low]
    · have skipped := ih (last :: back) first fun other member => others other (by simp [member])
      simp [read, low, skipped]

theorem find_char_hit (same : sameCharname entry.charname info.charname = true)
    (others : ∀ other ∈ passed, sameCharname other.charname info.charname = false) :
    findCharLoop info (front ++ entry :: (passed ++ back)) (front.length + 1 + passed.length) =
      some (front.length : Int) := by
  induction passed using reverseRecOn generalizing back with
  | nil =>
    rw [length_nil, add_zero, nil_append, findCharLoop, read_middle]
    simp [same]
  | append_singleton rest last ih =>
    have skipped := ih (last :: back) fun other member => others other (by simp [member])
    have different := others last (by simp)
    rw [append_assoc, singleton_append, length_append, length_singleton, ← add_assoc, findCharLoop]
    simp [read_after, different, skipped]

theorem find_char_none
    (others : ∀ other ∈ passed, sameCharname other.charname info.charname = false) :
    findCharLoop info (passed ++ back) passed.length = some (-1) := by
  induction passed using reverseRecOn generalizing back with
  | nil => rfl
  | append_singleton rest last ih =>
    have skipped := ih (last :: back) fun other member => others other (by simp [member])
    have different := others last (by simp)
    have read : readAt (rest ++ last :: back) rest.length = some last := by simp [readAt]
    rw [append_assoc, singleton_append, length_append, length_singleton, findCharLoop]
    simp [read, different, skipped]

end Loops

section Moves
variable {info : D2LadderInfo}

theorem move_up (info : D2LadderInfo) (front passed back : List D2LadderInfo) (old : D2LadderInfo) :
    d2ladderUpdateInfoAndPos (front ++ (passed ++ old :: back)) info
        (front.length + passed.length) front.length =
      some (1, front ++ info :: (passed ++ back)) := by
  have length : ((front ++ (passed ++ old :: back)).length : Int) =
      front.length + passed.length + 1 + back.length := by
    simp only [length_append, length_cons]
    omega
  have oldInside : ¬((front.length + passed.length : Int) < 0 ∨
      ((front ++ (passed ++ old :: back)).length : Int) ≤ front.length + passed.length) := by omega
  have newInside : ¬((front.length : Int) < 0 ∨
      ((front ++ (passed ++ old :: back)).length : Int) ≤ front.length) := by omega
  have upward : ¬((front.length + passed.length : Int) < front.length) := by omega
  have loop := shift_up info front passed back old
    (front ++ (passed ++ old :: back)).length (by omega)
  simp only [d2ladderUpdateInfoAndPos, oldInside, newInside, upward, if_false, and_false,
    false_and, loop, map_some]

theorem move_out (front passed : List D2LadderInfo) (old : D2LadderInfo) (newpos : Int)
    (some_ : passed ≠ []) (out : newpos < 0 ∨ ((front ++ old :: passed).length : Int) ≤ newpos) :
    d2ladderUpdateInfoAndPos (front ++ old :: passed) info front.length newpos =
      some (1, front ++ passed ++ [info]) := by
  have length : ((front ++ old :: passed).length : Int) = front.length + passed.length + 1 := by
    simp only [length_append, length_cons]
    omega
  have positive : 0 < passed.length := length_pos_iff.mpr some_
  have oldInside : ¬((front.length : Int) < 0 ∨
      ((front ++ old :: passed).length : Int) ≤ front.length) := by omega
  have notLast : ¬((front.length : Int) = ((front ++ old :: passed).length : Int) - 1) := by omega
  have downward : (front.length : Int) < ((front ++ old :: passed).length : Int) - 1 := by omega
  have loop := shift_down info front passed [] old (front ++ old :: passed).length
    (by omega)
  have ends : ((front ++ old :: passed).length : Int) - 1 = front.length + passed.length := by omega
  rw [append_nil] at loop
  simp only [d2ladderUpdateInfoAndPos, oldInside, out, notLast, downward, if_true, if_false, not_true, and_false]
  rw [ends, loop]
  rfl

theorem move_down (front passed back : List D2LadderInfo) (old : D2LadderInfo)
    (some_ : passed ≠ []) :
    d2ladderUpdateInfoAndPos (front ++ old :: (passed ++ back)) info front.length
        (front.length + 1 + passed.length) = some (1, front ++ passed ++ info :: back) := by
  have length : ((front ++ old :: (passed ++ back)).length : Int) =
      front.length + 1 + passed.length + back.length := by
    simp only [length_append, length_cons]
    omega
  have positive : 0 < passed.length := length_pos_iff.mpr some_
  by_cases last : back = []
  · subst last
    rw [append_nil] at length ⊢
    exact move_out front passed old _ some_ (by simp only [length_nil] at length; omega)
  have more : 0 < back.length := length_pos_iff.mpr last
  have oldInside : ¬((front.length : Int) < 0 ∨
      ((front ++ old :: (passed ++ back)).length : Int) ≤ front.length) := by omega
  have newInside : ¬((front.length + 1 + passed.length : Int) < 0 ∨
      ((front ++ old :: (passed ++ back)).length : Int) ≤ front.length + 1 + passed.length) := by
    omega
  have later : (front.length : Int) < front.length + 1 + passed.length := by omega
  have target : (front.length + 1 + passed.length : Int) - 1 = front.length + passed.length := by
    omega
  have downward : (front.length : Int) < front.length + passed.length := by omega
  have loop := shift_down info front passed back old
    (front ++ old :: (passed ++ back)).length (by omega)
  simp only [d2ladderUpdateInfoAndPos, oldInside, newInside, later, if_false, if_true, and_false,
    not_false_iff, and_self, target, downward, loop, map_some]

theorem stay_out (info : D2LadderInfo) (front : List D2LadderInfo) (old : D2LadderInfo)
    (newpos : Int) (out : newpos < 0 ∨ ((front ++ [old]).length : Int) ≤ newpos) :
    d2ladderUpdateInfoAndPos (front ++ [old]) info front.length newpos =
      some (0, front ++ [old]) := by
  have length : ((front ++ [old]).length : Int) = front.length + 1 := by simp
  have oldInside : ¬((front.length : Int) < 0 ∨
      ((front ++ [old]).length : Int) ≤ front.length) := by omega
  have last : (front.length : Int) = ((front ++ [old]).length : Int) - 1 := by omega
  simp only [d2ladderUpdateInfoAndPos, oldInside, out]
  rw [if_pos ⟨last, trivial⟩]

theorem unlisted_last (info : D2LadderInfo) (front : List D2LadderInfo) (old : D2LadderInfo)
    (newpos : Int) :
    d2ladderUpdateInfoAndPos (front ++ [old]) info (-1) newpos =
      d2ladderUpdateInfoAndPos (front ++ [old]) info front.length newpos := by
  have length : ((front ++ [old]).length : Int) = front.length + 1 := by simp
  have oldInside : ¬((front.length : Int) < 0 ∨
      ((front ++ [old]).length : Int) ≤ front.length) := by omega
  have outside : (-1 : Int) < 0 ∨ ((front ++ [old]).length : Int) ≤ -1 := by omega
  have last : ((front ++ [old]).length : Int) - 1 = front.length := by omega
  simp only [d2ladderUpdateInfoAndPos, oldInside, outside, last, if_true, if_false]

end Moves

def Ranked (ladder : List D2LadderInfo) : Prop :=
  ladder.Pairwise fun above below => below.experience ≤ above.experience

def above (info entry : D2LadderInfo) : Bool := info.experience < entry.experience

/-- A ranked list with a new entry, in front of its equals. -/
def place (info : D2LadderInfo) (others : List D2LadderInfo) : List D2LadderInfo :=
  others.takeWhile (above info) ++ info :: others.dropWhile (above info)

variable {ladder : List D2LadderInfo}

section Places
variable {info : D2LadderInfo} {threshold : UInt32}

theorem drop_not_above (info : D2LadderInfo) (ranked : Ranked ladder) :
    ∀ entry ∈ ladder.dropWhile (above info), ¬info.experience < entry.experience := by
  induction ladder with
  | nil => simp
  | cons first rest ih =>
    obtain ⟨below, later⟩ := pairwise_cons.mp ranked
    by_cases high : info.experience < first.experience
    · rw [dropWhile_cons_of_pos (by simpa [above] using high)]
      exact ih later
    rw [dropWhile_cons_of_neg (by simpa [above] using high)]
    intro entry member
    rcases mem_cons.mp member with rfl | inside
    · exact high
    · intro higher
      exact high (UInt32.lt_of_lt_of_le higher (below entry inside))

variable {back front : List D2LadderInfo}

theorem place_split (high : ∀ entry ∈ front, info.experience < entry.experience)
    (low : ∀ entry ∈ back, ¬info.experience < entry.experience) :
    place info (front ++ back) = front ++ info :: back := by
  have highs : ∀ entry ∈ front, above info entry = true := fun entry member => by
    simpa [above] using high entry member
  have none_ : back.takeWhile (above info) = [] ∧ back.dropWhile (above info) = back := by
    cases back with
    | nil => exact ⟨rfl, rfl⟩
    | cons first rest =>
      have lower : ¬above info first = true := by simpa [above] using low first (by simp)
      exact ⟨takeWhile_cons_of_neg lower, dropWhile_cons_of_neg lower⟩
  rw [place, takeWhile_append_of_pos highs, dropWhile_append_of_pos highs, none_.1,
    none_.2, append_nil]

theorem take_above (info : D2LadderInfo) (ladder : List D2LadderInfo) :
    ∀ entry ∈ ladder.takeWhile (above info), info.experience < entry.experience := by
  intro entry member
  simpa [above] using mem_takeWhile_imp member

theorem find_pos_split (some_ : front ++ back ≠ [])
    (high : ∀ entry ∈ front, info.experience < entry.experience)
    (low : ∀ entry ∈ back, ¬info.experience < entry.experience)
    (different : ∀ entry ∈ front, sameCharname entry.charname info.charname = false) :
    findPosLoop info (front ++ back) (front ++ back).length = some (front.length : Int) := by
  rcases eq_nil_or_concat front with empty | ⟨init, last, split⟩
  · subst empty
    have none_ := find_pos_none back [] (by simpa using some_) low
    simpa using none_
  rw [concat_eq_append] at split
  subst split
  have hit := find_pos_hit init back [] last (high last (by simp)) low
  rw [different last (by simp)] at hit
  simp only [append_assoc, singleton_append, append_nil, length_append, length_cons] at hit ⊢
  rw [show init.length + (back.length + 1) = init.length + 1 + back.length by omega, hit]
  simp

theorem find_char_listed (front back : List D2LadderInfo) (old : D2LadderInfo)
    (same : sameCharname old.charname info.charname = true)
    (others : ∀ entry ∈ back, sameCharname entry.charname info.charname = false) :
    d2ladderFindCharAll (front ++ old :: back) info = some (front.length : Int) := by
  have hit := find_char_hit front back [] old same others
  rw [append_nil] at hit
  rw [d2ladderFindCharAll, ← hit]
  congr 1
  simp only [length_append, length_cons]
  omega

theorem find_char_unlisted (ladder : List D2LadderInfo)
    (others : ∀ entry ∈ ladder, sameCharname entry.charname info.charname = false) :
    d2ladderFindCharAll ladder info = some (-1) := by
  have none_ := find_char_none ladder [] others
  rwa [append_nil] at none_

theorem insert_listed {old : D2LadderInfo} (ranked : Ranked (front ++ old :: back))
    (same : sameCharname old.charname info.charname = true)
    (others : ∀ entry ∈ front ++ back, sameCharname entry.charname info.charname = false)
    (enough : ¬info.experience < threshold) :
    d2ladderInsert threshold (front ++ old :: back) info =
      some (1, place info (front ++ back)) := by
  have listed := find_char_listed front back old same fun entry member =>
    others entry (mem_append_right _ member)
  obtain ⟨frontRanked, backRanked, across⟩ := pairwise_append.mp ranked
  obtain ⟨below, backRanked⟩ := pairwise_cons.mp backRanked
  rw [d2ladderInsert, d2ladderFindPos, if_neg enough, listed]
  by_cases falls : info.experience < old.experience
  · have frontHigh : ∀ entry ∈ front, info.experience < entry.experience := fun entry member =>
      UInt32.lt_of_lt_of_le falls (across entry member old (by simp))
    have low := drop_not_above info backRanked
    have parts := takeWhile_append_dropWhile (p := above info) (l := back)
    have high := take_above info back
    generalize back.takeWhile (above info) = passed at parts high
    generalize back.dropWhile (above info) = rest at parts low
    subst parts
    have placed : place info (front ++ (passed ++ rest)) = front ++ passed ++ info :: rest := by
      rw [← append_assoc]
      apply place_split _ low
      intro entry member
      rcases mem_append.mp member with inFront | inPassed
      · exact frontHigh entry inFront
      · exact high entry inPassed
    rw [placed]
    by_cases alone : passed = []
    · subst alone
      have hit := find_pos_hit front rest [] old falls low
      rw [if_pos same, append_nil] at hit
      have length : (front ++ old :: ([] ++ rest)).length = front.length + 1 + rest.length := by
        simp only [length_append, length_cons, nil_append]
        omega
      rw [length, nil_append, hit]
      have moved := move_up info front [] rest old
      simpa using moved
    obtain ⟨init, last, split⟩ := (eq_nil_or_concat passed).resolve_left alone
    rw [concat_eq_append] at split
    have different := others last (by simp [split])
    have hit := find_pos_hit (front ++ old :: init) rest [] last (high last (by simp [split])) low
    rw [different, append_nil] at hit
    have whole : front ++ old :: (passed ++ rest) = (front ++ old :: init) ++ last :: rest := by
      simp [split]
    have length : ((front ++ old :: init) ++ last :: rest).length =
        (front ++ old :: init).length + 1 + rest.length := by
      simp only [length_append, length_cons]
      omega
    have position : (((front ++ old :: init).length : Nat) : Int) + 1 =
        front.length + 1 + passed.length := by
      simp only [split, length_append, length_cons, length_nil]
      omega
    have found : findPosLoop info (front ++ old :: (passed ++ rest))
        (front ++ old :: (passed ++ rest)).length =
          some (front.length + 1 + passed.length : Int) := by
      rw [whole, length, hit, ← position]
      simp
    rw [found]
    exact move_down front passed rest old alone
  · have low := drop_not_above info frontRanked
    have parts := takeWhile_append_dropWhile (p := above info) (l := front)
    have high := take_above info front
    generalize front.takeWhile (above info) = higher at parts high
    generalize front.dropWhile (above info) = passed at parts low
    subst parts
    have backLow : ∀ entry ∈ back, ¬info.experience < entry.experience := fun entry member more =>
      falls (UInt32.lt_of_lt_of_le more (below entry member))
    have lowBack : ∀ entry ∈ passed ++ back, ¬info.experience < entry.experience := by
      intro entry member
      rcases mem_append.mp member with inPassed | inBack
      · exact low entry inPassed
      · exact backLow entry inBack
    have lowAll : ∀ entry ∈ passed ++ old :: back, ¬info.experience < entry.experience := by
      intro entry member
      rcases mem_append.mp member with inPassed | inBack
      · exact low entry inPassed
      · rcases mem_cons.mp inBack with rfl | later
        · exact falls
        · exact backLow entry later
    have some_ : higher ++ (passed ++ old :: back) ≠ [] := by simp
    have found := find_pos_split some_ high lowAll fun entry member =>
      others entry (by simp [member])
    rw [append_assoc higher passed back, place_split high lowBack, append_assoc, found]
    have moved := move_up info higher passed back old
    rw [length_append, cast_add]
    exact moved

theorem insert_unlisted (some_ : ladder ≠ []) (ranked : Ranked ladder)
    (others : ∀ entry ∈ ladder, sameCharname entry.charname info.charname = false)
    (enough : ¬info.experience < threshold) :
    ∃ code, d2ladderInsert threshold ladder info = some (code, (place info ladder).dropLast) := by
  have unlisted := find_char_unlisted ladder others
  have low := drop_not_above info ranked
  have parts := takeWhile_append_dropWhile (p := above info) (l := ladder)
  have high := take_above info ladder
  generalize ladder.takeWhile (above info) = higher at parts high
  generalize ladder.dropWhile (above info) = rest at parts low
  subst parts
  have found := find_pos_split some_ high low fun entry member => others entry (by simp [member])
  rw [d2ladderInsert, d2ladderFindPos, if_neg enough, unlisted, found, place_split high low]
  rcases eq_nil_or_concat rest with empty | ⟨init, last, split⟩
  · subst empty
    rw [append_nil] at some_ ⊢
    obtain ⟨init, last, split⟩ := (eq_nil_or_concat higher).resolve_left some_
    subst split
    refine ⟨0, ?_⟩
    have stayed := stay_out info init last (init ++ [last]).length (.inr (le_refl _))
    rw [← unlisted_last] at stayed
    simpa using stayed
  · rw [concat_eq_append] at split
    subst split
    refine ⟨1, ?_⟩
    have moved := move_up info higher init [] last
    have taken := unlisted_last info (higher ++ init) last higher.length
    rw [append_nil] at moved
    rw [length_append, cast_add, append_assoc, moved] at taken
    have dropped : (higher ++ info :: (init ++ [last])).dropLast = higher ++ info :: init := by
      rw [← cons_append, ← append_assoc, dropLast_concat]
    rw [dropped]
    exact taken

theorem insert_low {old : D2LadderInfo} (same : sameCharname old.charname info.charname = true)
    (others : ∀ entry ∈ back, sameCharname entry.charname info.charname = false)
    (low : info.experience < threshold) :
    ∃ code, d2ladderInsert threshold (front ++ old :: back) info =
      some (code, if back = [] then front ++ [old] else front ++ back ++ [info]) := by
  have listed := find_char_listed front back old same others
  rw [d2ladderInsert, d2ladderFindPos, if_pos low, listed]
  by_cases last : back = []
  · subst last
    exact ⟨0, stay_out info front old (-1) (.inl (by omega))⟩
  · rw [if_neg last]
    exact ⟨1, move_out front back old (-1) last (.inl (by omega))⟩

theorem insert_low_unlisted (some_ : ladder ≠ [])
    (others : ∀ entry ∈ ladder, sameCharname entry.charname info.charname = false)
    (low : info.experience < threshold) :
    d2ladderInsert threshold ladder info = some (0, ladder) := by
  have unlisted := find_char_unlisted ladder others
  obtain ⟨init, last, split⟩ := (eq_nil_or_concat ladder).resolve_left some_
  rw [concat_eq_append] at split
  subst split
  have stayed := stay_out info init last (-1) (.inl (by omega))
  rw [← unlisted_last] at stayed
  rw [d2ladderInsert, d2ladderFindPos, if_pos low, unlisted]
  exact stayed

end Places

def run (threshold : UInt32) (ladder : List D2LadderInfo) :
    List D2LadderInfo → Option (List D2LadderInfo)
  | [] => some ladder
  | info :: rest => do
    let (_, ladder) ← d2ladderInsert threshold ladder info
    run threshold ladder rest

def latest (inserts : List D2LadderInfo) (charname : Text) : Option D2LadderInfo :=
  inserts.reverse.find? fun info => sameCharname info.charname charname

def Apart (left right : D2LadderInfo) : Prop :=
  sameCharname left.charname right.charname = true → left.charname = []

structure Good (count : Nat) (inserts ladder : List D2LadderInfo) : Prop where
  length : ladder.length = count
  ranked : Ranked ladder
  distinct : ladder.Pairwise Apart
  carries : ∀ entry ∈ ladder, entry.charname ≠ [] → latest inserts entry.charname = some entry

def another (info entry : D2LadderInfo) : Bool := !sameCharname entry.charname info.charname

/-- The other characters stay in order, and at most the last entry is dropped. -/
def KeepsOthers (info : D2LadderInfo) (ladder after : List D2LadderInfo) : Prop :=
  ∃ kept, (kept = ladder ∨ kept = ladder.dropLast) ∧
    after.filter (another info) = kept.filter (another info)

/-- Below the threshold, a character that is listed is the last entry and has this data already, or
the last entry has no less experience. -/
def Allowed (threshold : UInt32) (ladder : List D2LadderInfo) (info : D2LadderInfo) : Prop :=
  info.experience < threshold → ∀ front old back, ladder = front ++ old :: back →
    sameCharname old.charname info.charname = true →
      (back = [] ∧ old = info) ∨ ∃ last ∈ back.getLast?, info.experience ≤ last.experience

section Steps
variable {threshold : UInt32} {count : Nat} {inserts ladder : List D2LadderInfo}
  {info : D2LadderInfo}

variable (name : Text) {left : Text} {others : List D2LadderInfo} {right : Text}

theorem same_charname_symm (same : sameCharname left right = true) :
    sameCharname right left = true := by
  simp only [sameCharname, sameCaseless, decide_eq_true_eq] at same ⊢
  exact same.symm

theorem same_charname_trans {first second third : Text} (left : sameCharname first second = true)
    (right : sameCharname second third = true) : sameCharname first third = true := by
  simp only [sameCharname, sameCaseless, decide_eq_true_eq] at left right ⊢
  exact left.trans right

theorem same_charname_refl : sameCharname name name = true := by
  simp [sameCharname, sameCaseless]

theorem same_charname_empty (same : sameCharname left right = true) (empty : left = []) :
    right = [] := by
  subst empty
  simpa [sameCharname, sameCaseless, maxCharnameLen] using same

theorem apart_symm {left right : D2LadderInfo} (apart : Apart left right) : Apart right left := by
  intro same
  have back := same_charname_symm same
  exact same_charname_empty back (apart back)

theorem latest_append : latest (inserts ++ [info]) name =
    if sameCharname info.charname name then some info else latest inserts name := by
  rw [latest, reverse_append, reverse_singleton, singleton_append, find?_cons]
  cases sameCharname info.charname name <;> rfl

theorem place_perm (info : D2LadderInfo) (others : List D2LadderInfo) :
    (place info others).Perm (info :: others) := by
  have whole := takeWhile_append_dropWhile (p := above info) (l := others)
  calc place info others
      = others.takeWhile (above info) ++ info :: others.dropWhile (above info) := rfl
    _ |>.Perm (info :: (others.takeWhile (above info) ++ others.dropWhile (above info))) :=
        perm_middle
    _ = info :: others := by rw [whole]

theorem place_ranked (ranked : Ranked others) : Ranked (place info others) := by
  have low := drop_not_above info ranked
  have high := take_above info others
  have parts := takeWhile_append_dropWhile (p := above info) (l := others)
  rw [place]
  generalize others.takeWhile (above info) = higher at parts high
  generalize others.dropWhile (above info) = lower at parts low
  subst parts
  obtain ⟨first, second, across⟩ := pairwise_append.mp ranked
  refine pairwise_append.mpr ⟨first, pairwise_cons.mpr ⟨?_, second⟩, ?_⟩
  · intro entry member
    exact UInt32.not_lt.mp (low entry member)
  intro entry member other inside
  rcases mem_cons.mp inside with rfl | later
  · exact UInt32.le_of_lt (high entry member)
  · exact across entry member other later

variable {front : List D2LadderInfo} {old : D2LadderInfo} {back : List D2LadderInfo}

theorem place_drop_last {last : D2LadderInfo} (ranked : Ranked (front ++ [last])) :
    (place info (front ++ [last])).dropLast =
      if info.experience < last.experience then front ++ [last] else place info front := by
  obtain ⟨_, _, across⟩ := pairwise_append.mp ranked
  by_cases high : info.experience < last.experience
  · have all : ∀ entry ∈ front ++ [last], info.experience < entry.experience := by
      intro entry member
      rcases mem_append.mp member with inFront | isLast
      · exact UInt32.lt_of_lt_of_le high (across entry inFront last (by simp))
      · rwa [mem_singleton.mp isLast]
    have none_ : ∀ entry ∈ ([] : List D2LadderInfo), ¬info.experience < entry.experience := by
      simp
    have placed := place_split all none_
    rw [append_nil] at placed
    rw [if_pos high, placed, dropLast_concat]
  · have low := drop_not_above info (pairwise_append.mp ranked).1
    have higher := take_above info front
    have parts := takeWhile_append_dropWhile (p := above info) (l := front)
    rw [if_neg high]
    generalize front.takeWhile (above info) = upper at parts higher
    generalize front.dropWhile (above info) = lower at parts low
    subst parts
    have lowLast : ∀ entry ∈ lower ++ [last], ¬info.experience < entry.experience := by
      intro entry member
      rcases mem_append.mp member with inLower | isLast
      · exact low entry inLower
      · rwa [mem_singleton.mp isLast]
    rw [append_assoc, place_split higher lowLast, place_split higher low, ← cons_append,
      ← append_assoc, dropLast_concat]

theorem good_insert {after : List D2LadderInfo} (good : Good count inserts ladder)
    (kept : others.Sublist ladder)
    (different : ∀ entry ∈ others, sameCharname entry.charname info.charname = false)
    (perm : after.Perm (info :: others)) (ranked : Ranked after) (length : after.length = count) :
    Good count (inserts ++ [info]) after := by
  refine ⟨length, ranked, ?_, ?_⟩
  · refine (perm.pairwise_iff fun apart => apart_symm apart).mpr (pairwise_cons.mpr ⟨?_, ?_⟩)
    · intro entry member same
      have apart := different entry member
      rw [same_charname_symm same] at apart
      cases apart
    · exact good.distinct.sublist kept
  intro entry member named
  rw [latest_append]
  rcases mem_cons.mp (perm.mem_iff.mp member) with rfl | inOthers
  · rw [if_pos (same_charname_refl _)]
  have apart : sameCharname info.charname entry.charname = false := by
    rw [← Bool.not_eq_true]
    intro same
    have other := different entry inOthers
    rw [same_charname_symm same] at other
    cases other
  simpa [apart] using good.carries entry (kept.subset inOthers) named

/-- The insert of a character that is not listed can leave the ladder as it is. -/
theorem good_ignored (good : Good count inserts ladder)
    (different : ∀ entry ∈ ladder, sameCharname entry.charname info.charname = false) :
    Good count (inserts ++ [info]) ladder := by
  refine ⟨good.length, good.ranked, good.distinct, ?_⟩
  intro entry member named
  have apart : sameCharname info.charname entry.charname = false := by
    rw [← Bool.not_eq_true]
    intro same
    have other := different entry member
    rw [same_charname_symm same] at other
    cases other
  rw [latest_append, apart]
  exact good.carries entry member named

theorem filter_same (front back : List D2LadderInfo)
    (same : sameCharname old.charname info.charname = true) :
    (front ++ old :: back).filter (another info) = (front ++ back).filter (another info) := by
  simp [another, same]

theorem filter_place (others : List D2LadderInfo) :
    (place info others).filter (another info) = others.filter (another info) := by
  have whole := takeWhile_append_dropWhile (p := above info) (l := others)
  rw [place, filter_same _ _ (same_charname_refl _), whole]

theorem listed_once (good : Good count inserts ladder) (named : info.charname ≠ []) :
    (∀ entry ∈ ladder, sameCharname entry.charname info.charname = false) ∨
      ∃ front old back, ladder = front ++ old :: back ∧
        sameCharname old.charname info.charname = true ∧
        ∀ entry ∈ front ++ back, sameCharname entry.charname info.charname = false := by
  by_cases listed : ∃ old ∈ ladder, sameCharname old.charname info.charname = true
  · right
    obtain ⟨old, member, same⟩ := listed
    obtain ⟨front, back, rfl⟩ := append_of_mem member
    refine ⟨front, old, back, rfl, same, ?_⟩
    have oldNamed : old.charname ≠ [] := fun empty => named (same_charname_empty same empty)
    obtain ⟨_, later, across⟩ := pairwise_append.mp good.distinct
    intro entry inside
    rw [← Bool.not_eq_true]
    intro other
    have both := same_charname_trans same (same_charname_symm other)
    rcases mem_append.mp inside with inFront | inBack
    · have apart := across entry inFront old (by simp) (same_charname_symm both)
      exact oldNamed (same_charname_empty (same_charname_symm both) apart)
    · exact oldNamed ((pairwise_cons.mp later).1 entry inBack both)
  · left
    intro entry member
    rw [← Bool.not_eq_true]
    exact fun same => listed ⟨entry, member, same⟩

theorem allowed_listed (same : sameCharname old.charname info.charname = true)
    (others : ∀ entry ∈ front ++ back, sameCharname entry.charname info.charname = false) :
    Allowed threshold (front ++ old :: back) info ↔ (info.experience < threshold →
      (back = [] ∧ old = info) ∨ ∃ last ∈ back.getLast?, info.experience ≤ last.experience) := by
  constructor
  · intro allowed low
    exact allowed low front old back rfl same
  intro fits low first entry second split listed
  have absent : ∀ part : List D2LadderInfo, (∀ other ∈ part, other ∈ front ++ back) →
      entry ∉ part := by
    intro part within inside
    have other := others entry (within entry inside)
    rw [listed] at other
    cases other
  have inFront := absent front fun other => mem_append_left back
  have inBack := absent back fun other => mem_append_right front
  obtain ⟨_, rfl, rfl⟩ := (append_cons_inj_of_notMem inFront inBack).mp split
  exact fits low

theorem insert_listed_good (good : Good count inserts (front ++ old :: back))
    (same : sameCharname old.charname info.charname = true)
    (others : ∀ entry ∈ front ++ back, sameCharname entry.charname info.charname = false)
    (enough : ¬info.experience < threshold) :
    ∃ code after, d2ladderInsert threshold (front ++ old :: back) info = some (code, after) ∧
      Good count (inserts ++ [info]) after ∧ KeepsOthers info (front ++ old :: back) after := by
  have sub : (front ++ back).Sublist (front ++ old :: back) :=
    (Sublist.refl front).append (sublist_cons_self old back)
  have placed := place_perm info (front ++ back)
  have length : (place info (front ++ back)).length = count := by
    have total := good.length
    rw [placed.length_eq]
    simp only [length_cons, length_append] at total ⊢
    omega
  refine ⟨1, _, insert_listed good.ranked same others enough,
    good_insert good sub others placed (place_ranked (good.ranked.sublist sub)) length,
    _, .inl rfl, ?_⟩
  rw [filter_place, filter_same front back same]

theorem insert_unlisted_good (some_ : ladder ≠ []) (good : Good count inserts ladder)
    (others : ∀ entry ∈ ladder, sameCharname entry.charname info.charname = false)
    (enough : ¬info.experience < threshold) :
    ∃ code after, d2ladderInsert threshold ladder info = some (code, after) ∧
      Good count (inserts ++ [info]) after ∧ KeepsOthers info ladder after := by
  obtain ⟨code, ran⟩ := insert_unlisted some_ good.ranked others enough
  obtain ⟨front, last, split⟩ := (eq_nil_or_concat ladder).resolve_left some_
  rw [concat_eq_append] at split
  subst split
  rw [place_drop_last good.ranked] at ran
  refine ⟨code, _, ran, ?_⟩
  by_cases high : info.experience < last.experience
  · rw [if_pos high]
    exact ⟨good_ignored good others, _, .inl rfl, rfl⟩
  rw [if_neg high]
  have sub : front.Sublist (front ++ [last]) := sublist_append_left front [last]
  have placed := place_perm info front
  have length : (place info front).length = count := by
    have total := good.length
    rw [placed.length_eq]
    simpa using total
  refine ⟨good_insert good sub (fun entry member => others entry (mem_append_left _ member))
    placed (place_ranked (good.ranked.sublist sub)) length, _, .inr rfl, ?_⟩
  rw [filter_place, dropLast_concat]

theorem insert_low_good_iff (good : Good count inserts (front ++ old :: back))
    (named : info.charname ≠ []) (same : sameCharname old.charname info.charname = true)
    (others : ∀ entry ∈ front ++ back, sameCharname entry.charname info.charname = false)
    (low : info.experience < threshold) :
    ∃ code after, d2ladderInsert threshold (front ++ old :: back) info = some (code, after) ∧
      ((Good count (inserts ++ [info]) after ∧ KeepsOthers info (front ++ old :: back) after) ↔
        ((back = [] ∧ old = info) ∨
          ∃ last ∈ back.getLast?, info.experience ≤ last.experience)) := by
  obtain ⟨code, ran⟩ := insert_low same
    (fun entry member => others entry (mem_append_right _ member)) low
  refine ⟨code, _, ran, ?_⟩
  have sub : (front ++ back).Sublist (front ++ old :: back) :=
    (Sublist.refl front).append (sublist_cons_self old back)
  rcases eq_nil_or_concat back with empty | ⟨init, last, split⟩
  · subst empty
    constructor
    · rintro ⟨after, -⟩
      have oldNamed : old.charname ≠ [] := fun empty => named (same_charname_empty same empty)
      have carried := after.carries old (by simp) oldNamed
      rw [latest_append, if_pos (same_charname_symm same)] at carried
      exact .inl ⟨rfl, (some.inj carried).symm⟩
    · rintro (⟨-, rfl⟩ | ⟨last, inside, -⟩)
      · rw [append_nil] at others sub
        refine ⟨good_insert good sub others ?_ good.ranked good.length, _, .inl rfl, rfl⟩
        exact perm_append_singleton old front
      · cases inside
  rw [concat_eq_append] at split
  subst split
  rw [if_neg (by simp)]
  have ends : (init ++ [last]).getLast? = some last := by simp
  constructor
  · rintro ⟨after, -⟩
    have across := (pairwise_append.mp after.ranked).2.2
    exact .inr ⟨last, ends, across last (by simp) info (by simp)⟩
  rintro (⟨empty, -⟩ | ⟨entry, inside, below⟩)
  · simp at empty
  obtain rfl : last = entry := some.inj (ends.symm.trans inside)
  have rankedOthers := good.ranked.sublist sub
  have ranked : Ranked (front ++ (init ++ [last]) ++ [info]) := by
    refine pairwise_append.mpr ⟨rankedOthers, pairwise_singleton _ _, ?_⟩
    intro entry member final isInfo
    rw [mem_singleton.mp isInfo]
    rw [← append_assoc] at member rankedOthers
    rcases mem_append.mp member with before | isLast
    · have above := (pairwise_append.mp rankedOthers).2.2 entry before last (by simp)
      exact UInt32.le_trans below above
    · rwa [mem_singleton.mp isLast]
  have perm := perm_append_singleton info (front ++ (init ++ [last]))
  have length : (front ++ (init ++ [last]) ++ [info]).length = count := by
    have total := good.length
    simp only [length_append, length_cons] at total ⊢
    omega
  refine ⟨good_insert good sub others perm ranked length, _, .inl rfl, ?_⟩
  rw [filter_same front (init ++ [last]) same,
    filter_same (front ++ (init ++ [last])) [] (same_charname_refl _), append_nil]

theorem insert_good_iff (threshold : UInt32) (some_ : ladder ≠ [])
    (good : Good count inserts ladder) (named : info.charname ≠ []) :
    ∃ code after, d2ladderInsert threshold ladder info = some (code, after) ∧
      ((Good count (inserts ++ [info]) after ∧ KeepsOthers info ladder after) ↔
        Allowed threshold ladder info) := by
  rcases listed_once good named with others | ⟨front, old, back, rfl, same, others⟩
  · have allowed : Allowed threshold ladder info := by
      rintro - front old back rfl same
      have apart := others old (by simp)
      rw [same] at apart
      cases apart
    by_cases low : info.experience < threshold
    · refine ⟨0, ladder, insert_low_unlisted some_ others low, ?_⟩
      exact iff_of_true ⟨good_ignored good others, _, .inl rfl, rfl⟩ allowed
    · obtain ⟨code, after, ran, right⟩ := insert_unlisted_good some_ good others low
      exact ⟨code, after, ran, iff_of_true right allowed⟩
  · rw [allowed_listed same others]
    by_cases low : info.experience < threshold
    · obtain ⟨code, after, ran, right⟩ := insert_low_good_iff good named same others low
      exact ⟨code, after, ran, right.trans ⟨fun fits _ => fits, fun fits => fits low⟩⟩
    · obtain ⟨code, after, ran, right⟩ := insert_listed_good good same others low
      exact ⟨code, after, ran, iff_of_true right fun below => absurd below low⟩

end Steps

section Runs
variable {threshold : UInt32} {count : Nat} {inserts : List D2LadderInfo}

theorem run_snoc (ladder done : List D2LadderInfo) (info : D2LadderInfo) :
    run threshold ladder (done ++ [info]) =
      (run threshold ladder done).bind fun before =>
        (d2ladderInsert threshold before info).map Prod.snd := by
  induction done generalizing ladder with
  | nil =>
    simp only [nil_append, run, bind_some]
    cases d2ladderInsert threshold ladder info <;> rfl
  | cons first rest ih =>
    simp only [cons_append, run]
    cases d2ladderInsert threshold ladder first with
    | none => rfl
    | some result => exact ih result.2

theorem good_start : Good count [] (replicate count emptyInfo) := by
  refine ⟨length_replicate, ?_, ?_, ?_⟩
  · exact pairwise_replicate.mpr (.inr (UInt32.le_refl _))
  · exact pairwise_replicate.mpr (.inr fun _ => rfl)
  · intro entry member named
    rw [eq_of_mem_replicate member] at named
    exact absurd rfl named

theorem good_some (positive : 0 < count) (good : Good count inserts ladder) : ladder ≠ [] :=
  ne_nil_of_length_pos (good.length ▸ positive)

def RightAfter (threshold : UInt32) (count : Nat) (done : List D2LadderInfo)
    (info : D2LadderInfo) : Prop :=
  ∃ before code after, run threshold (replicate count emptyInfo) done = some before ∧
    d2ladderInsert threshold before info = some (code, after) ∧
    Good count (done ++ [info]) after ∧ KeepsOthers info before after

def AllowedAfter (threshold : UInt32) (count : Nat) (done : List D2LadderInfo)
    (info : D2LadderInfo) : Prop :=
  ∀ before ∈ run threshold (replicate count emptyInfo) done, Allowed threshold before info

variable {done : List D2LadderInfo}

theorem right_snoc {info : D2LadderInfo} (right : RightAfter threshold count done info) :
    ∃ ladder, run threshold (replicate count emptyInfo) (done ++ [info]) = some ladder ∧
      Good count (done ++ [info]) ladder := by
  obtain ⟨before, code, after, ran, inserted, good, -⟩ := right
  exact ⟨after, by rw [run_snoc, ran, bind_some, inserted, map_some], good⟩

theorem right_iff_allowed {info : D2LadderInfo} (positive : 0 < count) (named : info.charname ≠ [])
    (reached : ∃ ladder, run threshold (replicate count emptyInfo) done = some ladder ∧
      Good count done ladder) :
    RightAfter threshold count done info ↔ AllowedAfter threshold count done info := by
  obtain ⟨ladder, ran, good⟩ := reached
  obtain ⟨code, after, inserted, right⟩ :=
    insert_good_iff threshold (good_some positive good) good named
  constructor
  · rintro ⟨before, result, later, start, second, fits⟩ other reached
    obtain rfl := some.inj (ran.symm.trans start)
    obtain rfl : ladder = other := some.inj (ran.symm.trans reached)
    obtain ⟨rfl, rfl⟩ := Prod.mk.inj (some.inj (inserted.symm.trans second))
    exact right.mp fits
  · intro allowed
    exact ⟨ladder, code, after, ran, inserted, right.mpr (allowed ladder ran)⟩

theorem forall_prefix_snoc {property : List D2LadderInfo → D2LadderInfo → Prop}
    {last : D2LadderInfo} :
    (∀ done info, done ++ [info] <+: inserts ++ [last] → property done info) ↔
      (∀ done info, done ++ [info] <+: inserts → property done info) ∧ property inserts last := by
  constructor
  · intro all
    refine ⟨fun done info inside => all done info ?_, all inserts last (prefix_refl _)⟩
    exact inside.trans (prefix_append inserts [last])
  rintro ⟨before, final⟩ done info inside
  rcases prefix_concat_iff.mp inside with whole | shorter
  · obtain ⟨rfl, rfl⟩ := append_inj' whole rfl |>.imp_right singleton_inj.mp
    exact final
  · exact before done info shorter

theorem reached_good
    (right : ∀ done info, done ++ [info] <+: inserts → RightAfter threshold count done info) :
    ∃ ladder, run threshold (replicate count emptyInfo) inserts = some ladder ∧
      Good count inserts ladder := by
  rcases eq_nil_or_concat inserts with empty | ⟨init, last, split⟩
  · subst empty
    exact ⟨_, rfl, good_start⟩
  · rw [concat_eq_append] at split
    subst split
    exact right_snoc (right init last (prefix_refl _))

/-- Every ladder of a run is sorted, lists a character once with its latest data, and keeps the
order of the others, exactly if every insert of the run is allowed where it happens. -/
theorem ladder_exact (threshold : UInt32) (count : Nat) (positive : 0 < count)
    (inserts : List D2LadderInfo) (named : ∀ info ∈ inserts, info.charname ≠ []) :
    (∀ done info, done ++ [info] <+: inserts → RightAfter threshold count done info) ↔
      ∀ done info, done ++ [info] <+: inserts → AllowedAfter threshold count done info := by
  induction inserts using reverseRecOn with
  | nil => simp
  | append_singleton rest last ih =>
    have earlier := ih fun info member => named info (mem_append_left _ member)
    have lastNamed := named last (by simp)
    rw [forall_prefix_snoc, forall_prefix_snoc]
    constructor
    · rintro ⟨before, final⟩
      exact ⟨earlier.mp before,
        (right_iff_allowed positive lastNamed (reached_good before)).mp final⟩
    · rintro ⟨before, final⟩
      have right := earlier.mpr before
      exact ⟨right, (right_iff_allowed positive lastNamed (reached_good right)).mpr final⟩

end Runs

section Failure

def amazon (experience : UInt32) : D2LadderInfo := ⟨experience, 0, 0, 0, [97]⟩

/-- A character whose experience grows above a threshold of 100. -/
theorem rising_character_right : RightAfter 100 2 [amazon 200] (amazon 300) := by
  have enough : ∀ entry ∈ [amazon 200, amazon 300], ¬entry.experience < 100 := by decide
  refine (ladder_exact 100 2 (by decide) [amazon 200, amazon 300] (by decide)).mpr ?_ _ _
    (prefix_refl _)
  intro done info inside before _ low
  have member := inside.subset (mem_append_right done (mem_singleton_self info))
  exact absurd low (enough info member)

/-- With a threshold of 100, a character that loses its experience is put behind the empty entry. -/
theorem fallen_character_unsorted :
    ¬∀ done info, done ++ [info] <+: [amazon 200, amazon 10] → RightAfter 100 2 done info := by
  intro right
  obtain ⟨before, code, after, ran, inserted, good, -⟩ :=
    right [amazon 200] (amazon 10) (prefix_refl _)
  have first : run 100 [emptyInfo, emptyInfo] [amazon 200] = some [amazon 200, emptyInfo] := by
    decide
  have second : d2ladderInsert 100 [amazon 200, emptyInfo] (amazon 10) =
      some (1, [emptyInfo, amazon 10]) := by decide
  obtain rfl := some.inj (first.symm.trans ran)
  obtain ⟨rfl, rfl⟩ := Prod.mk.inj (some.inj (second.symm.trans inserted))
  have unsorted : ¬Ranked [emptyInfo, amazon 10] := by
    simp only [Ranked]
    decide
  exact unsorted good.ranked

end Failure

end Pvpgn.D2Ladder
