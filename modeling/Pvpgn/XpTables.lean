import Pvpgn.CheckedArray
import Pvpgn.Stdio
import Mathlib.Data.List.Induction

/-!
The experience tables of Warcraft III (`ladder.cpp`): the two configuration files, the tables that
are made of them and what is read there. An index outside a table is `none`.
-/

namespace Pvpgn.XpTables
open CheckedArray Stdio List Option Bool

def w3XpcalcMaxlevel : Nat := 65

structure XplevelEntry where
  startxp : Int
  neededxp : Int
  /-- As a percentage. -/
  lossfactor : Int
  mingames : Int
  deriving DecidableEq

structure XpcalcEntry where
  higherWinxp : Int
  higherLossxp : Int
  lowerWinxp : Int
  lowerLossxp : Int
  deriving DecidableEq

/-- What `memset` leaves. -/
def emptyLevel : XplevelEntry := ⟨0, 0, 0, 0⟩

def emptyCalc : XpcalcEntry := ⟨0, 0, 0, 0⟩

structure LevelLine where
  level : Int
  entry : XplevelEntry

structure CalcLine where
  leveldiff : Int
  entry : XpcalcEntry
  deriving DecidableEq

/-- The loop of `fgets` into 256 bytes, with fuel. -/
def readBuffers : Nat → Text → List Text
  | 0, _ => []
  | fuel + 1, file =>
    match fgets 256 file with
    | none => []
    | some (buffer, rest) => buffer :: readBuffers fuel rest

/-- Every `fgets` takes a byte, so the length of the file is fuel enough. -/
def buffers (file : Text) : List Text := readBuffers file.length file

/-- What is left of a line without its newline and its comment; a line of one byte is skipped. -/
def stripLine (buffer : Text) : Option Text :=
  let buffer := cstring buffer
  if buffer.length < 2 then none
  else some ((if buffer.getLast? = some 10 then buffer.dropLast else buffer).takeWhile (· ≠ 35))

/-- The lines of which `sscanf` with the format of the level file makes all five values. Its `%f`
and the percentage that is made of it are given. -/
def levelLines (scanLevel : Text → Option LevelLine) (file : Text) : List LevelLine :=
  ((buffers file).filterMap stripLine).filterMap scanLevel

def calcFormat : List Directive :=
  [.white, .conversion (.signed 10), .white, .conversion (.signed 10), .white,
    .conversion (.signed 10), .white, .conversion (.signed 10), .white, .conversion (.signed 10),
    .white, .conversion (.signed 10), .white]

def scanCalc (buffer : Text) : Option CalcLine :=
  match sscanf buffer calcFormat with
  | [.signed _, .signed leveldiff, .signed higherXpgained, .signed higherXplost,
      .signed lowerXpgained, .signed lowerXplost] =>
      some ⟨leveldiff, ⟨higherXpgained, higherXplost, lowerXpgained, lowerXplost⟩⟩
  | _ => none

def calcLines (file : Text) : List CalcLine :=
  ((buffers file).filterMap stripLine).filterMap scanCalc

def insertLevels : List LevelLine → List XplevelEntry → Option (List XplevelEntry)
  | [], xplevels => some xplevels
  | line :: rest, xplevels =>
    if line.level < 1 ∨ (w3XpcalcMaxlevel : Int) < line.level then insertLevels rest xplevels
    else do
      let xplevels ← writeAt xplevels (line.level - 1).toNat line.entry
      insertLevels rest xplevels

/-- The tests of a line against the maximal level difference so far. -/
def rejects (maxleveldiff leveldiff : Int) : Bool := leveldiff < 0 || maxleveldiff + 1 < leveldiff

def insertCalcs : List CalcLine → Int → List XpcalcEntry → Option (Int × List XpcalcEntry)
  | [], maxleveldiff, xpcalc => some (maxleveldiff, xpcalc)
  | line :: rest, maxleveldiff, xpcalc =>
    if rejects maxleveldiff line.leveldiff then insertCalcs rest maxleveldiff xpcalc
    else do
      let xpcalc ← writeAt xpcalc line.leveldiff.toNat line.entry
      insertCalcs rest line.leveldiff xpcalc

def XpcalcEntry.hasZero (entry : XpcalcEntry) : Bool :=
  entry.higherWinxp = 0 || entry.higherLossxp = 0 || entry.lowerWinxp = 0 || entry.lowerLossxp = 0

/-- Whether one of `xpcalc[j]` and the entries behind it has a zero. -/
def findZero (xpcalc : List XpcalcEntry) : Nat → Nat → Option Bool
  | 0, _ => some false
  | left + 1, j => do
    let entry ← readAt xpcalc j
    if entry.hasZero then some true else findZero xpcalc left (j + 1)

/-- Whether one of `xplevels[i]` and the entries behind it is refused. -/
def findBad (xplevels : List XplevelEntry) : Nat → Nat → Option Bool
  | 0, _ => some false
  | left + 1, i => do
    let entry ← readAt xplevels i
    if i = 0 then
      if entry.lossfactor = 0 then some true else findBad xplevels left (i + 1)
    else do
      let before ← readAt xplevels (i - 1)
      if entry.neededxp = 0 ∨ entry.lossfactor = 0 ∨ entry.startxp ≤ before.startxp ∨
          entry.neededxp < before.neededxp then some true
      else findBad xplevels left (i + 1)

structure Tables where
  xplevels : List XplevelEntry
  xpcalc : List XpcalcEntry
  w3XpcalcMaxleveldiff : Int
  deriving DecidableEq

inductive Outcome
  | refused
  | built (tables : Tables)
  deriving DecidableEq

/-- The tests of the whole tables. -/
def checkTables (tables : Tables) : Option Outcome := do
  let zeros ← findZero tables.xpcalc (tables.w3XpcalcMaxleveldiff + 1).toNat 0
  if zeros then some .refused
  else do
    let bad ← findBad tables.xplevels w3XpcalcMaxlevel 0
    if bad then some .refused else some (.built tables)

/-- `none` stands for a file that cannot be opened. -/
def ladderCreatexptable (scanLevel : Text → Option LevelLine)
    (xplevelfile xpcalcfile : Option Text) : Option Outcome :=
  match xplevelfile, xpcalcfile with
  | some levels, some calcs => do
    let xplevels ← insertLevels (levelLines scanLevel levels)
      (replicate w3XpcalcMaxlevel emptyLevel)
    let (maxleveldiff, xpcalc) ← insertCalcs (calcLines calcs) (-1)
      (replicate w3XpcalcMaxlevel emptyCalc)
    let xpcalc := resize xpcalc (maxleveldiff + 1).toNat emptyCalc
    -- without an entry xrealloc may also end the process: nothing is left to allocate
    if maxleveldiff < 0 then some .refused else checkTables ⟨xplevels, xpcalc, maxleveldiff⟩
  | _, _ => some .refused

/-- The differences for the winner and the looser; `some none` is a refusal. -/
def ladderWar3Xpdiff (tables : Tables) (winnerlevel looserlevel : UInt32) :
    Option (Option (Int × Int)) :=
  let diff : Int32 := (winnerlevel - looserlevel).toInt32
  let absdiff : Int32 := if diff < 0 then -diff else diff
  if tables.w3XpcalcMaxleveldiff < absdiff.toInt then some none
  else if w3XpcalcMaxlevel < winnerlevel.toNat ∨ w3XpcalcMaxlevel < looserlevel.toNat ∨
      winnerlevel < 1 ∨ looserlevel < 1 then some none
  else do
    let entry ← readAt tables.xpcalc absdiff.toInt.toNat
    let looser ← readAt tables.xplevels (looserlevel.toNat - 1)
    if 0 ≤ diff then
      some (some (entry.higherWinxp, (-(entry.lowerLossxp * looser.lossfactor)).tdiv 100))
    else some (some (entry.lowerWinxp, (-(entry.higherLossxp * looser.lossfactor)).tdiv 100))

/-- The lines that pass the tests, in order. -/
def validLines : Int → List CalcLine → List CalcLine
  | _, [] => []
  | maxleveldiff, line :: rest =>
    if rejects maxleveldiff line.leveldiff then validLines maxleveldiff rest
    else line :: validLines line.leveldiff rest

def lastLine (leveldiff : Int) (lines : List CalcLine) : Option CalcLine :=
  lines.reverse.find? fun line => line.leveldiff = leveldiff

/-- The table has an entry for every level difference up to the maximal one, the last valid one that
the file gives, and what `ladder_war3_xpdiff` reads are such entries. -/
structure Filled (tables : Tables) (lines : List CalcLine) : Prop where
  size : (tables.xpcalc.length : Int) = tables.w3XpcalcMaxleveldiff + 1
  entries : ∀ j : Nat, (j : Int) ≤ tables.w3XpcalcMaxleveldiff →
    ∃ line, lastLine j (validLines (-1) lines) = some line ∧
      tables.xpcalc[j]? = some line.entry ∧ line.entry.hasZero = false
  reads : ∀ winnerlevel looserlevel, (ladderWar3Xpdiff tables winnerlevel looserlevel).isSome = true

/-- The tables are made inside their arrays, and when they are kept they are filled. -/
structure Safe (scanLevel : Text → Option LevelLine) (levels calcs : Text) : Prop where
  inside : (ladderCreatexptable scanLevel (some levels) (some calcs)).isSome = true
  built : ∀ tables,
    ladderCreatexptable scanLevel (some levels) (some calcs) = some (.built tables) →
      Filled tables (calcLines calcs)

/-- Level differences that go up to `height` one by one: between one step and the next no line has a
smaller difference, except negative ones. -/
inductive Climbs : List Int → Nat → Prop
  | start (before : List Int) : Climbs (before ++ [0]) 0
  | up {before : List Int} {height : Nat} (between : List Int) (climbed : Climbs before height)
      (kept : ∀ leveldiff ∈ between, leveldiff < 0 ∨ (height : Int) ≤ leveldiff) :
      Climbs (before ++ between ++ [(height : Int) + 1]) (height + 1)

section Levels

theorem insert_levels_inside (lines : List LevelLine) (xplevels : List XplevelEntry)
    (size : xplevels.length = w3XpcalcMaxlevel) :
    ∃ after, insertLevels lines xplevels = some after ∧ after.length = w3XpcalcMaxlevel := by
  induction lines generalizing xplevels with
  | nil => exact ⟨xplevels, rfl, size⟩
  | cons line rest ih =>
    rw [insertLevels]
    by_cases invalid : line.level < 1 ∨ (w3XpcalcMaxlevel : Int) < line.level
    · rw [if_pos invalid]
      exact ih xplevels size
    have write := write_inside xplevels (line.level - 1).toNat line.entry (by omega)
    obtain ⟨after, inserted, length⟩ := ih (xplevels.set (line.level - 1).toNat line.entry)
      (by rw [length_set, size])
    rw [if_neg invalid, write]
    exact ⟨after, inserted, length⟩

theorem find_bad_inside (xplevels : List XplevelEntry) (left i : Nat)
    (inside : i + left ≤ xplevels.length) : ∃ bad, findBad xplevels left i = some bad := by
  induction left generalizing i with
  | zero => exact ⟨false, rfl⟩
  | succ left ih =>
    have here := read_inside xplevels i (by omega)
    have before := read_inside xplevels (i - 1) (by omega)
    obtain ⟨bad, rest⟩ := ih (i + 1) (by omega)
    simp only [findBad, here, before, bind_eq_bind, bind_some]
    split
    · split
      · exact ⟨true, rfl⟩
      · exact ⟨bad, rest⟩
    · split
      · exact ⟨true, rfl⟩
      · exact ⟨bad, rest⟩

end Levels

section Calcs

theorem find_zero_spec (xpcalc : List XpcalcEntry) (left j : Nat)
    (inside : j + left ≤ xpcalc.length) :
    ∃ zeros, findZero xpcalc left j = some zeros ∧
      (zeros = false → ∀ k entry, j ≤ k → k < j + left → xpcalc[k]? = some entry →
        entry.hasZero = false) := by
  induction left generalizing j with
  | zero =>
    refine ⟨false, rfl, ?_⟩
    intro _ k entry after before
    omega
  | succ left ih =>
    have here := read_inside xpcalc j (by omega)
    obtain ⟨zeros, rest, later⟩ := ih (j + 1) (by omega)
    simp only [findZero, here, bind_eq_bind, bind_some]
    cases zero : xpcalc[j].hasZero with
    | true => exact ⟨true, by simp, by simp⟩
    | false =>
      refine ⟨zeros, by simpa using rest, fun none k entry after before slot => ?_⟩
      rcases Nat.eq_or_lt_of_le after with rfl | beyond
      · rw [getElem?_eq_getElem (by omega), Option.some.injEq] at slot
        rw [← slot]
        exact zero
      · exact later none k entry beyond (by omega) slot

theorem last_line_cons (leveldiff : Int) (line : CalcLine) (rest : List CalcLine) :
    lastLine leveldiff (line :: rest) = (lastLine leveldiff rest).or
      (if line.leveldiff = leveldiff then some line else none) := by
  rw [lastLine, lastLine, reverse_cons, find?_append, find?_singleton]
  simp

variable {leveldiff : Int}

theorem last_line_exists {lines : List CalcLine} {line : CalcLine} (member : line ∈ lines)
    (same : line.leveldiff = leveldiff) : ∃ last, lastLine leveldiff lines = some last := by
  cases found : lastLine leveldiff lines with
  | some last => exact ⟨last, rfl⟩
  | none =>
    have all := find?_eq_none.mp found line (mem_reverse.mpr member)
    simp [same] at all

theorem rejects_false {maxleveldiff : Int} (accepted : rejects maxleveldiff leveldiff = false) :
    0 ≤ leveldiff ∧ leveldiff ≤ maxleveldiff + 1 := by
  simpa [rejects] using accepted

structure Inserted (lines : List CalcLine) (maxleveldiff : Int) (xpcalc : List XpcalcEntry)
    (reached : Int) (after : List XpcalcEntry) : Prop where
  length : after.length = xpcalc.length
  least : -1 ≤ reached
  given : ∀ leveldiff, maxleveldiff < leveldiff → leveldiff ≤ reached →
    ∃ line ∈ validLines maxleveldiff lines, line.leveldiff = leveldiff
  written : ∀ (j : Nat) line, lastLine j (validLines maxleveldiff lines) = some line →
    after[j]? = some line.entry
  kept : ∀ j : Nat, lastLine j (validLines maxleveldiff lines) = none → after[j]? = xpcalc[j]?

theorem insert_calcs_spec (lines : List CalcLine) (maxleveldiff reached : Int)
    (xpcalc after : List XpcalcEntry) (least : -1 ≤ maxleveldiff)
    (inserted : insertCalcs lines maxleveldiff xpcalc = some (reached, after)) :
    Inserted lines maxleveldiff xpcalc reached after := by
  induction lines generalizing maxleveldiff xpcalc with
  | nil =>
    obtain ⟨rfl, rfl⟩ := inserted
    exact {
      length := rfl
      least := least
      given := fun leveldiff above below => by omega
      written := fun j line last => by simp [validLines, lastLine] at last
      kept := fun j _ => rfl }
  | cons line rest ih =>
    rw [insertCalcs] at inserted
    cases rejected : rejects maxleveldiff line.leveldiff with
    | true =>
      have same : validLines maxleveldiff (line :: rest) = validLines maxleveldiff rest := by
        rw [validLines, rejected, if_pos rfl]
      rw [rejected, if_pos rfl] at inserted
      obtain ⟨length, large, given, written, kept⟩ := ih maxleveldiff xpcalc least inserted
      constructor
      · exact length
      · exact large
      · rw [same]; exact given
      · rw [same]; exact written
      · rw [same]; exact kept
    | false =>
      obtain ⟨positive, small⟩ := rejects_false rejected
      have more : validLines maxleveldiff (line :: rest) =
          line :: validLines line.leveldiff rest := by
        rw [validLines, rejected]
        rfl
      have inside : line.leveldiff.toNat < xpcalc.length := by
        by_contra outside
        rw [rejected, writeAt, if_neg outside] at inserted
        cases inserted
      rw [rejected, write_inside xpcalc _ _ inside] at inserted
      obtain ⟨length, large, given, written, kept⟩ :=
        ih line.leveldiff (xpcalc.set line.leveldiff.toNat line.entry) (by omega) inserted
      rw [length_set] at length
      refine ⟨length, large, ?_, ?_, ?_⟩
      · intro leveldiff above below
        rw [more]
        by_cases later : line.leveldiff < leveldiff
        · obtain ⟨found, member, same⟩ := given leveldiff later below
          exact ⟨found, mem_cons_of_mem line member, same⟩
        · exact ⟨line, mem_cons_self, by omega⟩
      · intro j found last
        rw [more, last_line_cons] at last
        cases behind : lastLine j (validLines line.leveldiff rest) with
        | some other =>
          rw [behind] at last
          cases last
          exact written j found behind
        | none =>
          rw [behind, none_or] at last
          split at last
          · cases last
            rw [kept j behind, show line.leveldiff.toNat = j by omega, getElem?_set_self (by omega)]
          · cases last
      · intro j last
        rw [more, last_line_cons, or_eq_none_iff] at last
        have other : line.leveldiff ≠ j := by
          intro here
          simp [here] at last
        rw [kept j last.1, getElem?_set_ne (by omega)]

end Calcs

section Climbing

/-- `w3_xpcalc_maxleveldiff` behind lines with these differences. -/
def maxAfter (maxleveldiff : Int) (leveldiffs : List Int) : Int :=
  leveldiffs.foldl
    (fun reached leveldiff => if rejects reached leveldiff then reached else leveldiff) maxleveldiff

variable (maxleveldiff leveldiff : Int) (leveldiffs : List Int) (lines : List CalcLine)

theorem max_after_cons (rest : List Int) :
    maxAfter maxleveldiff (leveldiff :: rest) =
      maxAfter (if rejects maxleveldiff leveldiff then maxleveldiff else leveldiff) rest := rfl

theorem max_after_append (front back : List Int) :
    maxAfter maxleveldiff (front ++ back) = maxAfter (maxAfter maxleveldiff front) back :=
  foldl_append

theorem max_after_single :
    maxAfter maxleveldiff [leveldiff] =
      if rejects maxleveldiff leveldiff then maxleveldiff else leveldiff := rfl

theorem max_after_kept (height maxleveldiff : Int) (between : List Int)
    (reached : height ≤ maxleveldiff)
    (kept : ∀ leveldiff ∈ between, leveldiff < 0 ∨ height ≤ leveldiff) :
    height ≤ maxAfter maxleveldiff between := by
  induction between generalizing maxleveldiff with
  | nil => exact reached
  | cons leveldiff rest ih =>
    have later := fun other member => kept other (mem_cons_of_mem leveldiff member)
    rw [max_after_cons]
    cases rejected : rejects maxleveldiff leveldiff with
    | true => exact ih maxleveldiff reached later
    | false =>
      have positive := (rejects_false rejected).1
      have here := kept leveldiff mem_cons_self
      exact ih leveldiff (by omega) later

theorem max_after_least (least : -1 ≤ maxleveldiff) : -1 ≤ maxAfter maxleveldiff leveldiffs := by
  refine max_after_kept (-1) maxleveldiff leveldiffs least fun leveldiff _ => ?_
  omega

theorem climbs_reaches {leveldiffs : List Int} {height : Nat} (climbs : Climbs leveldiffs height) :
    maxAfter (-1) leveldiffs = height := by
  induction climbs with
  | start before =>
    have least := max_after_least (-1) before (le_refl _)
    have accepted : rejects (maxAfter (-1) before) 0 = false := by
      simp only [rejects, or_eq_false_iff, decide_eq_false_iff_not]
      omega
    rw [max_after_append, max_after_single, accepted]
    rfl
  | up between climbed kept ih =>
    rename_i before height
    have reached := max_after_kept height _ between (le_of_eq ih.symm) kept
    have accepted : rejects (maxAfter (maxAfter (-1) before) between) (height + 1) = false := by
      simp only [rejects, or_eq_false_iff, decide_eq_false_iff_not]
      omega
    rw [max_after_append, max_after_append, max_after_single, accepted]
    rfl

theorem reached_climbs (height : Nat) (reached : (height : Int) ≤ maxAfter (-1) leveldiffs) :
    ∃ front back, leveldiffs = front ++ back ∧ Climbs front height ∧
      ∀ leveldiff ∈ back, leveldiff < 0 ∨ (height : Int) ≤ leveldiff := by
  induction leveldiffs using reverseRecOn generalizing height with
  | nil =>
    have least : maxAfter (-1) [] = -1 := rfl
    omega
  | append_singleton earlier leveldiff ih =>
    rw [max_after_append, max_after_single] at reached
    -- a line that does not make the height itself is put behind an earlier climb
    have behind : ∀ lower : (height : Int) ≤ maxAfter (-1) earlier,
        leveldiff < 0 ∨ (height : Int) ≤ leveldiff →
        ∃ front back, earlier ++ [leveldiff] = front ++ back ∧ Climbs front height ∧
          ∀ other ∈ back, other < 0 ∨ (height : Int) ≤ other := by
      intro lower last
      obtain ⟨front, back, split, climbs, kept⟩ := ih height lower
      refine ⟨front, back ++ [leveldiff], by rw [split, append_assoc], climbs, ?_⟩
      intro other member
      rcases mem_append.mp member with inside | here
      · exact kept other inside
      · rw [mem_singleton.mp here]
        exact last
    cases rejected : rejects (maxAfter (-1) earlier) leveldiff with
    | true =>
      rw [rejected, if_pos rfl] at reached
      have outside : leveldiff < 0 ∨ maxAfter (-1) earlier + 1 < leveldiff := by
        simpa [rejects] using rejected
      exact behind reached (by omega)
    | false =>
      obtain ⟨positive, small⟩ := rejects_false rejected
      rw [rejected] at reached
      simp only [false_eq_true, if_false] at reached
      rcases Int.lt_or_eq_of_le reached with above | same
      · exact behind (by omega) (Or.inr reached)
      cases height with
      | zero =>
        refine ⟨earlier ++ [leveldiff], [], by simp, ?_, by simp⟩
        rw [← same]
        exact .start earlier
      | succ height =>
        obtain ⟨front, back, split, climbs, kept⟩ := ih height (by push_cast at same; omega)
        refine ⟨earlier ++ [leveldiff], [], by simp, ?_, by simp⟩
        rw [split, ← same]
        exact .up back climbs kept

theorem insert_calcs_inside_iff (maxleveldiff : Int) (xpcalc : List XpcalcEntry)
    (least : -1 ≤ maxleveldiff) (small : maxleveldiff < xpcalc.length) :
    (insertCalcs lines maxleveldiff xpcalc).isSome = true ↔
      ∀ front, front <+: lines.map CalcLine.leveldiff →
        maxAfter maxleveldiff front < xpcalc.length := by
  induction lines generalizing maxleveldiff xpcalc with
  | nil =>
    refine iff_of_true rfl ?_
    intro front empty
    rw [prefix_nil.mp empty]
    exact small
  | cons line rest ih =>
    have split : (∀ front, front <+: (line :: rest).map CalcLine.leveldiff →
        maxAfter maxleveldiff front < xpcalc.length) ↔
        ∀ front, front <+: rest.map CalcLine.leveldiff →
          maxAfter maxleveldiff (line.leveldiff :: front) < xpcalc.length := by
      constructor
      · exact fun all front inside => all (line.leveldiff :: front)
          ((prefix_cons_inj line.leveldiff).mpr inside)
      intro all front inside
      rcases prefix_cons_iff.mp inside with rfl | ⟨tail, rfl, within⟩
      · exact small
      · exact all tail within
    rw [split, insertCalcs]
    cases rejected : rejects maxleveldiff line.leveldiff with
    | true =>
      have step : ∀ front, maxAfter maxleveldiff (line.leveldiff :: front) =
          maxAfter maxleveldiff front := by
        intro front
        rw [max_after_cons, rejected, if_pos rfl]
      simp only [step, if_true]
      exact ih maxleveldiff xpcalc least small
    | false =>
      obtain ⟨positive, bound⟩ := rejects_false rejected
      have step : ∀ front, maxAfter maxleveldiff (line.leveldiff :: front) =
          maxAfter line.leveldiff front := by
        intro front
        rw [max_after_cons, rejected]
        rfl
      simp only [step, false_eq_true, if_false]
      by_cases inside : line.leveldiff.toNat < xpcalc.length
      · rw [write_inside xpcalc _ _ inside]
        have next := ih line.leveldiff (xpcalc.set line.leveldiff.toNat line.entry) (by omega)
          (by rw [length_set]; omega)
        rw [length_set] at next
        exact next
      · rw [writeAt, if_neg inside]
        refine iff_of_false (by simp) fun all => ?_
        have here : maxAfter line.leveldiff [] < (xpcalc.length : Int) := all [] nil_prefix
        rw [maxAfter, foldl_nil] at here
        omega

theorem insert_calcs_climb_iff :
    (insertCalcs lines (-1) (replicate w3XpcalcMaxlevel emptyCalc)).isSome = true ↔
      ¬∃ front, front <+: lines.map CalcLine.leveldiff ∧ Climbs front w3XpcalcMaxlevel := by
  rw [insert_calcs_inside_iff lines (-1) _ (le_refl _) (by decide), length_replicate]
  constructor
  · rintro below ⟨front, inside, climbs⟩
    have bound := below front inside
    rw [climbs_reaches climbs] at bound
    omega
  · intro none front inside
    by_contra above
    obtain ⟨climb, back, split, climbs, -⟩ := reached_climbs front w3XpcalcMaxlevel (by omega)
    exact none ⟨climb, (split ▸ prefix_append climb back).trans inside, climbs⟩

end Climbing

section Built
variable {scanLevel : Text → Option LevelLine} {levels calcs : Text} {tables : Tables}

theorem check_tables_built {kept : Tables} (checked : checkTables tables = some (.built kept)) :
    kept = tables ∧ findZero tables.xpcalc (tables.w3XpcalcMaxleveldiff + 1).toNat 0 = some false ∧
      findBad tables.xplevels w3XpcalcMaxlevel 0 = some false := by
  rw [checkTables] at checked
  cases zeros : findZero tables.xpcalc (tables.w3XpcalcMaxleveldiff + 1).toNat 0 with
  | none => simp [zeros] at checked
  | some zero =>
    cases zero with
    | true => simp [zeros] at checked
    | false =>
      cases bads : findBad tables.xplevels w3XpcalcMaxlevel 0 with
      | none => simp [zeros, bads] at checked
      | some bad =>
        cases bad with
        | true => simp [zeros, bads] at checked
        | false =>
          simp only [zeros, bads, bind_eq_bind, bind_some,
            false_eq_true, if_false, Option.some.injEq, Outcome.built.injEq] at checked
          exact ⟨checked.symm, rfl, rfl⟩

/-- How the tables that are kept were made. -/
structure Made (scanLevel : Text → Option LevelLine) (levels calcs : Text) (tables : Tables) :
    Prop where
  xplevels : insertLevels (levelLines scanLevel levels)
    (replicate w3XpcalcMaxlevel emptyLevel) = some tables.xplevels
  xpcalc : ∃ after, insertCalcs (calcLines calcs) (-1)
      (replicate w3XpcalcMaxlevel emptyCalc) = some (tables.w3XpcalcMaxleveldiff, after) ∧
    tables.xpcalc = resize after (tables.w3XpcalcMaxleveldiff + 1).toNat emptyCalc
  found : 0 ≤ tables.w3XpcalcMaxleveldiff
  nonzero : findZero tables.xpcalc (tables.w3XpcalcMaxleveldiff + 1).toNat 0 = some false
  good : findBad tables.xplevels w3XpcalcMaxlevel 0 = some false

theorem createxptable_built
    (built : ladderCreatexptable scanLevel (some levels) (some calcs) = some (.built tables)) :
    Made scanLevel levels calcs tables := by
  obtain ⟨xplevels, inserted, -⟩ := insert_levels_inside (levelLines scanLevel levels)
    (replicate w3XpcalcMaxlevel emptyLevel) length_replicate
  rw [ladderCreatexptable, inserted] at built
  cases lines : insertCalcs (calcLines calcs) (-1)
      (replicate w3XpcalcMaxlevel emptyCalc) with
  | none => simp [lines] at built
  | some state =>
    obtain ⟨reached, after⟩ := state
    simp only [lines, bind_eq_bind, bind_some] at built
    by_cases empty : reached < 0
    · simp [empty] at built
    · rw [if_neg empty] at built
      obtain ⟨rfl, nonzero, good⟩ := check_tables_built built
      exact ⟨inserted, ⟨after, lines, rfl⟩, by simpa using empty, nonzero, good⟩

theorem made_levels (made : Made scanLevel levels calcs tables) :
    tables.xplevels.length = w3XpcalcMaxlevel := by
  obtain ⟨after, inserted, length⟩ := insert_levels_inside (levelLines scanLevel levels)
    (replicate w3XpcalcMaxlevel emptyLevel) length_replicate
  rw [made.xplevels, Option.some.injEq] at inserted
  rw [inserted, length]

theorem xpdiff_inside (levelSize : tables.xplevels.length = w3XpcalcMaxlevel)
    (size : (tables.xpcalc.length : Int) = tables.w3XpcalcMaxleveldiff + 1)
    (found : 0 ≤ tables.w3XpcalcMaxleveldiff) (winnerlevel looserlevel : UInt32) :
    (ladderWar3Xpdiff tables winnerlevel looserlevel).isSome = true := by
  rw [ladderWar3Xpdiff]
  set diff : Int32 := (winnerlevel - looserlevel).toInt32
  set absdiff : Int32 := if diff < 0 then -diff else diff
  by_cases far : tables.w3XpcalcMaxleveldiff < absdiff.toInt
  · simp [far]
  by_cases invalid : w3XpcalcMaxlevel < winnerlevel.toNat ∨
      w3XpcalcMaxlevel < looserlevel.toNat ∨ winnerlevel < 1 ∨ looserlevel < 1
  · rw [if_neg far, if_pos invalid]
    rfl
  have low : ¬looserlevel < 1 := fun bad => invalid (Or.inr (Or.inr (Or.inr bad)))
  have positive : 1 ≤ looserlevel.toNat := UInt32.le_iff_toNat_le.mp (UInt32.not_lt.mp low)
  have entry := read_inside tables.xpcalc absdiff.toInt.toNat (by omega)
  have looser := read_inside tables.xplevels (looserlevel.toNat - 1) (by omega)
  simp only [far, invalid, if_false, entry, looser, bind_eq_bind, bind_some]
  split <;> rfl

theorem made_filled (made : Made scanLevel levels calcs tables) :
    Filled tables (calcLines calcs) := by
  obtain ⟨after, inserted, table⟩ := made.xpcalc
  have found := made.found
  have spec := insert_calcs_spec (calcLines calcs) (-1) tables.w3XpcalcMaxleveldiff _ after
    (le_refl _) inserted
  have size : (tables.xpcalc.length : Int) = tables.w3XpcalcMaxleveldiff + 1 := by
    rw [table, resize_length]
    omega
  obtain ⟨zeros, search, nonzero⟩ := find_zero_spec tables.xpcalc
    (tables.w3XpcalcMaxleveldiff + 1).toNat 0 (by omega)
  rw [made.nonzero, Option.some.injEq] at search
  refine ⟨size, fun j inside => ?_, xpdiff_inside (made_levels made) size found⟩
  obtain ⟨given, member, same⟩ := spec.given j (by omega) inside
  obtain ⟨line, last⟩ := last_line_exists member same
  have written := spec.written j line last
  have cell : tables.xpcalc[j]? = some line.entry := by
    rw [table, resize_kept after _ emptyCalc j (List.getElem?_eq_some_iff.mp written).1 (by omega)]
    exact written
  exact ⟨line, last, cell, nonzero search.symm j line.entry (Nat.zero_le j) (by omega) cell⟩

end Built

/-- The tables are made inside their arrays and filled rightly exactly if the level differences of
the calculation file do not climb to the size of its table. -/
theorem createxptable_exact (scanLevel : Text → Option LevelLine) (levels calcs : Text) :
    Safe scanLevel levels calcs ↔
      ¬∃ front, front <+: (calcLines calcs).map CalcLine.leveldiff ∧
        Climbs front w3XpcalcMaxlevel := by
  rw [← insert_calcs_climb_iff]
  obtain ⟨xplevels, inserted, length⟩ := insert_levels_inside (levelLines scanLevel levels)
    (replicate w3XpcalcMaxlevel emptyLevel) length_replicate
  constructor
  · intro safe
    have inside := safe.inside
    rw [ladderCreatexptable, inserted] at inside
    cases lines : insertCalcs (calcLines calcs) (-1)
        (replicate w3XpcalcMaxlevel emptyCalc) with
    | none => simp [lines] at inside
    | some state => rfl
  intro runs
  refine ⟨?_, fun tables built => made_filled (createxptable_built built)⟩
  obtain ⟨⟨reached, after⟩, lines⟩ := isSome_iff_exists.mp runs
  rw [ladderCreatexptable, inserted]
  simp only [lines, bind_eq_bind, bind_some]
  by_cases empty : reached < 0
  · simp [empty]
  obtain ⟨zeros, search, -⟩ := find_zero_spec
    (resize after (reached + 1).toNat emptyCalc) (reached + 1).toNat 0
    (by rw [resize_length]; omega)
  obtain ⟨bad, checked⟩ := find_bad_inside xplevels w3XpcalcMaxlevel 0 (by omega)
  rw [if_neg empty, checkTables]
  simp only [search, checked, bind_eq_bind, bind_some]
  cases zeros <;> cases bad <;> rfl

theorem climbs_range (height : Nat) : Climbs ((range (height + 1)).map Int.ofNat) height := by
  induction height with
  | zero => exact .start []
  | succ height ih =>
    rw [range_succ, map_append]
    simpa using Climbs.up [] ih (by simp)

/-- One line for each level difference up to `height`. -/
def climbFile (height : Nat) : Text :=
  (range (height + 1)).flatMap fun leveldiff =>
    text "1 " ++ unsigned leveldiff ++ text " 1 1 1 1\n"

/-- The line for the difference 65 is written behind the 65 entries of the table. -/
theorem climb_overruns : ¬Safe (fun _ => none) [] (climbFile 65) := by
  intro safe
  have leveldiffs : (calcLines (climbFile 65)).map CalcLine.leveldiff =
      (range 66).map Int.ofNat := by decide +kernel
  have runs : (insertCalcs (calcLines (climbFile 65)) (-1)
      (replicate w3XpcalcMaxlevel emptyCalc)).isSome = true := by
    have inside := safe.inside
    cases lines : insertCalcs (calcLines (climbFile 65)) (-1)
        (replicate w3XpcalcMaxlevel emptyCalc) with
    | none =>
      cases first : insertLevels (levelLines (fun _ => none) [])
          (replicate w3XpcalcMaxlevel emptyLevel) <;>
        simp [ladderCreatexptable, lines, first] at inside
    | some state => rfl
  refine (insert_calcs_climb_iff _).mp runs ⟨_, prefix_refl _, ?_⟩
  rw [leveldiffs]
  exact climbs_range 65

end Pvpgn.XpTables
