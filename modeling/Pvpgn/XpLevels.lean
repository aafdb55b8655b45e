import Pvpgn.XpTables

/-!
The level of a player by experience (`ladder.cpp`): a search up and then down the table of levels
from the level there was.
-/

namespace Pvpgn.XpLevels
open CheckedArray Stdio XpTables Option List Nat

/-- The first loop of `ladder_war3_updatelevel`, from `i` on. -/
def searchUp (xplevels : List XplevelEntry) (xp : Int) (mylevel : Nat) : Nat → Nat → Option Nat
  | 0, _ => some mylevel
  | left + 1, i => do
    let entry ← readAt xplevels i
    if xp < entry.startxp then some i else searchUp xplevels xp mylevel left (i + 1)

/-- The second loop, from `i` down to 1. -/
def searchDown (xplevels : List XplevelEntry) (xp : Int) (mylevel : Nat) : Nat → Option Nat
  | 0 => some mylevel
  | i + 1 => do
    let entry ← readAt xplevels i
    if entry.startxp < xp then some (i + 2) else searchDown xplevels xp mylevel i

def ladderWar3Updatelevel (tables : Tables) (oldlevel : Nat) (xp : Int) : Option Nat :=
  if oldlevel < 1 ∨ w3XpcalcMaxlevel < oldlevel then some oldlevel
  else if xp ≤ 0 then some 1
  else do
    let mylevel ← searchUp tables.xplevels xp oldlevel (w3XpcalcMaxlevel - oldlevel) oldlevel
    searchDown tables.xplevels xp mylevel (mylevel - 1)

def ladderWar3GetMinXp (tables : Tables) (level : Nat) : Option Int :=
  if level < 1 ∨ w3XpcalcMaxlevel < level then some (-1)
  else (readAt tables.xplevels (level - 1)).map XplevelEntry.startxp

/-- `xplevels[level - 1].startxp` -/
def startxp (tables : Tables) (level : Nat) : Int :=
  (tables.xplevels.getD (level - 1) emptyLevel).startxp

/-- The experience is at most one level behind the start of the level and before the end of it. -/
structure Fits (tables : Tables) (xp : Int) (level : Nat) : Prop where
  positive : 1 ≤ level
  bounded : level ≤ w3XpcalcMaxlevel
  below : level < w3XpcalcMaxlevel → xp < startxp tables (level + 1)
  above : 1 < level → startxp tables (level - 1) ≤ xp
  top : startxp tables w3XpcalcMaxlevel ≤ xp → level = w3XpcalcMaxlevel

/-- The levels start one after the other. -/
structure Ladder (tables : Tables) : Prop where
  size : tables.xplevels.length = w3XpcalcMaxlevel
  increasing : ∀ low high, 1 ≤ low → low < high → high ≤ w3XpcalcMaxlevel →
    startxp tables low < startxp tables high

section Tables
variable {tables : Tables}

theorem read_level (size : tables.xplevels.length = w3XpcalcMaxlevel) (i : Nat)
    (inside : i < w3XpcalcMaxlevel) :
    ∃ entry, readAt tables.xplevels i = some entry ∧ entry.startxp = startxp tables (i + 1) := by
  refine ⟨tables.xplevels[i], read_inside _ _ (by omega), ?_⟩
  simp [startxp, getD_eq_getElem?_getD, getElem?_eq_getElem (size ▸ inside)]

theorem find_bad_step (xplevels : List XplevelEntry) (left i : Nat)
    (good : findBad xplevels left i = some false) (j : Nat) (later : i ≤ j) (positive : 1 ≤ j)
    (before : j < i + left) :
    ∃ entry previous, xplevels[j]? = some entry ∧ xplevels[j - 1]? = some previous ∧
      previous.startxp < entry.startxp := by
  induction left generalizing i with
  | zero => omega
  | succ left ih =>
    rw [findBad] at good
    cases here : readAt xplevels i with
    | none => simp [here] at good
    | some entry =>
      simp only [here, bind_eq_bind, bind_some] at good
      by_cases first : i = 0
      · rw [if_pos first] at good
        split at good
        · cases good
        · exact ih (i + 1) good (by omega) (by omega)
      rw [if_neg first] at good
      cases back : readAt xplevels (i - 1) with
      | none => simp [back] at good
      | some previous =>
        simp only [back, bind_some] at good
        split at good
        · cases good
        · rcases eq_or_lt_of_le later with rfl | beyond
          · exact ⟨entry, previous, here, back, by omega⟩
          · exact ih (i + 1) good beyond (by omega)

theorem made_ladder {scanLevel : Text → Option LevelLine} {levels calcs : Text}
    (made : Made scanLevel levels calcs tables) : Ladder tables := by
  have size := made_levels made
  have step : ∀ level, 1 ≤ level → level < w3XpcalcMaxlevel →
      startxp tables level < startxp tables (level + 1) := by
    intro level positive bounded
    obtain ⟨entry, previous, here, back, less⟩ :=
      find_bad_step tables.xplevels w3XpcalcMaxlevel 0 made.good level (zero_le _) positive
        (by omega)
    simpa [startxp, getD_eq_getElem?_getD, here, back] using less
  refine ⟨size, fun low high positive less bounded => ?_⟩
  induction high, less using le_induction with
  | base => exact step low positive (by omega)
  | succ high later ih =>
    exact (ih (by omega)).trans (step high (by omega) (by omega))

end Tables

section Search
variable {tables : Tables} (size : tables.xplevels.length = w3XpcalcMaxlevel) (xp : Int)
include size

theorem search_up_spec (mylevel left i : Nat) (total : i + left = w3XpcalcMaxlevel) :
    ∃ found, searchUp tables.xplevels xp mylevel left i = some found ∧
      ((i ≤ found ∧ found < w3XpcalcMaxlevel ∧ xp < startxp tables (found + 1) ∧
          ∀ level, i ≤ level → level < found → startxp tables (level + 1) ≤ xp) ∨
        (found = mylevel ∧
          ∀ level, i ≤ level → level < w3XpcalcMaxlevel → startxp tables (level + 1) ≤ xp)) := by
  induction left generalizing i with
  | zero => exact ⟨mylevel, rfl, Or.inr ⟨rfl, fun level after before => by omega⟩⟩
  | succ left ih =>
    obtain ⟨entry, read, start⟩ := read_level size i (by omega)
    simp only [searchUp, read, bind_eq_bind, bind_some, start]
    by_cases ends : xp < startxp tables (i + 1)
    · refine ⟨i, if_pos ends, Or.inl ⟨le_refl i, by omega, ends, fun level after before => ?_⟩⟩
      omega
    obtain ⟨found, search, outcome⟩ := ih (i + 1) (by omega)
    refine ⟨found, by rw [if_neg ends, search], ?_⟩
    have extend : ∀ bound, (∀ level, i + 1 ≤ level → level < bound →
        startxp tables (level + 1) ≤ xp) →
        ∀ level, i ≤ level → level < bound → startxp tables (level + 1) ≤ xp := by
      intro bound rest level after before
      rcases eq_or_lt_of_le after with rfl | beyond
      · exact not_lt.mp ends
      · exact rest level beyond before
    rcases outcome with ⟨after, inside, less, passed⟩ | ⟨same, passed⟩
    · exact Or.inl ⟨by omega, inside, less, extend found passed⟩
    · exact Or.inr ⟨same, extend w3XpcalcMaxlevel passed⟩

theorem search_down_spec (mylevel i : Nat) (bounded : i ≤ w3XpcalcMaxlevel) :
    ∃ found, searchDown tables.xplevels xp mylevel i = some found ∧
      ((∃ level, 1 ≤ level ∧ level ≤ i ∧ found = level + 1 ∧ startxp tables level < xp ∧
          ∀ higher, level < higher → higher ≤ i → xp ≤ startxp tables higher) ∨
        (found = mylevel ∧ ∀ level, 1 ≤ level → level ≤ i → xp ≤ startxp tables level)) := by
  induction i with
  | zero => exact ⟨mylevel, rfl, Or.inr ⟨rfl, fun level positive before => by omega⟩⟩
  | succ i ih =>
    obtain ⟨entry, read, start⟩ := read_level size i (by omega)
    simp only [searchDown, read, bind_eq_bind, bind_some, start]
    by_cases ends : startxp tables (i + 1) < xp
    · refine ⟨i + 2, if_pos ends, Or.inl ⟨i + 1, by omega, le_refl _, rfl, ends, ?_⟩⟩
      intro higher above below
      omega
    obtain ⟨found, search, outcome⟩ := ih (by omega)
    refine ⟨found, by rw [if_neg ends, search], ?_⟩
    rcases outcome with ⟨level, positive, inside, same, less, passed⟩ | ⟨same, passed⟩
    · refine Or.inl ⟨level, positive, by omega, same, less, fun higher above below => ?_⟩
      rcases eq_or_lt_of_le below with rfl | under
      · exact not_lt.mp ends
      · exact passed higher above (by omega)
    · refine Or.inr ⟨same, fun level positive below => ?_⟩
      rcases eq_or_lt_of_le below with rfl | under
      · exact not_lt.mp ends
      · exact passed level positive (by omega)

end Search

section Update
variable {tables : Tables} {oldlevel : Nat} {xp : Int}

theorem update_level_searches (ladder : Ladder tables) (first : startxp tables 1 = 0)
    (positive : 1 ≤ oldlevel) (bounded : oldlevel ≤ w3XpcalcMaxlevel) (gained : 0 < xp) :
    ∃ mylevel level, ladderWar3Updatelevel tables oldlevel xp = some level ∧
      ((oldlevel ≤ mylevel ∧ mylevel < w3XpcalcMaxlevel ∧ xp < startxp tables (mylevel + 1)) ∨
        (mylevel = oldlevel ∧
          (oldlevel < w3XpcalcMaxlevel → startxp tables w3XpcalcMaxlevel ≤ xp))) ∧
      level ≤ mylevel ∧ (1 < level → startxp tables (level - 1) < xp) ∧
      (level < mylevel → xp ≤ startxp tables level) ∧ 1 ≤ level := by
  obtain ⟨mylevel, up, outcome⟩ := search_up_spec ladder.size xp oldlevel
    (w3XpcalcMaxlevel - oldlevel) oldlevel (by omega)
  obtain ⟨level, down, ends⟩ := search_down_spec ladder.size xp mylevel (mylevel - 1) (by omega)
  refine ⟨mylevel, level, ?_, ?_, ?_⟩
  · rw [ladderWar3Updatelevel, if_neg (by omega), if_neg (by omega), up]
    exact down
  · rcases outcome with ⟨after, inside, less, -⟩ | ⟨same, passed⟩
    · exact Or.inl ⟨after, inside, less⟩
    · refine Or.inr ⟨same, fun short => ?_⟩
      have last := passed (w3XpcalcMaxlevel - 1) (by omega) (by decide)
      exact last
  · rcases ends with ⟨lower, above, inside, rfl, less, passed⟩ | ⟨rfl, passed⟩
    · exact ⟨by omega, fun _ => less, fun under => passed (lower + 1) (by omega) (by omega),
        by omega⟩
    have single : ¬1 < level := by
      intro more
      have start := passed 1 (le_refl 1) (by omega)
      omega
    exact ⟨le_refl _, fun more => absurd more single, fun less => absurd less (lt_irrefl _),
      by omega⟩

theorem fits_of_below (ladder : Ladder tables) {level : Nat} (positive : 1 ≤ level)
    (bounded : level ≤ w3XpcalcMaxlevel)
    (below : level < w3XpcalcMaxlevel → xp < startxp tables (level + 1))
    (above : 1 < level → startxp tables (level - 1) ≤ xp) : Fits tables xp level := by
  refine ⟨positive, bounded, below, above, fun reached => ?_⟩
  by_contra other
  have short : level < w3XpcalcMaxlevel := by omega
  have less := below short
  rcases eq_or_lt_of_le (show level + 1 ≤ w3XpcalcMaxlevel from short) with same | under
  · rw [same] at less
    omega
  · have order := ladder.increasing (level + 1) w3XpcalcMaxlevel (by omega) under (le_refl _)
    omega

theorem update_level_fits (ladder : Ladder tables) (first : startxp tables 1 = 0)
    (positive : 1 ≤ oldlevel) (bounded : oldlevel ≤ w3XpcalcMaxlevel) (nonneg : 0 ≤ xp)
    (reachable : oldlevel = w3XpcalcMaxlevel ∨ xp < startxp tables w3XpcalcMaxlevel) :
    ∃ level, ladderWar3Updatelevel tables oldlevel xp = some level ∧ Fits tables xp level := by
  have second := ladder.increasing 1 2 (le_refl 1) (by decide) (by decide)
  rcases Int.lt_or_eq_of_le nonneg with gained | none
  · obtain ⟨mylevel, level, update, outcome, low, above, next, least⟩ :=
      update_level_searches ladder first positive bounded gained
    have ends : mylevel < w3XpcalcMaxlevel → xp < startxp tables (mylevel + 1) := by
      intro short
      rcases outcome with ⟨-, -, less⟩ | ⟨rfl, passed⟩
      · exact less
      · omega
    refine ⟨level, update, fits_of_below ladder least (by omega) ?_ fun more =>
      le_of_lt (above more)⟩
    intro short
    rcases eq_or_lt_of_le low with rfl | under
    · exact ends short
    · have order := ladder.increasing level (level + 1) least (by omega) short
      omega
  · refine ⟨1, ?_, fits_of_below ladder (le_refl 1) (by decide) ?_ fun more => ?_⟩
    · rw [ladderWar3Updatelevel, if_neg (by omega), if_pos (le_of_eq none.symm)]
    · intro _
      change xp < startxp tables 2
      omega
    · omega

/-- `ladder_war3_updatelevel` finds a level that fits exactly if the old level is the top one or the
experience does not reach it. -/
theorem update_level_exact (scanLevel : Text → Option LevelLine) (levels calcs : Text)
    (accepted : ladderCreatexptable scanLevel (some levels) (some calcs) = some (.built tables))
    (first : startxp tables 1 = 0) (positive : 1 ≤ oldlevel)
    (bounded : oldlevel ≤ w3XpcalcMaxlevel) (nonneg : 0 ≤ xp) :
    (∃ level, ladderWar3Updatelevel tables oldlevel xp = some level ∧ Fits tables xp level) ↔
      oldlevel = w3XpcalcMaxlevel ∨ xp < startxp tables w3XpcalcMaxlevel := by
  have ladder := made_ladder (createxptable_built accepted)
  refine ⟨?_, update_level_fits ladder first positive bounded nonneg⟩
  rintro ⟨level, update, fits⟩
  by_contra neither
  have second := ladder.increasing 1 w3XpcalcMaxlevel (le_refl 1) (by decide) (le_refl _)
  obtain ⟨mylevel, other, same, outcome, low, -⟩ :=
    update_level_searches ladder first positive bounded (by omega : 0 < xp)
  rw [update, some.injEq] at same
  have top := fits.top (by omega)
  rcases outcome with ⟨-, inside, -⟩ | ⟨kept, -⟩ <;> omega

end Update

/-- Level files with a start at each hundred. -/
def levelFile : Text :=
  (range w3XpcalcMaxlevel).flatMap fun index =>
    unsigned (index + 1) ++ text " " ++ unsigned (100 * index) ++ text " 100 1 5\n"

def scanWhole (buffer : Text) : Option LevelLine :=
  match sscanf buffer (calcFormat.take 10) with
  | [.signed level, .signed startxp, .signed neededxp, .signed lossfactor, .signed mingames] =>
    some ⟨level, ⟨startxp, neededxp, 100 * lossfactor, mingames⟩⟩
  | _ => none

def sampleTables : Tables where
  xplevels := (range w3XpcalcMaxlevel).map fun index => ⟨100 * index, 100, 100, 5⟩
  xpcalc := [⟨1, 1, 1, 1⟩]
  w3XpcalcMaxleveldiff := 0

theorem sample_built :
    ladderCreatexptable scanWhole (some levelFile) (some (climbFile 0)) =
      some (.built sampleTables) := by
  decide +kernel

theorem sample_fits : 1 ≤ 3 ∧
    ((∃ level, ladderWar3Updatelevel sampleTables 3 1250 = some level ∧
        Fits sampleTables 1250 level) ↔
      3 = w3XpcalcMaxlevel ∨ (1250 : Int) < startxp sampleTables w3XpcalcMaxlevel) :=
  ⟨by decide, update_level_exact scanWhole levelFile (climbFile 0) sample_built (by decide)
    (by decide) (by decide) (by decide)⟩

/-- A player of level 3 keeps it with all the experience of the top level. -/
theorem top_missed :
    ladderCreatexptable scanWhole (some levelFile) (some (climbFile 0)) =
        some (.built sampleTables) ∧
      startxp sampleTables 1 = 0 ∧
      ¬∃ level, ladderWar3Updatelevel sampleTables 3 6400 = some level ∧
        Fits sampleTables 6400 level := by
  refine ⟨sample_built, by decide, ?_⟩
  rintro ⟨level, update, fits⟩
  have kept : ladderWar3Updatelevel sampleTables 3 6400 = some 3 := by decide +kernel
  rw [kept, some.injEq] at update
  have top := fits.top (by decide)
  rw [← update] at top
  exact absurd top (by decide)

end Pvpgn.XpLevels
