import Pvpgn.AnongameMatch
import Mathlib.Algebra.BigOperators.Intervals
import Mathlib.Tactic.IntervalCases
import Mathlib.Tactic.Ring

/-!
The level of a player's opponents in `anongame_stats`. The players of the teams follow each other by
turns. `none` is a division by zero or a sum that leaves the range of an int.
-/

namespace Pvpgn.AnongameStats
open AnongameMatch Option Nat Finset

abbrev Level := Fin (2 ^ 31)

/-- The ladder levels of the players' accounts, and those of the arranged teams they play for. -/
structure Levels where
  solo : Nat → Level
  ffa : Nat → Level
  team : Nat → Level
  arranged : Nat → Level

/-- `team_get_level` of the team that is current for a player's account. -/
def currentLevel (levels : Levels) (teams p : Nat) : Nat := levels.arranged (p % teams)

def addInt (sum level : Nat) : Option Nat :=
  if sum + level < 2 ^ 31 then some (sum + level) else none

/-- The loop over `l`: the next `k` and the sum. -/
def addTeams (level : Nat → Level) (tp : Nat) : Nat → Nat × Nat → Option (Nat × Nat)
  | 0, state => some state
  | left + 1, (k, sum) =>
    (addInt sum (level (k % tp))).bind fun sum => addTeams level tp left (k + 1, sum)

/-- The loop over `j`, which skips a player of the own team after each round. -/
def addRows (level : Nat → Level) (tp tt : Nat) : Nat → Nat × Nat → Option (Nat × Nat)
  | 0, state => some state
  | left + 1, state =>
    (addTeams level tp (tt - 1) state).bind fun state =>
      addRows level tp tt left (state.1 + 1, state.2)

/-- The loop over all others. -/
def addOthers (level : Nat → Level) (i : Nat) : Nat → Option Nat
  | 0 => some 0
  | j + 1 =>
    (addOthers level i j).bind fun sum => if i ≠ j then addInt sum (level j) else some sum

def divide (sum count : Nat) : Option Nat := if count = 0 then none else some (sum / count)

def opponLevel (levels : Levels) (gametype tp i : Nat) : Option Nat :=
  let tt := totalteams gametype
  if gametype = typeTy then some 0
  else if gametype = type1v1 then some (levels.solo ((i + 1) % tp))
  else if gametype = typeSmallFfa then
    (addOthers levels.ffa i tp).bind fun sum => divide sum (tp - 1)
  else if gametype = typeAt2v2 ∨ gametype = typeAt3v3 ∨ gametype = typeAt4v4 then
    some (currentLevel levels tt ((i + 1) % tp))
  else if gametype = typeAt2v2v2 then
    -- The level of the first opponents is overwritten.
    let _first := currentLevel levels tt ((i + 1) % tp)
    let second := currentLevel levels tt ((i + 2) % tp)
    divide second 2
  else
    (addRows levels.team tp tt (tp / tt) (i + 1, 0)).bind fun state =>
      divide state.2 (tp / tt * (tt - 1))

/-! What it is meant to be. -/

def sides (gametype tp : Nat) : Nat := if totalteams gametype = 0 then tp else totalteams gametype

def otherPlayers (tp teams i : Nat) : Finset Nat := (range tp).filter fun p => p % teams ≠ i % teams

def otherTeams (teams i : Nat) : Finset Nat := (range teams).filter fun t => t ≠ i % teams

def opponents (env : Environment) (gametype tp i : Nat) : Finset Nat :=
  if arranged env gametype then otherTeams (totalteams gametype) i
  else otherPlayers tp (sides gametype tp) i

/-- The ladder on which a game counts. -/
def ladderOf (env : Environment) (levels : Levels) (gametype : Nat) : Nat → Level :=
  if arranged env gametype then levels.arranged
  else if gametype = type1v1 then levels.solo
  else if gametype = typeSmallFfa then levels.ffa
  else levels.team

def opponentSum (env : Environment) (levels : Levels) (gametype tp i : Nat) : Nat :=
  ∑ x ∈ opponents env gametype tp i, (ladderOf env levels gametype x : Nat)

def average (env : Environment) (levels : Levels) (gametype tp i : Nat) : Nat :=
  opponentSum env levels gametype tp i / (opponents env gametype tp i).card

section Sums

@[simp] theorem add_int_zero (sum : Nat) (fits : sum < 2 ^ 31) : addInt sum 0 = some sum :=
  if_pos fits

theorem add_int_add (sum first second : Nat) :
    (addInt sum first).bind (fun total => addInt total second) = addInt sum (first + second) := by
  unfold addInt
  by_cases fits : sum + first < 2 ^ 31
  · rw [if_pos fits, bind_some, add_assoc]
  · rw [if_neg fits, bind_none, if_neg (by omega)]

theorem add_int_fits {sum level total : Nat} (added : addInt sum level = some total) :
    total < 2 ^ 31 := by
  obtain ⟨fits, same⟩ := ite_none_right_eq_some.mp added
  exact some.inj same ▸ fits

end Sums

section Rounds
variable (level : Nat → Level)

variable (f : Nat → Nat) (tp : Nat)

theorem add_teams_sum (left k sum : Nat) (fits : sum < 2 ^ 31) :
    addTeams level tp left (k, sum) =
      (addInt sum (∑ l ∈ range left, (level ((k + l) % tp) : Nat))).map
        fun total => (k + left, total) := by
  induction left generalizing k sum with
  | zero =>
    rw [range_zero, sum_empty, add_int_zero sum fits]
    rfl
  | succ left ih =>
    have shift (l : Nat) : k + 1 + l = k + (l + 1) := by omega
    rw [sum_range_succ', add_comm (Finset.sum _ _), ← add_int_add, addTeams, map_bind]
    refine bind_congr fun total added => ?_
    rw [ih (k + 1) total (add_int_fits added)]
    simp only [shift, Function.comp_apply]

theorem add_rows_sum (tt left k sum : Nat) (teams : 0 < tt) (fits : sum < 2 ^ 31) :
    (addRows level tp tt left (k, sum)).map Prod.snd = addInt sum
      (∑ j ∈ range left, ∑ l ∈ range (tt - 1),
        (level ((k + j * tt + l) % tp) : Nat)) := by
  induction left generalizing k sum with
  | zero =>
    rw [range_zero, sum_empty, add_int_zero sum fits]
    rfl
  | succ left ih =>
    have shift (j l : Nat) : k + (tt - 1) + 1 + j * tt + l = k + (j + 1) * tt + l := by
      rw [add_mul]
      omega
    rw [sum_range_succ', add_comm (Finset.sum _ _), ← add_int_add, addRows,
      add_teams_sum level tp (tt - 1) k sum fits, map_bind, bind_map]
    simp only [zero_mul, add_zero]
    refine bind_congr fun total added => ?_
    simp only [Function.comp_apply]
    rw [ih _ total (add_int_fits added)]
    simp only [shift]

theorem ring_sum (n start : Nat) :
    ∑ x ∈ range n, f ((start + x) % n) = ∑ x ∈ range n, f x := by
  induction start with
  | zero =>
    refine sum_congr rfl fun x inside => ?_
    rw [zero_add, mod_eq_of_lt (mem_range.mp inside)]
  | succ start ih =>
    have head := sum_range_succ' (fun x => f ((start + x) % n)) n
    have tail := sum_range_succ (fun x => f ((start + x) % n)) n
    have wrapped : (start + n) % n = (start + 0) % n := by simp
    rw [wrapped] at tail
    have shift : ∑ x ∈ range n, f ((start + 1 + x) % n) =
        ∑ x ∈ range n, f ((start + (x + 1)) % n) :=
      sum_congr rfl fun x _ => by rw [add_assoc, add_comm 1 x]
    omega

theorem rows_sum (rows tt : Nat) :
    ∑ x ∈ range (rows * tt), f x = ∑ j ∈ range rows, ∑ l ∈ range tt, f (j * tt + l) := by
  induction rows with
  | zero => simp
  | succ rows ih => rw [add_mul, one_mul, sum_range_add, ih, sum_range_succ]

theorem rounds_opponents (rows tt i : Nat) (teams : 0 < tt) :
    ∑ j ∈ range rows, ∑ l ∈ range (tt - 1), f ((i + 1 + j * tt + l) % (rows * tt)) =
      ∑ p ∈ otherPlayers (rows * tt) tt i, f p := by
  obtain ⟨others, rfl⟩ := Nat.exists_eq_add_of_lt teams
  rw [zero_add] at *
  rw [otherPlayers, sum_filter,
    ← ring_sum (fun p => if p % (others + 1) ≠ i % (others + 1) then f p else 0) _ (i + 1),
    rows_sum]
  refine sum_congr rfl fun j _ => ?_
  have team (l : Nat) : (i + 1 + (j * (others + 1) + l)) % (rows * (others + 1)) % (others + 1) =
      (i + (l + 1)) % (others + 1) := by
    rw [mod_mod_of_dvd _ (dvd_mul_left _ _)]
    have order : i + 1 + (j * (others + 1) + l) = i + (l + 1) + (others + 1) * j := by ring
    rw [order, add_mul_mod_self_left]
  rw [sum_range_succ, Nat.add_sub_cancel]
  have own : (i + (others + 1)) % (others + 1) = i % (others + 1) := add_mod_right _ _
  rw [team, own, if_neg (by simp), add_zero]
  refine sum_congr rfl fun l inside => ?_
  have small := mem_range.mp inside
  have differs : (i + (l + 1)) % (others + 1) ≠ i % (others + 1) := by
    intro same
    have whole := sub_mod_eq_zero_of_mod_eq same
    rw [Nat.add_sub_cancel_left, mod_eq_of_lt (by omega)] at whole
    exact absurd whole (succ_ne_zero l)
  rw [if_pos (by rw [team]; exact differs), add_assoc (i + 1)]

theorem other_players_card (rows tt i : Nat) (teams : 0 < tt) :
    (otherPlayers (rows * tt) tt i).card = rows * (tt - 1) := by
  rw [card_eq_sum_ones, ← rounds_opponents (fun _ => 1) rows tt i teams]
  simp

theorem rows_average (rows tt i : Nat) (players : 0 < rows) (teams : 2 ≤ tt) :
    (addRows level (rows * tt) tt rows (i + 1, 0)).bind
        (fun state => divide state.2 (rows * (tt - 1))) =
      (addInt 0 (∑ p ∈ otherPlayers (rows * tt) tt i, (level p : Nat))).map
        fun sum => sum / (otherPlayers (rows * tt) tt i).card := by
  have several : rows * (tt - 1) ≠ 0 := mul_ne_zero (ne_of_gt players) (by omega)
  rw [← rounds_opponents (fun p => level p) rows tt i (by omega),
    ← add_rows_sum level _ tt rows (i + 1) 0 (by omega) (by decide),
    other_players_card rows tt i (by omega), Option.map_map, map_eq_bind]
  exact bind_congr fun state _ => if_neg several

theorem add_others_sum (i count : Nat) : addOthers level i count =
    addInt 0 (∑ p ∈ (range count).filter fun p => p ≠ i, (level p : Nat)) := by
  induction count with
  | zero => rfl
  | succ count ih =>
    rw [addOthers, ih, range_add_one, filter_insert]
    by_cases own : i = count
    · simp [own]
    · rw [if_pos (Ne.symm own), sum_insert (by simp), add_comm, ← add_int_add]
      exact bind_congr fun sum _ => if_pos own

theorem others_average (i : Nat) (inside : i < tp) (several : 2 ≤ tp) :
    (addOthers level i tp).bind (fun sum => divide sum (tp - 1)) =
      (addInt 0 (∑ p ∈ otherPlayers tp tp i, (level p : Nat))).map
        fun sum => sum / (otherPlayers tp tp i).card := by
  have same : otherPlayers tp tp i = (range tp).filter fun p => p ≠ i :=
    filter_congr fun p listed => by
      rw [mod_eq_of_lt inside, mod_eq_of_lt (mem_range.mp listed)]
  have card : ((range tp).filter fun p => p ≠ i).card = tp - 1 := by
    rw [filter_ne', card_erase_of_mem (mem_range.mpr inside), card_range]
  rw [add_others_sum, same, card, map_eq_bind]
  exact bind_congr fun sum _ => if_neg (by omega)

end Rounds

section Games
variable (env : Environment) (levels : Levels)

variable (gametype : Nat) (f : Nat → Nat) (i : Nat)

theorem three_teams_sum : ∑ t ∈ otherTeams 3 i, f t = f ((i + 1) % 3) + f ((i + 2) % 3) := by
  have turns : i % 3 = 0 ∧ (i + 1) % 3 = 1 ∧ (i + 2) % 3 = 2 ∨
      i % 3 = 1 ∧ (i + 1) % 3 = 2 ∧ (i + 2) % 3 = 0 ∨
      i % 3 = 2 ∧ (i + 1) % 3 = 0 ∧ (i + 2) % 3 = 1 := by omega
  unfold otherTeams
  rw [sum_filter]
  rcases turns with ⟨own, first, second⟩ | ⟨own, first, second⟩ | ⟨own, first, second⟩
  · rw [own, first, second]
    simp [sum_range_succ]
  · rw [own, first, second]
    simp [sum_range_succ, add_comm]
  · rw [own, first, second]
    simp [sum_range_succ]

theorem two_teams_sum : ∑ t ∈ otherTeams 2 i, f t = f ((i + 1) % 2) := by
  have turns : i % 2 = 0 ∧ (i + 1) % 2 = 1 ∨ i % 2 = 1 ∧ (i + 1) % 2 = 0 := by omega
  unfold otherTeams
  rw [sum_filter]
  rcases turns with ⟨own, first⟩ | ⟨own, first⟩
  · rw [own, first]
    simp [sum_range_succ]
  · rw [own, first]
    simp [sum_range_succ]

theorem played_in_rows (known : gametype < anongameTypes)
    (teams : gametype ≠ type1v1 ∧ gametype ≠ typeSmallFfa) (single : ¬arranged env gametype)
    (ladder : gametype ≠ typeTy) :
    totalplayers env gametype =
        totalplayers env gametype / totalteams gametype * totalteams gametype ∧
      0 < totalplayers env gametype / totalteams gametype ∧ 2 ≤ totalteams gametype := by
  unfold anongameTypes at known
  interval_cases gametype
  all_goals first
    | exact absurd rfl teams.1
    | exact absurd rfl teams.2
    | exact absurd rfl ladder
    | exact absurd rfl single
    | simp [totalplayers, totalteams, type1v1, type2v2, type3v3, type4v4, typeSmallFfa, typeAt2v2,
        typeTeamFfa, typeAt3v3, typeAt4v4, type5v5, type6v6, type2v2v2, type3v3v3,
        type4v4v4, type2v2v2v2, type3v3v3v3, typeAt2v2v2]

theorem played_level (known : gametype < anongameTypes) (single : ¬arranged env gametype)
    (ladder : gametype ≠ typeTy) (player : i < totalplayers env gametype) :
    opponLevel levels gametype (totalplayers env gametype) i =
      (addInt 0 (opponentSum env levels gametype (totalplayers env gametype) i)).map
        fun sum => sum / (opponents env gametype (totalplayers env gametype) i).card := by
  by_cases duel : gametype = type1v1
  · subst duel
    have other : opponents env type1v1 2 i = {(i + 1) % 2} := by
      have two : i < 2 := player
      interval_cases i
      · rfl
      · rfl
    have sum : opponentSum env levels type1v1 2 i = levels.solo ((i + 1) % 2) := by
      rw [opponentSum, other, sum_singleton]
      rfl
    change some _ = Option.map _ (addInt 0 (opponentSum env levels type1v1 2 i))
    rw [sum, addInt, if_pos (by rw [zero_add]; exact (levels.solo ((i + 1) % 2)).isLt),
      map_some]
    change _ = some (_ / (opponents env type1v1 2 i).card)
    rw [other, card_singleton, Nat.div_one, zero_add]
    rfl
  · by_cases ffa : gametype = typeSmallFfa
    · subst ffa
      exact others_average levels.ffa 4 i player (by decide)
    obtain ⟨full, rows, teams⟩ := played_in_rows env gametype known ⟨duel, ffa⟩ single ladder
    have turns := rows_average levels.team _ _ i rows teams
    rw [← full] at turns
    have arrangedTypes : ¬(gametype = typeAt2v2 ∨ gametype = typeAt3v3 ∨ gametype = typeAt4v4) ∧
        gametype ≠ typeAt2v2v2 := by
      constructor
      · rintro (rfl | rfl | rfl) <;> exact single rfl
      · rintro rfl
        exact single rfl
    unfold opponLevel
    rw [if_neg ladder, if_neg duel, if_neg ffa, if_neg arrangedTypes.1, if_neg arrangedTypes.2]
    have others : opponents env gametype (totalplayers env gametype) i =
        otherPlayers (totalplayers env gametype) (totalteams gametype) i := by
      rw [opponents, if_neg single, sides, if_neg (by omega)]
    have list : ladderOf env levels gametype = levels.team := by
      rw [ladderOf, if_neg single, if_neg duel, if_neg ffa]
    rw [opponentSum, others, list]
    exact turns

theorem arranged_level (gametype i : Nat)
    (types : gametype = typeAt2v2 ∨ gametype = typeAt3v3 ∨ gametype = typeAt4v4) :
    opponLevel levels gametype (totalplayers env gametype) i =
      some (average env levels gametype (totalplayers env gametype) i) := by
  have teams : totalteams gametype = 2 := by rcases types with rfl | rfl | rfl <;> rfl
  have own : arranged env gametype = true := by rcases types with rfl | rfl | rfl <;> rfl
  have turn : (i + 1) % totalplayers env gametype % 2 = (i + 1) % 2 := by
    have even : 2 ∣ totalplayers env gametype := by
      rcases types with rfl | rfl | rfl
      · exact ⟨2, rfl⟩
      · exact ⟨3, rfl⟩
      · exact ⟨4, rfl⟩
    exact mod_mod_of_dvd _ even
  have asked : opponLevel levels gametype (totalplayers env gametype) i =
      some (levels.arranged ((i + 1) % 2) : Nat) := by
    rw [← turn]
    rcases types with rfl | rfl | rfl <;> rfl
  have others : opponents env gametype (totalplayers env gametype) i = otherTeams 2 i := by
    rw [opponents, if_pos own, teams]
  have list : ladderOf env levels gametype = levels.arranged := by rw [ladderOf, if_pos own]
  have single : (otherTeams 2 i).card = 1 := by
    rw [card_eq_sum_ones, two_teams_sum fun _ => 1]
  rw [asked, average, opponentSum, others, list, single, Nat.div_one,
    two_teams_sum fun t => levels.arranged t]

theorem three_arranged_level :
    opponLevel levels typeAt2v2v2 6 i = some ((levels.arranged ((i + 2) % 3) : Nat) / 2) := by
  have turn : (i + 2) % 6 % 3 = (i + 2) % 3 := mod_mod_of_dvd _ ⟨2, rfl⟩
  rw [← turn]
  rfl

theorem three_arranged_average :
    average env levels typeAt2v2v2 6 i =
      (levels.arranged ((i + 1) % 3) + levels.arranged ((i + 2) % 3) : Nat) / 2 := by
  have pair : (otherTeams 3 i).card = 2 := by
    rw [card_eq_sum_ones, three_teams_sum fun _ => 1]
  change (∑ t ∈ otherTeams 3 i, (levels.arranged t : Nat)) / (otherTeams 3 i).card = _
  rw [three_teams_sum fun t => levels.arranged t, pair]

/-- When the level that is computed is the average: the levels of the opponents add up to an int;
the first of two other arranged teams does not count, and in a tournament nobody does. -/
def LevelRight (gametype i : Nat) : Prop :=
  let tp := totalplayers env gametype
  if gametype = typeTy then
    (opponents env gametype tp i).card = 0 ∨
      opponentSum env levels gametype tp i < (opponents env gametype tp i).card
  else if gametype = typeAt2v2v2 then
    (levels.arranged ((i + 1) % 3) : Nat) = 0 ∨
      (levels.arranged ((i + 1) % 3) : Nat) = 1 ∧ (levels.arranged ((i + 2) % 3) : Nat) % 2 = 0
  else arranged env gametype = true ∨ opponentSum env levels gametype tp i < 2 ^ 31

theorem oppon_level_iff (gametype i : Nat) (known : gametype < anongameTypes)
    (player : i < totalplayers env gametype) :
    opponLevel levels gametype (totalplayers env gametype) i =
        some (average env levels gametype (totalplayers env gametype) i) ↔
      LevelRight env levels gametype i := by
  by_cases tournament : gametype = typeTy
  · subst tournament
    change some 0 = some (_ / _) ↔ _
    rw [LevelRight, if_pos rfl, some_inj, eq_comm, Nat.div_eq_zero_iff]
  by_cases three : gametype = typeAt2v2v2
  · subst three
    rw [LevelRight, if_neg (by decide), if_pos rfl]
    change opponLevel levels typeAt2v2v2 6 i = some (average env levels typeAt2v2v2 6 i) ↔ _
    rw [three_arranged_level, three_arranged_average, some_inj]
    omega
  rw [LevelRight, if_neg tournament, if_neg three]
  by_cases types : gametype = typeAt2v2 ∨ gametype = typeAt3v3 ∨ gametype = typeAt4v4
  · have own : arranged env gametype = true := by rcases types with rfl | rfl | rfl <;> rfl
    exact ⟨fun _ => Or.inl own, fun _ => arranged_level env levels gametype i types⟩
  have single : ¬arranged env gametype = true := by
    intro own
    unfold arranged at own
    simp only [Int.natCast_inj] at own
    rw [if_neg (by omega), if_neg tournament] at own
    exact Bool.false_ne_true own
  rw [played_level env levels gametype i known single tournament player, average]
  unfold addInt
  split
  next fits =>
    rw [Nat.zero_add] at *
    exact iff_of_true rfl (Or.inr fits)
  next large =>
    rw [Nat.zero_add] at large
    exact iff_of_false (some_ne_none _ ∘ Eq.symm) fun right => right.elim single large

/-- Two others of levels 7 and 4 count as 5. -/
theorem pair_level :
    opponLevel ⟨fun _ => 0, fun _ => 0, fun p => if p = 1 then 7 else 4, fun _ => 0⟩ type2v2 4 0 =
      some 5 := by
  have levels : LevelRight ⟨fun _ _ => 0, fun _ => none, 0, false, 0, fun _ => 0, fun _ => 0⟩
      ⟨fun _ => 0, fun _ => 0, fun p => if p = 1 then 7 else 4, fun _ => 0⟩ type2v2 0 :=
    Or.inr (by decide)
  exact (oppon_level_iff _ _ type2v2 0 (by decide) (by decide)).mpr levels

/-- Arranged teams of levels 10 and 20 should count as 15 for the third, but count as 10. -/
theorem first_team_overwritten :
    opponLevel ⟨fun _ => 0, fun _ => 0, fun _ => 0, fun t => if t = 1 then 10 else 20⟩
        typeAt2v2v2 6 0 = some 10 ∧
      average ⟨fun _ _ => 0, fun _ => none, 0, false, 0, fun _ => 0, fun _ => 0⟩
        ⟨fun _ => 0, fun _ => 0, fun _ => 0, fun t => if t = 1 then 10 else 20⟩
        typeAt2v2v2 6 0 = 15 := by
  decide

end Games

end Pvpgn.AnongameStats
