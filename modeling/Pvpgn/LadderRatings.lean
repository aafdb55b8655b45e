import Pvpgn.LadderCalc
import Mathlib.Algebra.Order.Field.Rat
import Mathlib.Data.Rat.Floor

/-!
What `ladder_calc_info` makes of a game: the order of its players does not matter, and no rating
moves by more than the coefficient of the player.
-/

namespace Pvpgn.LadderRatings
open LadderCalc List Knockout

section Calculation
variable {probability : UInt32 → UInt32 → ℚ} {players : List Player} {player : Player}

/-- The ratings of the players with another result. -/
def rivals (players : List Player) (player : Player) : List UInt32 :=
  (players.filter fun other => other.result ≠ player.result).map Player.rating

theorem opponents_rivals {curr : Nat} (listed : (player, curr) ∈ players.zipIdx) :
    opponents players curr player = rivals players player := by
  have named : ∀ other ∈ players.zipIdx, (other.2 ≠ curr && other.1.result ≠ player.result) =
      decide (other.1.result ≠ player.result) := by
    rintro ⟨other, place⟩ inside
    by_cases same : place = curr
    · rw [same, mk_mem_zipIdx_iff_getElem?] at inside
      rw [mk_mem_zipIdx_iff_getElem?, inside] at listed
      simp [Option.some.inj listed]
    · simp [same]
  rw [opponents, filter_congr named, rivals]
  conv_rhs => rw [← zipIdx_map_fst 0 players]
  rw [filter_map, List.map_map]
  rfl

/-- Every number of opponents for which `ladder_calc_info` has a formula without the misprint. -/
def Supported (players : List Player) : Prop :=
  ∀ player ∈ players, (rivals players player).length ∈ [1, 2, 3, 4, 5, 7]

def infoOf (probability : UInt32 → UInt32 → ℚ) (players : List Player) (player : Player) :
    LadderInfo :=
  let prob := fairChance probability player.rating (rivals players player)
  let k := coefficient player
  let teamMembers := players.length - (rivals players player).length
  let delta : ℚ := if player.result = .win then |k * (1 - prob) / teamMembers| else -|k * prob|
  { prob, k := k.toNat.toUInt32, adj := truncate delta, oldrating := player.rating,
    oldrank := player.rank }

variable (complement : ∀ x y, probability x y + probability y x = 1)
include complement

theorem calc_info {clienttag : UInt32} (tagged : clienttag ≠ 0) (supported : Supported players) :
    ladderCalcInfo probability clienttag players =
      some (players.map (infoOf probability players)) := by
  have values : players.zipIdx.mapM (playerInfo probability players) =
      some (players.zipIdx.map fun slot => infoOf probability players slot.1) := by
    refine mapM_some fun slot listed => ?_
    have member := supported _ (fst_mem_of_mem_zipIdx listed)
    simp only [mem_cons, not_mem_nil, or_false] at member
    rw [playerInfo, opponents_rivals listed, formula_fair probability complement _ _ (by omega)
      (by omega) (by omega)]
    rfl
  have infos := congrArg (map (infoOf probability players)) (zipIdx_map_fst 0 players)
  rw [List.map_map] at infos
  rw [ladderCalcInfo, if_neg tagged, values, ← infos]
  rfl

/-- "order is not important for the other players" -/
theorem calc_unordered {clienttag : UInt32} (tagged : clienttag ≠ 0) (supported : Supported players)
    {reordered : List Player} (same : players.Perm reordered) : ∃ info : Player → LadderInfo,
      ladderCalcInfo probability clienttag players = some (players.map info) ∧
        ladderCalcInfo probability clienttag reordered = some (reordered.map info) := by
  have others (player : Player) : (rivals players player).Perm (rivals reordered player) :=
    (same.filter _).map _
  have infos : infoOf probability players = infoOf probability reordered := by
    funext player
    rw [infoOf, infoOf, fairChance_unordered probability _ (others player), (others player).length_eq,
      same.length_eq]
  refine ⟨_, calc_info complement tagged supported, ?_⟩
  rw [infos]
  refine calc_info complement tagged fun player inside => ?_
  rw [← (others player).length_eq]
  exact supported player (same.mem_iff.mpr inside)

variable (nonneg : ∀ x y, 0 ≤ probability x y)
include nonneg

theorem chance_unit (own : UInt32) (others : List UInt32) (few : others.length ≤ 7) :
    0 ≤ fairChance probability own others ∧ fairChance probability own others ≤ 1 := by
  have each (own : UInt32) (others : List UInt32) : 0 ≤ fairChance probability own others :=
    div_nonneg (wins_nonneg nonneg _ _ _) (Nat.cast_nonneg _)
  have total := fairChance_total probability complement (own :: others) (by simp)
    (by rw [length_cons]; omega)
  rw [pickSum] at total
  have rest := pickSum_nonneg (fun other left => each other (own :: left)) others
  exact ⟨each own others, by linarith⟩

omit complement nonneg

theorem truncate_between {delta : ℚ} {bound : Int} (least : 0 ≤ delta) (most : delta ≤ bound) :
    0 ≤ truncate delta ∧ truncate delta ≤ bound := by
  have floor : truncate delta = ⌊delta⌋ := by
    rw [truncate, Int.tdiv_eq_ediv_of_nonneg (Rat.num_nonneg.mpr least), Rat.floor_def']
  rw [floor]
  exact ⟨Int.floor_nonneg.mpr least, Int.cast_le.mp ((Int.floor_le delta).trans most)⟩

theorem truncate_neg (delta : ℚ) : truncate (-delta) = -truncate delta := by
  rw [truncate, truncate, Rat.neg_num, Rat.neg_den, Int.neg_tdiv]

theorem coefficient_range (player : Player) : 20 ≤ coefficient player ∧ coefficient player ≤ 50 := by
  unfold coefficient
  dsimp only
  split
  · decide
  · split <;> decide

include complement nonneg

theorem info_range (supported : Supported players) (inside : player ∈ players) :
    if player.result = .win then 0 ≤ (infoOf probability players player).adj ∧
      (infoOf probability players player).adj ≤ coefficient player
    else -coefficient player ≤ (infoOf probability players player).adj ∧
      (infoOf probability players player).adj ≤ 0 := by
  have member := supported _ inside
  simp only [mem_cons, not_mem_nil, or_false] at member
  obtain ⟨low, high⟩ := chance_unit complement nonneg player.rating (rivals players player) (by omega)
  have some : (0 : ℚ) ≤ coefficient player := by
    have range := (coefficient_range player).1
    exact_mod_cast (by omega : 0 ≤ coefficient player)
  have own : (rivals players player).length < players.length := by
    rw [rivals, length_map]
    exact length_filter_lt_length_iff_exists.mpr ⟨player, inside, by simp⟩
  simp only [infoOf]
  split
  · have team : (1 : ℚ) ≤ (players.length - (rivals players player).length : Nat) := by
      exact_mod_cast (by omega : 1 ≤ players.length - (rivals players player).length)
    have gain : 0 ≤ coefficient player * (1 - fairChance probability player.rating
        (rivals players player)) := mul_nonneg some (by linarith)
    rw [abs_of_nonneg (div_nonneg gain (by linarith))]
    exact truncate_between (div_nonneg gain (by linarith))
      ((div_le_self gain team).trans (mul_le_of_le_one_right some (by linarith)))
  · rw [abs_of_nonneg (mul_nonneg some low), truncate_neg]
    have range := truncate_between (mul_nonneg some low) (mul_le_of_le_one_right some high)
    exact ⟨neg_le_neg range.2, neg_nonpos.mpr range.1⟩

/-- The winners gain and the others lose, nobody more than the coefficient of the player. -/
theorem adj_range {clienttag : UInt32} (tagged : clienttag ≠ 0) (supported : Supported players) :
    ∃ infos, ladderCalcInfo probability clienttag players = some infos ∧
      ∀ slot ∈ players.zip infos, if slot.1.result = .win
        then 0 ≤ slot.2.adj ∧ slot.2.adj ≤ coefficient slot.1
        else -coefficient slot.1 ≤ slot.2.adj ∧ slot.2.adj ≤ 0 := by
  refine ⟨_, calc_info complement tagged supported, fun slot inside => ?_⟩
  rw [zip_eq_zipWith, zipWith_map_right, zipWith_self, mem_map] at inside
  obtain ⟨player, member, rfl⟩ := inside
  exact info_range complement nonneg supported member

end Calculation

def evenChance (_ _ : UInt32) : ℚ := 1 / 2

def veteran : Player := ⟨20, 15, 0, 1200, 3, .win⟩
def newcomer : Player := ⟨0, 1, 0, 1000, 9, .loss⟩

theorem duel_unordered : ∃ info : Player → LadderInfo,
    ladderCalcInfo evenChance 1 [veteran, newcomer] = some ([veteran, newcomer].map info) ∧
      ladderCalcInfo evenChance 1 [newcomer, veteran] = some ([newcomer, veteran].map info) :=
  calc_unordered (fun _ _ => by norm_num [evenChance]) (by decide) (by unfold Supported; decide)
    (.swap newcomer veteran [])

theorem duel_range : ∃ infos, ladderCalcInfo evenChance 1 [veteran, newcomer] = some infos ∧
    ∀ slot ∈ [veteran, newcomer].zip infos, if slot.1.result = .win
      then 0 ≤ slot.2.adj ∧ slot.2.adj ≤ coefficient slot.1
      else -coefficient slot.1 ≤ slot.2.adj ∧ slot.2.adj ≤ 0 :=
  adj_range (fun _ _ => by norm_num [evenChance]) (fun _ _ => by norm_num [evenChance]) (by decide)
    (by unfold Supported; decide)

end Pvpgn.LadderRatings
