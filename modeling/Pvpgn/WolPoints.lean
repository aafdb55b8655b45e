import Pvpgn.LadderGames
import Pvpgn.LadderCalc

/-!
The ladder points of Westwood players (`ladder_update_wol` of `ladder.cpp`). The share of 64 points
that a player wins is a function of both players' points. Points are kept unsigned and counted as
`int`.
-/

namespace Pvpgn.WolPoints
open Ladder LadderGames
open LadderCalc (GameResult)

/-- `account_get_ladder_points` as an `int`. -/
def pointsOf (world : World) (clienttag : UInt32) (id : LadderId) (account : UInt32) : Int :=
  (accountGetLadderPoints world.accounts account clienttag id).toInt32.toInt

def accountSetLadderPoints (accounts : Accounts) (account clienttag : UInt32) (id : LadderId)
    (points : Int) : Accounts :=
  modify accounts account clienttag id fun record =>
    { record with points := (Int32.ofInt points).toUInt32 }

/-- `points_win` and `points_loss`. -/
def countPoints (share : Int → Int → Int) (pl1Points pl2Points : Int) : Int × Int :=
  let pointsWin := share pl1Points pl2Points
  (pointsWin, min (64 - pointsWin) (pl1Points.tdiv 10))

/-- One turn of the loop over the players. -/
def updatePlayer (share : Int → Int → Int) (clienttag : UInt32) (tagged : clienttag ≠ 0)
    (id : LadderId) (pl1Points pl2Points : Int) (account : UInt32) (result : GameResult)
    (world : World) : World :=
  let mypoints := pointsOf world clienttag id account
  let (pointsWin, pointsLoss) := countPoints share mypoints
    (if mypoints = pl1Points then pl2Points else pl1Points)
  let accounts := accountSetLadderPoints world.accounts account clienttag id
    (if result = .win then mypoints + pointsWin else mypoints - pointsLoss)
  { accounts
    updates := world.updates ++
      [⟨⟨id, clienttag, .default, .default, tagged⟩, account,
        accountGetLadderPoints accounts account clienttag id,
        accountGetLadderWins accounts account clienttag id, 0⟩] }

structure Answer where
  code : Int
  world : World
  /-- The caller's array. -/
  results : GameResult × GameResult

/-- The test for two disconnects assigns where it means to compare. -/
def ladderUpdateWol (share : Int → Int → Int) (world : World) (clienttag : UInt32) (id : LadderId)
    (players : UInt32 × UInt32) (results : GameResult × GameResult) : Answer :=
  let pl1Points := pointsOf world clienttag id players.1
  let pl2Points := pointsOf world clienttag id players.2
  if tagged : clienttag = 0 then ⟨-1, world, results⟩
  else if results.1 ≠ .none ∧ results.2 ≠ .none ∧ results.1 = results.2 then
    ⟨0, world, (.disconnect, results.2)⟩
  else
    let turn := updatePlayer share clienttag tagged id pl1Points pl2Points
    ⟨0, turn players.2 results.2 (turn players.1 results.1 world), results⟩

/-- The winner gets the share, and another player keeps nine tenths at least. -/
def Settles (share : Int → Int → Int) (result : GameResult) (own other after : Int) : Prop :=
  if result = .win then after = own + share own other
  else after ≤ own ∧ 10 * (own - after) ≤ own ∧ 0 ≤ after

/-- What the update promises. -/
structure Fair (share : Int → Int → Int) (world : World) (clienttag : UInt32) (id : LadderId)
    (players : UInt32 × UInt32) (results : GameResult × GameResult) (answer : Answer) : Prop where
  kept : answer.results = results
  unchanged :
    pointsOf answer.world clienttag id players.1 = pointsOf world clienttag id players.1 ∧
        pointsOf answer.world clienttag id players.2 = pointsOf world clienttag id players.2 ↔
      results = (.disconnect, .disconnect)
  first : results ≠ (.disconnect, .disconnect) →
    Settles share results.1 (pointsOf world clienttag id players.1)
      (pointsOf world clienttag id players.2) (pointsOf answer.world clienttag id players.1)
  second : results ≠ (.disconnect, .disconnect) →
    Settles share results.2 (pointsOf world clienttag id players.2)
      (pointsOf world clienttag id players.1) (pointsOf answer.world clienttag id players.2)

/-- A winner's points stay an `int`. -/
def StaysInt (share : Int → Int → Int) (result : GameResult) (own other : Int) : Prop :=
  result = .win → own + share own other < 2 ^ 31

/-- The share is not so that the player's points stay as they are. -/
def Moves (share : Int → Int → Int) (result : GameResult) (own other : Int) : Prop :=
  if result = .win then share own other ≠ 0 else share own other ≠ 64 ∧ 10 ≤ own

/-- Both players disconnected, or the results are not two equal ones, a winner has room for the
points and the points of one of the players move. -/
def Countable (share : Int → Int → Int) (results : GameResult × GameResult) (first second : Int) :
    Prop :=
  results = (.disconnect, .disconnect) ∨
    (results.1 = .none ∨ results.1 ≠ results.2) ∧
      StaysInt share results.1 first second ∧ StaysInt share results.2 second first ∧
      (Moves share results.1 first second ∨ Moves share results.2 second first)

section Points
variable (clienttag : UInt32) (id : LadderId)

theorem points_range (world : World) (account : UInt32) :
    -2 ^ 31 ≤ pointsOf world clienttag id account ∧ pointsOf world clienttag id account < 2 ^ 31 :=
  ⟨Int32.le_toInt _, Int32.toInt_lt _⟩

theorem points_set (world : World) (account other : UInt32) (points : Int)
    (updates : List LadderUpdate) :
    pointsOf ⟨accountSetLadderPoints world.accounts account clienttag id points, updates⟩ clienttag
        id other =
      if other = account then points.bmod (2 ^ 32) else pointsOf world clienttag id other := by
  by_cases same : other = account
  · simp [pointsOf, accountGetLadderPoints, accountSetLadderPoints, LadderGames.modify, same,
      Int32.toInt_ofInt]
  · simp [pointsOf, accountGetLadderPoints, accountSetLadderPoints, LadderGames.modify, same]

theorem bmod_small (points : Int) (low : -2 ^ 31 ≤ points) (high : points < 2 ^ 31) :
    points.bmod (2 ^ 32) = points :=
  Int.bmod_eq_of_le (by omega) (by omega)

def newPoints (share : Int → Int → Int) (result : GameResult) (own other : Int) : Int :=
  if result = .win then own + share own other else own - min (64 - share own other) (own.tdiv 10)

variable (share : Int → Int → Int) (world : World)

theorem update_player_points (tagged : clienttag ≠ 0) (pl1Points pl2Points : Int)
    (account other : UInt32) (result : GameResult) :
    pointsOf (updatePlayer share clienttag tagged id pl1Points pl2Points account result world)
        clienttag id other =
      if other = account then
        (newPoints share result (pointsOf world clienttag id account)
          (if pointsOf world clienttag id account = pl1Points then pl2Points else pl1Points)).bmod
            (2 ^ 32)
      else pointsOf world clienttag id other := by
  rw [updatePlayer, points_set, newPoints]
  rfl

theorem update_wol_points (tagged : clienttag ≠ 0) (players : UInt32 × UInt32)
    (apart : players.1 ≠ players.2) (results : GameResult × GameResult)
    (counts : results.1 = .none ∨ results.1 ≠ results.2) :
    let first := pointsOf world clienttag id players.1
    let second := pointsOf world clienttag id players.2
    let answer := ladderUpdateWol share world clienttag id players results
    answer.results = results ∧
      pointsOf answer.world clienttag id players.1 =
        (newPoints share results.1 first second).bmod (2 ^ 32) ∧
      pointsOf answer.world clienttag id players.2 =
        (newPoints share results.2 second first).bmod (2 ^ 32) := by
  intro first second answer
  have open' : ¬(results.1 ≠ .none ∧ results.2 ≠ .none ∧ results.1 = results.2) := by
    rintro ⟨some, -, same⟩
    exact counts.elim some fun other => other same
  let turn := updatePlayer share clienttag tagged id first second
  have loop : answer = ⟨0, turn players.2 results.2 (turn players.1 results.1 world), results⟩ := by
    simp only [answer, turn, ladderUpdateWol, tagged, open', dite_false, if_false, first, second]
  refine ⟨by rw [loop], ?_, ?_⟩
  · simp only [loop, turn]
    rw [update_player_points, if_neg apart, update_player_points, if_pos rfl, if_pos rfl]
  have opponent : (if second = first then second else first) = first := by
    split <;> simp_all
  simp only [loop, turn]
  rw [update_player_points, if_pos rfl, update_player_points, if_neg apart.symm]
  rw [opponent]

section Player
variable {share} {own other : Int} (result : GameResult) (low : 0 ≤ share own other)
  (high : share own other ≤ 64) (nonneg : 0 ≤ own) (bounded : own < 2 ^ 31)
include low high nonneg bounded

theorem settles_iff :
    Settles share result own other ((newPoints share result own other).bmod (2 ^ 32)) ↔
      StaysInt share result own other := by
  unfold Settles StaysInt newPoints
  by_cases wins : result = .win
  · simp only [wins, if_true, forall_const]
    constructor
    · intro same
      have range := @Int.bmod_lt (own + share own other) (2 ^ 32) (by decide)
      omega
    · exact fun room => bmod_small _ (by omega) room
  · have tenth : own.tdiv 10 = own / 10 := Int.tdiv_eq_ediv_of_nonneg nonneg
    have value := bmod_small (own - min (64 - share own other) (own.tdiv 10))
      (by omega) (by omega)
    simp only [wins, if_false, value]
    exact iff_of_true (by omega) (by simp)

theorem moves_iff (room : StaysInt share result own other) :
    (newPoints share result own other).bmod (2 ^ 32) ≠ own ↔ Moves share result own other := by
  unfold Moves newPoints
  by_cases wins : result = .win
  · rw [if_pos wins, if_pos wins, bmod_small _ (by omega) (room wins)]
    omega
  · have tenth : own.tdiv 10 = own / 10 := Int.tdiv_eq_ediv_of_nonneg nonneg
    rw [if_neg wins, if_neg wins, bmod_small _ (by omega) (by omega)]
    omega

end Player

end Points

section Update
variable (share : Int → Int → Int) (world : World) (clienttag : UInt32) (id : LadderId)
  (players : UInt32 × UInt32) (results : GameResult × GameResult) (tagged : clienttag ≠ 0)
  (apart : players.1 ≠ players.2)
  (shares : ∀ own other, 0 ≤ share own other ∧ share own other ≤ 64)
  (nonneg1 : 0 ≤ pointsOf world clienttag id players.1)
  (nonneg2 : 0 ≤ pointsOf world clienttag id players.2)
include tagged apart shares nonneg1 nonneg2

theorem counted_fair_iff (different : results ≠ (.disconnect, .disconnect))
    (counts : results.1 = .none ∨ results.1 ≠ results.2) :
    Fair share world clienttag id players results
        (ladderUpdateWol share world clienttag id players results) ↔
      StaysInt share results.1 (pointsOf world clienttag id players.1)
          (pointsOf world clienttag id players.2) ∧
        StaysInt share results.2 (pointsOf world clienttag id players.2)
          (pointsOf world clienttag id players.1) ∧
        (Moves share results.1 (pointsOf world clienttag id players.1)
            (pointsOf world clienttag id players.2) ∨
          Moves share results.2 (pointsOf world clienttag id players.2)
            (pointsOf world clienttag id players.1)) := by
  obtain ⟨kept, first, second⟩ :=
    update_wol_points clienttag id share world tagged players apart results counts
  have range1 := (points_range clienttag id world players.1).2
  have range2 := (points_range clienttag id world players.2).2
  set own1 := pointsOf world clienttag id players.1 with one
  set own2 := pointsOf world clienttag id players.2 with two
  obtain ⟨low1, high1⟩ := shares own1 own2
  obtain ⟨low2, high2⟩ := shares own2 own1
  have settles1 := settles_iff results.1 low1 high1 nonneg1 range1
  have settles2 := settles_iff results.2 low2 high2 nonneg2 range2
  constructor
  · intro fair
    have settled1 := fair.first different
    have settled2 := fair.second different
    rw [first] at settled1
    rw [second] at settled2
    have room1 := settles1.mp settled1
    have room2 := settles2.mp settled2
    refine ⟨room1, room2, ?_⟩
    by_contra neither
    rw [not_or, ← moves_iff results.1 low1 high1 nonneg1 range1 room1,
      ← moves_iff results.2 low2 high2 nonneg2 range2 room2, not_not, not_not] at neither
    exact different (fair.unchanged.mp ⟨first.trans neither.1, second.trans neither.2⟩)
  · rintro ⟨room1, room2, moves⟩
    refine ⟨kept, iff_of_false ?_ different, fun _ => ?_, fun _ => ?_⟩
    · rintro ⟨same1, same2⟩
      rcases moves with moves | moves
      · exact (moves_iff results.1 low1 high1 nonneg1 range1 room1).mpr moves (first ▸ same1)
      · exact (moves_iff results.2 low2 high2 nonneg2 range2 room2).mpr moves (second ▸ same2)
    · rw [first]
      exact settles1.mpr room1
    · rw [second]
      exact settles2.mpr room2

/-- The points are counted as promised exactly if both players disconnected, or the results are not
two equal ones, the winner's points stay an `int` and some points move. -/
theorem update_wol_exact :
    Fair share world clienttag id players results
        (ladderUpdateWol share world clienttag id players results) ↔
      Countable share results (pointsOf world clienttag id players.1)
        (pointsOf world clienttag id players.2) := by
  have counted := counted_fair_iff share world clienttag id players results tagged apart shares
    nonneg1 nonneg2
  by_cases both : results = (.disconnect, .disconnect)
  · refine iff_of_true ?_ (Or.inl both)
    have answer : ladderUpdateWol share world clienttag id players results =
        ⟨0, world, (.disconnect, .disconnect)⟩ := by
      simp [ladderUpdateWol, tagged, both]
    rw [answer]
    exact ⟨both.symm, iff_of_true ⟨rfl, rfl⟩ both, fun different => absurd both different,
      fun different => absurd both different⟩
  by_cases counts : results.1 = .none ∨ results.1 ≠ results.2
  · rw [counted both counts, Countable, or_iff_right both, and_iff_right counts]
  refine iff_of_false ?_ ?_
  · intro fair
    obtain ⟨some, same⟩ := not_or.mp counts
    have equal : results.1 = results.2 := not_not.mp same
    have other : results.2 ≠ .none := equal ▸ some
    have kept := fair.kept
    have answer : (ladderUpdateWol share world clienttag id players results).results =
        (.disconnect, results.2) := by
      simp [ladderUpdateWol, tagged, equal, other]
    rw [answer] at kept
    have first : GameResult.disconnect = results.1 := congrArg Prod.fst kept
    exact both (Prod.ext first.symm (equal ▸ first.symm))
  · rintro (same | ⟨other, -⟩)
    · exact both same
    · exact counts other

end Update

def evenShare (_ _ : Int) : Int := 32

theorem even_share_range (own other : Int) :
    0 ≤ evenShare own other ∧ evenShare own other ≤ 64 := by
  simp [evenShare]

def veterans : World := ⟨fun _ _ _ => { LadderRecord.empty with points := 1000 }, []⟩

theorem even_game_fair : (∀ own other, 0 ≤ evenShare own other ∧ evenShare own other ≤ 64) ∧
    Fair evenShare veterans 0x54535850 .solo (1, 2) (.win, .loss)
      (ladderUpdateWol evenShare veterans 0x54535850 .solo (1, 2) (.win, .loss)) := by
  refine ⟨even_share_range, (update_wol_exact evenShare veterans 0x54535850 .solo (1, 2)
    (.win, .loss) (by decide) (by decide) even_share_range (by decide) (by decide)).mpr
    (Or.inr ⟨Or.inr (by decide), fun _ => by decide, nofun, Or.inl ?_⟩)⟩
  rw [Moves, if_pos rfl]
  decide

/-- Two losses become a disconnect of the first player, and nobody's points change. -/
theorem two_losses_uncounted :
    ¬Fair evenShare veterans 0x54535850 .solo (1, 2) (.loss, .loss)
      (ladderUpdateWol evenShare veterans 0x54535850 .solo (1, 2) (.loss, .loss)) := by
  intro fair
  exact absurd fair.kept (by decide)

end Pvpgn.WolPoints
