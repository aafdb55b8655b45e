import Pvpgn.AnongameMatch
import Pvpgn.PacketFields
import Mathlib.Data.List.Count

/-!
The results that the players of an automatic game send: `anongame_gameresult_parse` reads a packet
into a record, and `anongame_evaluate_results` counts the votes of the records. A `char` has a sign,
and `size_t` has 64 bits. `none` is a read behind a packet or an index outside `wins` and `losses`.
-/

namespace Pvpgn.AnongameResults
open AnongameMatch PacketFields List Option Nat

def w3GameresultLoss : UInt32 := 3
def w3GameresultWin : UInt32 := 4

def sizeofGameresult : Nat := 5
def sizeofPlayer : Nat := 17
def sizeofPart2 : Nat := 53
def sizeofHero : Nat := 10
def sizeofPart3 : Nat := 40

structure Player where
  number : Int8
  result : UInt32
  race : UInt32
  deriving DecidableEq

structure Hero where
  level : UInt32
  raceAndName : UInt32
  heroXp : UInt32
  deriving DecidableEq

/-- `t_anongame_gameresult` -/
structure Gameresult where
  numberOfResults : Int8
  players : List Player
  unitScore : UInt32
  heroesScore : UInt32
  resourceScore : UInt32
  unitsProduced : UInt32
  unitsKilled : UInt32
  buildingsProduced : UInt32
  buildingsRazed : UInt32
  largestArmy : UInt32
  heroesUsedCount : UInt32
  heroes : List Hero
  heroesKilled : UInt32
  itemsObtained : UInt32
  mercenariesHired : UInt32
  totalHeroXp : UInt32
  goldMined : UInt32
  lumberHarvested : UInt32
  resourcesTradedGiven : UInt32
  resourcesTradedTaken : UInt32
  techPercentage : UInt32
  goldLostToUpkeep : UInt32
  deriving DecidableEq

/-- An array that is allocated: the number of its entries, and how many bytes of a packet make
one. -/
structure Alloc where
  entries : Nat
  wire : Nat
  deriving DecidableEq

/-! The parser. -/

/-- An `int` of 32 bits as a `size_t`. -/
def sizeT (value : UInt32) : Nat :=
  if value.toNat < 2 ^ 31 then value.toNat else 2 ^ 64 - 2 ^ 32 + value.toNat

/-- The rounds of a loop up to an `int`. -/
def roundsTo (value : UInt32) : Nat := if value.toNat < 2 ^ 31 then value.toNat else 0

def readPlayers (packet : List UInt8) : Nat → Nat → Option (List Player)
  | 0, _ => some []
  | left + 1, offset => do
    let number ← byteAt packet offset
    let result ← intAt packet (offset + 1)
    let race ← intAt packet (offset + 5)
    let rest ← readPlayers packet left (offset + sizeofPlayer)
    some (⟨number.toInt8, result, race⟩ :: rest)

/-- The level has two bytes, and four are read. -/
def readHeroes (packet : List UInt8) : Nat → Nat → Option (List Hero)
  | 0, _ => some []
  | left + 1, offset => do
    let level ← intAt packet offset
    let raceAndName ← intAt packet (offset + 2)
    let heroXp ← intAt packet (offset + 6)
    let rest ← readHeroes packet left (offset + sizeofHero)
    some (⟨level, raceAndName, heroXp⟩ :: rest)

/-- The record but for its heroes and what follows them. -/
def readPart2 (packet : List UInt8) (resultCount : UInt8) (players : List Player) (offset : Nat) :
    Option Gameresult := do
  let unitScore ← intAt packet (offset + 17)
  let heroesScore ← intAt packet (offset + 21)
  let resourceScore ← intAt packet (offset + 25)
  let unitsProduced ← intAt packet (offset + 29)
  let unitsKilled ← intAt packet (offset + 33)
  let buildingsProduced ← intAt packet (offset + 37)
  let buildingsRazed ← intAt packet (offset + 41)
  let largestArmy ← intAt packet (offset + 45)
  let heroesUsedCount ← intAt packet (offset + 49)
  some ⟨resultCount.toInt8, players, unitScore, heroesScore, resourceScore, unitsProduced,
    unitsKilled, buildingsProduced, buildingsRazed, largestArmy, heroesUsedCount, [], 0, 0, 0, 0, 0,
    0, 0, 0, 0, 0⟩

def readPart3 (packet : List UInt8) (record : Gameresult) (offset : Nat) : Option Gameresult := do
  let heroesKilled ← intAt packet offset
  let itemsObtained ← intAt packet (offset + 4)
  let mercenariesHired ← intAt packet (offset + 8)
  let totalHeroXp ← intAt packet (offset + 12)
  let goldMined ← intAt packet (offset + 16)
  let lumberHarvested ← intAt packet (offset + 20)
  let resourcesTradedGiven ← intAt packet (offset + 24)
  let resourcesTradedTaken ← intAt packet (offset + 28)
  let techPercentage ← intAt packet (offset + 32)
  let goldLostToUpkeep ← intAt packet (offset + 36)
  some { record with
    heroesKilled, itemsObtained, mercenariesHired, totalHeroXp, goldMined, lumberHarvested,
    resourcesTradedGiven, resourcesTradedTaken, techPercentage, goldLostToUpkeep }

/-- The size of a packet without heroes. -/
def expectedSize (resultCount : UInt8) : Nat :=
  sizeofGameresult + sizeofPlayer * resultCount.toNat + sizeofPart2 + sizeofPart3

/-- `anongame_gameresult_parse`: what is allocated, and the record unless it is NULL. `stale` is
what lies behind a packet without a body. -/
def anongameGameresultParse (stale : UInt8) (packet : List UInt8) :
    Option (List Alloc × Option Gameresult) :=
  let resultCount := (byteAt packet 4).getD stale
  let expectedsize := expectedSize resultCount
  if packet.length < expectedsize then some ([], none)
  else do
    let allocs := [⟨1, expectedsize⟩, ⟨resultCount.toNat, sizeofPlayer⟩]
    let players ← readPlayers packet resultCount.toNat sizeofGameresult
    let offset := sizeofGameresult + sizeofPlayer * resultCount.toNat
    let record ← readPart2 packet resultCount players offset
    let offset := offset + sizeofPart2
    let heroesCount := record.heroesUsedCount
    if heroesCount = 0 then
      let record ← readPart3 packet record offset
      some (allocs, some record)
    else
      let allocs := allocs ++ [⟨sizeT heroesCount, sizeofHero⟩]
      if packet.length < (expectedsize + sizeofHero * sizeT heroesCount) % 2 ^ 64 then
        some (allocs, none)
      else do
        let heroes ← readHeroes packet (roundsTo heroesCount) offset
        let record ← readPart3 packet { record with heroes }
          (offset + sizeofHero * roundsTo heroesCount)
        some (allocs, some record)

/-! The evaluation. -/

structure Votes where
  wins : List Nat
  losses : List Nat

/-- `votes[number]++` -/
def countVote (votes : List Nat) (number : Int) : Option (List Nat) :=
  if 0 ≤ number ∧ number.toNat < votes.length then
    some (votes.modify number.toNat (· + 1))
  else none

def vote (votes : Votes) (player : Player) : Option Votes := do
  let number := player.number.toInt - 1
  let wins ← if player.result = w3GameresultWin then countVote votes.wins number
    else some votes.wins
  let losses ← if player.result = w3GameresultLoss then countVote votes.losses number
    else some votes.losses
  some ⟨wins, losses⟩

/-- The entries of a record up to `number_of_results`. -/
def counted (record : Gameresult) : List Player :=
  record.players.take record.numberOfResults.toInt.toNat

/-- The loop over the players of the game and the entries of their records. -/
def voteAll (totalplayers : Nat) (results : List (Option Gameresult)) : Option Votes :=
  (range totalplayers).foldlM (fun votes i => do
    let result ← results[i]?
    match result with
    | none => some votes
    | some record => (counted record).foldlM vote votes)
    ⟨replicate anongameMaxGamecount 0, replicate anongameMaxGamecount 0⟩

/-- `anongame_evaluate_results`: the results of the players. -/
def anongameEvaluateResults (totalplayers : Nat) (results : List (Option Gameresult)) :
    Option (List UInt32) := do
  let votes ← voteAll totalplayers results
  (range totalplayers).mapM fun i => do
    let wins ← votes.wins[i]?
    let losses ← votes.losses[i]?
    some (if losses < wins then w3GameresultWin else w3GameresultLoss)

/-! What the two functions are meant to do. -/

/-- An array is allocated only for entries that the packet has room for. -/
def ParseSafe (stale : UInt8) (packet : List UInt8) : Prop :=
  ∃ allocs record, anongameGameresultParse stale packet = some (allocs, record) ∧
    ∀ alloc ∈ allocs, alloc.entries * alloc.wire ≤ packet.length

def resultsOf (stale : UInt8) (packets : List (Option (List UInt8))) : List (Option Gameresult) :=
  packets.map fun packet => packet.bind fun packet =>
    (anongameGameresultParse stale packet).bind Prod.snd

/-- A report calls player `p`, who is counted from 0, the winner or the loser. -/
def calls (result : UInt32) (p : Nat) (report : Option Gameresult) : Bool :=
  report.any fun record => record.players.any fun player =>
    player.number.toInt = (p : Int) + 1 && player.result = result

def reports (totalplayers : Nat) (results : List (Option Gameresult)) (result : UInt32) (p : Nat) :
    Nat :=
  (results.take totalplayers).countP (calls result p)

/-- A player wins if more reports call him the winner than the loser. -/
def Evaluated (totalplayers : Nat) (results : List (Option Gameresult)) : Prop :=
  ∃ outcome, anongameEvaluateResults totalplayers results = some outcome ∧
    outcome.length = totalplayers ∧ ∀ p < totalplayers, outcome[p]? = some w3GameresultWin ↔
      reports totalplayers results w3GameresultLoss p <
        reports totalplayers results w3GameresultWin p

/-! When they do it. -/

/-- The heroes that a packet of the expected size announces fit into it. -/
def RoomForHeroes (stale : UInt8) (packet : List UInt8) : Prop :=
  expectedSize ((byteAt packet 4).getD stale) ≤ packet.length → ∀ heroesCount,
    intAt packet (sizeofGameresult + sizeofPlayer * ((byteAt packet 4).getD stale).toNat + 49) =
      some heroesCount → sizeT heroesCount * sizeofHero ≤ packet.length

def entries (totalplayers : Nat) (results : List (Option Gameresult)) (result : UInt32) (p : Nat) :
    Nat :=
  (((results.take totalplayers).filterMap id).flatMap counted).countP fun player =>
    player.number.toInt = (p : Int) + 1 && player.result = result

/-- The players that a record names as winners and losers have slots. -/
def NumbersFit (record : Gameresult) : Prop :=
  ∀ player ∈ counted record, player.result = w3GameresultWin ∨ player.result = w3GameresultLoss →
    1 ≤ player.number.toInt ∧ player.number.toInt ≤ anongameMaxGamecount

/-- The records name players of the arrays, and every player has the majority of the reports when he
has the majority of the entries that are counted. -/
structure Votable (totalplayers : Nat) (results : List (Option Gameresult)) : Prop where
  few : totalplayers ≤ anongameMaxGamecount
  numbers : ∀ record, some record ∈ results.take totalplayers → NumbersFit record
  majority : ∀ p < totalplayers, entries totalplayers results w3GameresultLoss p <
      entries totalplayers results w3GameresultWin p ↔
      reports totalplayers results w3GameresultLoss p <
        reports totalplayers results w3GameresultWin p

section Parse
variable (stale : UInt8) (packet : List UInt8)

theorem read_players_inside (left offset : Nat)
    (inside : offset + sizeofPlayer * left ≤ packet.length) :
    ∃ players, readPlayers packet left offset = some players := by
  induction left generalizing offset with
  | zero => exact ⟨[], rfl⟩
  | succ left ih =>
    simp only [sizeofPlayer] at inside
    obtain ⟨number, numberIs⟩ := byte_at_inside (by omega : offset < packet.length)
    obtain ⟨result, resultIs⟩ := int_at_inside (by omega : offset + 1 + 4 ≤ packet.length)
    obtain ⟨race, raceIs⟩ := int_at_inside (by omega : offset + 5 + 4 ≤ packet.length)
    obtain ⟨rest, restIs⟩ := ih (offset + sizeofPlayer) (by simp only [sizeofPlayer]; omega)
    refine ⟨⟨number.toInt8, result, race⟩ :: rest, ?_⟩
    rw [readPlayers, numberIs, resultIs, raceIs, restIs]
    rfl

theorem read_heroes_inside (left offset : Nat)
    (inside : offset + sizeofHero * left ≤ packet.length) :
    ∃ heroes, readHeroes packet left offset = some heroes := by
  induction left generalizing offset with
  | zero => exact ⟨[], rfl⟩
  | succ left ih =>
    simp only [sizeofHero] at inside
    obtain ⟨level, levelIs⟩ := int_at_inside (by omega : offset + 4 ≤ packet.length)
    obtain ⟨name, nameIs⟩ := int_at_inside (by omega : offset + 2 + 4 ≤ packet.length)
    obtain ⟨xp, xpIs⟩ := int_at_inside (by omega : offset + 6 + 4 ≤ packet.length)
    obtain ⟨rest, restIs⟩ := ih (offset + sizeofHero) (by simp only [sizeofHero]; omega)
    refine ⟨⟨level, name, xp⟩ :: rest, ?_⟩
    rw [readHeroes, levelIs, nameIs, xpIs, restIs]
    rfl

theorem read_part2_inside (resultCount : UInt8) (players : List Player) (offset : Nat)
    (inside : offset + sizeofPart2 ≤ packet.length) :
    ∃ record, readPart2 packet resultCount players offset = some record ∧
      intAt packet (offset + 49) = some record.heroesUsedCount := by
  rw [sizeofPart2] at inside
  obtain ⟨unitScore, unitScoreIs⟩ := int_at_inside (by omega : offset + 17 + 4 ≤ packet.length)
  obtain ⟨heroesScore, heroesScoreIs⟩ := int_at_inside (by omega : offset + 21 + 4 ≤ packet.length)
  obtain ⟨resources, resourcesIs⟩ := int_at_inside (by omega : offset + 25 + 4 ≤ packet.length)
  obtain ⟨produced, producedIs⟩ := int_at_inside (by omega : offset + 29 + 4 ≤ packet.length)
  obtain ⟨killed, killedIs⟩ := int_at_inside (by omega : offset + 33 + 4 ≤ packet.length)
  obtain ⟨built, builtIs⟩ := int_at_inside (by omega : offset + 37 + 4 ≤ packet.length)
  obtain ⟨razed, razedIs⟩ := int_at_inside (by omega : offset + 41 + 4 ≤ packet.length)
  obtain ⟨army, armyIs⟩ := int_at_inside (by omega : offset + 45 + 4 ≤ packet.length)
  obtain ⟨heroes, heroesIs⟩ := int_at_inside (by omega : offset + 49 + 4 ≤ packet.length)
  refine ⟨⟨resultCount.toInt8, players, unitScore, heroesScore, resources, produced, killed, built,
    razed, army, heroes, [], 0, 0, 0, 0, 0, 0, 0, 0, 0, 0⟩, ?_, heroesIs⟩
  rw [readPart2, unitScoreIs, heroesScoreIs, resourcesIs, producedIs, killedIs, builtIs, razedIs,
    armyIs, heroesIs]
  rfl

theorem read_part3_inside (record : Gameresult) (offset : Nat)
    (inside : offset + sizeofPart3 ≤ packet.length) :
    ∃ whole, readPart3 packet record offset = some whole := by
  rw [sizeofPart3] at inside
  obtain ⟨killed, killedIs⟩ := int_at_inside (by omega : offset + 4 ≤ packet.length)
  obtain ⟨items, itemsIs⟩ := int_at_inside (by omega : offset + 4 + 4 ≤ packet.length)
  obtain ⟨hired, hiredIs⟩ := int_at_inside (by omega : offset + 8 + 4 ≤ packet.length)
  obtain ⟨xp, xpIs⟩ := int_at_inside (by omega : offset + 12 + 4 ≤ packet.length)
  obtain ⟨gold, goldIs⟩ := int_at_inside (by omega : offset + 16 + 4 ≤ packet.length)
  obtain ⟨lumber, lumberIs⟩ := int_at_inside (by omega : offset + 20 + 4 ≤ packet.length)
  obtain ⟨given_, givenIs⟩ := int_at_inside (by omega : offset + 24 + 4 ≤ packet.length)
  obtain ⟨taken, takenIs⟩ := int_at_inside (by omega : offset + 28 + 4 ≤ packet.length)
  obtain ⟨tech, techIs⟩ := int_at_inside (by omega : offset + 32 + 4 ≤ packet.length)
  obtain ⟨upkeep, upkeepIs⟩ := int_at_inside (by omega : offset + 36 + 4 ≤ packet.length)
  rw [readPart3, killedIs, itemsIs, hiredIs, xpIs, goldIs, lumberIs, givenIs, takenIs, techIs,
    upkeepIs]
  exact ⟨_, rfl⟩

theorem parse_inside (long : expectedSize ((byteAt packet 4).getD stale) ≤ packet.length) :
    ∃ heroesCount, intAt packet (sizeofGameresult +
        sizeofPlayer * ((byteAt packet 4).getD stale).toNat + 49) = some heroesCount ∧
      ∃ record, anongameGameresultParse stale packet =
        some (⟨1, expectedSize ((byteAt packet 4).getD stale)⟩ ::
          ⟨((byteAt packet 4).getD stale).toNat, sizeofPlayer⟩ ::
            (if heroesCount = 0 then [] else [⟨sizeT heroesCount, sizeofHero⟩]), record) := by
  unfold anongameGameresultParse
  generalize (byteAt packet 4).getD stale = resultCount at long ⊢
  have few := UInt8.toNat_lt resultCount
  have size : expectedSize resultCount = 98 + 17 * resultCount.toNat := by
    simp only [expectedSize, sizeofGameresult, sizeofPlayer, sizeofPart2, sizeofPart3]
    omega
  obtain ⟨players, playersIs⟩ := read_players_inside packet resultCount.toNat
    sizeofGameresult (by simp only [sizeofGameresult, sizeofPlayer]; omega)
  obtain ⟨record, recordIs, heroesIs⟩ := read_part2_inside packet resultCount players
    (sizeofGameresult + sizeofPlayer * resultCount.toNat)
    (by simp only [sizeofGameresult, sizeofPlayer, sizeofPart2]; omega)
  refine ⟨record.heroesUsedCount, heroesIs, ?_⟩
  dsimp only
  rw [size, if_neg (by omega), playersIs, bind_eq_bind, bind_some, recordIs,
    bind_eq_bind, bind_some]
  by_cases none : record.heroesUsedCount = 0
  · obtain ⟨whole, wholeIs⟩ := read_part3_inside packet record
      (sizeofGameresult + sizeofPlayer * resultCount.toNat + sizeofPart2)
      (by simp only [sizeofGameresult, sizeofPlayer, sizeofPart2, sizeofPart3]; omega)
    rw [if_pos none, if_pos none, wholeIs]
    exact ⟨_, rfl⟩
  rw [if_neg none, if_neg none]
  split
  · exact ⟨_, rfl⟩
  rename_i room
  -- A negative count has no rounds, and any other one does not wrap.
  have rounds : 98 + 17 * resultCount.toNat + 10 * roundsTo record.heroesUsedCount ≤
      packet.length := by
    unfold roundsTo
    split
    · rename_i positive
      rw [sizeT, if_pos positive, sizeofHero, mod_eq_of_lt (by omega)] at room
      omega
    · omega
  obtain ⟨heroes, heroesRead⟩ := read_heroes_inside packet
    (roundsTo record.heroesUsedCount)
    (sizeofGameresult + sizeofPlayer * resultCount.toNat + sizeofPart2)
    (by simp only [sizeofGameresult, sizeofPlayer, sizeofPart2, sizeofHero]; omega)
  obtain ⟨whole, wholeIs⟩ := read_part3_inside packet { record with heroes }
    (sizeofGameresult + sizeofPlayer * resultCount.toNat + sizeofPart2 +
      sizeofHero * roundsTo record.heroesUsedCount)
    (by
      simp only [sizeofGameresult, sizeofPlayer, sizeofPart2, sizeofPart3, sizeofHero]
      omega)
  rw [heroesRead, bind_eq_bind, bind_some, wholeIs]
  exact ⟨_, rfl⟩

theorem parse_safe_iff : ParseSafe stale packet ↔ RoomForHeroes stale packet := by
  by_cases short : packet.length < expectedSize ((byteAt packet 4).getD stale)
  · refine iff_of_true ⟨[], none, if_pos short, by simp⟩ fun long => ?_
    exact absurd short (by omega)
  obtain ⟨heroesCount, heroesIs, record, run⟩ := parse_inside stale packet (by omega)
  have size : expectedSize ((byteAt packet 4).getD stale) =
      98 + 17 * ((byteAt packet 4).getD stale).toNat := by
    simp only [expectedSize, sizeofGameresult, sizeofPlayer, sizeofPart2, sizeofPart3]
    omega
  constructor
  · rintro ⟨allocs, result, again, bounded⟩ - count countIs
    rw [heroesIs] at countIs
    cases countIs
    rw [run] at again
    cases again
    by_cases none : heroesCount = 0
    · subst none
      exact zero_le _
    · exact bounded ⟨sizeT heroesCount, sizeofHero⟩ (by simp [none])
  · intro room
    refine ⟨_, _, run, fun alloc listed => ?_⟩
    rcases mem_cons.mp listed with rfl | listed
    · dsimp only
      omega
    rcases mem_cons.mp listed with rfl | listed
    · simp only [sizeofPlayer]
      omega
    split at listed
    · cases listed
    · rw [mem_singleton.mp listed]
      exact room (by omega) heroesCount heroesIs

end Parse

section Evaluate

/-- The entry names a player of the arrays, if it is counted at all. -/
def Fits (player : Player) : Prop :=
  player.result = w3GameresultWin ∨ player.result = w3GameresultLoss →
    1 ≤ player.number.toInt ∧ player.number.toInt ≤ anongameMaxGamecount

def names (result : UInt32) (p : Nat) (player : Player) : Bool :=
  player.number.toInt = (p : Int) + 1 && player.result = result

def Whole (votes : Votes) : Prop :=
  votes.wins.length = anongameMaxGamecount ∧ votes.losses.length = anongameMaxGamecount

structure Added (players : List Player) (before after : Votes) : Prop where
  wins : ∀ p, after.wins[p]? = (before.wins[p]?).map (· + players.countP (names w3GameresultWin p))
  losses : ∀ p, after.losses[p]? =
    (before.losses[p]?).map (· + players.countP (names w3GameresultLoss p))

theorem Added.whole {players : List Player} {before after : Votes}
    (added : Added players before after) (whole : Whole before) : Whole after := by
  have length (left right : List Nat) (f : Nat → Nat → Nat)
      (same : ∀ p : Nat, left[p]? = (right[p]?).map (f p)) : left.length = right.length := by
    apply le_antisymm
    · rw [← List.getElem?_eq_none_iff, same]
      simp
    · rw [← List.getElem?_eq_none_iff, ← map_eq_none_iff (f := f left.length), ← same]
      simp
  exact ⟨(length _ _ _ added.wins).trans whole.1, (length _ _ _ added.losses).trans whole.2⟩

theorem count_vote_spec {votes : List Nat} (whole : votes.length = anongameMaxGamecount)
    (number : Int) :
    ((1 ≤ number ∧ number ≤ anongameMaxGamecount) ∧ ∃ after,
      countVote votes (number - 1) = some after ∧
      ∀ p : Nat, after[p]? = (votes[p]?).map (· + if number = (p : Int) + 1 then 1 else 0)) ∨
    ¬ (1 ≤ number ∧ number ≤ anongameMaxGamecount) ∧ countVote votes (number - 1) = none := by
  by_cases inside : 1 ≤ number ∧ number ≤ anongameMaxGamecount
  · refine .inl ⟨inside, _, if_pos (by omega), fun p => ?_⟩
    rw [getElem?_modify]
    cases votes[p]? with
    | none => simp
    | some count =>
      by_cases here : number = (p : Int) + 1
      · simp [here]
      · rw [if_neg here]
        have elsewhere : (number - 1).toNat ≠ p := by omega
        simp only [Option.map_eq_map, map_some, if_neg elsewhere, add_zero]
  · exact .inr ⟨inside, if_neg (by omega)⟩

theorem single_count (result : UInt32) (p : Nat) (player : Player) :
    [player].countP (names result p) = if player.result = result then
      if player.number.toInt = (p : Int) + 1 then 1 else 0 else 0 := by
  by_cases voted : player.result = result
  · by_cases here : player.number.toInt = (p : Int) + 1
    · simp [names, voted, here]
    · simp [names, voted, here]
  · simp [names, voted]

variable {results : List (Option Gameresult)} {totalplayers : Nat} {votes : Votes}

theorem vote_cases (whole : Whole votes) (player : Player) :
    (Fits player ∧ ∃ after, vote votes player = some after ∧ Added [player] votes after) ∨
      ¬ Fits player ∧ vote votes player = none := by
  have differ : w3GameresultWin ≠ w3GameresultLoss := by decide
  rw [vote]
  by_cases win : player.result = w3GameresultWin
  · have loss : player.result ≠ w3GameresultLoss := by
      rw [win]
      exact differ
    rw [if_pos win]
    simp only [if_neg loss]
    rcases count_vote_spec whole.1 player.number.toInt with ⟨inside, after, run, counts⟩ |
      ⟨outside, run⟩
    · refine .inl ⟨fun _ => inside, ⟨after, votes.losses⟩, by rw [run]; rfl, fun p => ?_,
        fun p => ?_⟩
      · rw [counts, single_count, if_pos win]
      · rw [single_count, if_neg loss]
        simp
    · exact .inr ⟨fun fits => outside (fits (.inl win)), by rw [run]; rfl⟩
  · rw [if_neg win]
    by_cases loss : player.result = w3GameresultLoss
    · simp only [if_pos loss]
      rcases count_vote_spec whole.2 player.number.toInt with ⟨inside, after, run, counts⟩ |
        ⟨outside, run⟩
      · refine .inl ⟨fun _ => inside, ⟨votes.wins, after⟩, by rw [run]; rfl, fun p => ?_,
          fun p => ?_⟩
        · rw [single_count, if_neg win]
          simp
        · rw [counts, single_count, if_pos loss]
      · exact .inr ⟨fun fits => outside (fits (.inr loss)), by rw [run]; rfl⟩
    · simp only [if_neg loss]
      refine .inl ⟨fun voted => absurd voted (not_or.mpr ⟨win, loss⟩), votes, rfl, fun p => ?_,
        fun p => ?_⟩
      · rw [single_count, if_neg win]
        simp
      · rw [single_count, if_neg loss]
        simp

theorem Added.trans {first second : List Player} {before middle after : Votes}
    (one : Added first before middle) (two : Added second middle after) :
    Added (first ++ second) before after where
  wins := fun p => by
    rw [two.wins, one.wins, Option.map_map, countP_append]
    congr 1
    funext count
    exact add_assoc _ _ _
  losses := fun p => by
    rw [two.losses, one.losses, Option.map_map, countP_append]
    congr 1
    funext count
    exact add_assoc _ _ _

theorem fold_cases (whole : Whole votes) (players : List Player) :
    ((∀ player ∈ players, Fits player) ∧ ∃ after, players.foldlM vote votes = some after ∧
      Added players votes after) ∨
      ¬ (∀ player ∈ players, Fits player) ∧ players.foldlM vote votes = none := by
  induction players generalizing votes with
  | nil =>
    exact .inl ⟨by simp, votes, rfl, fun p => by simp, fun p => by simp⟩
  | cons player rest ih =>
    rw [foldlM_cons]
    rcases vote_cases whole player with ⟨fits, middle, run, one⟩ | ⟨unfit, run⟩
    · rw [run]
      rcases ih (one.whole whole) with ⟨others, after, further, added⟩ | ⟨others, further⟩
      · refine .inl ⟨?_, after, further, one.trans added⟩
        intro other listed
        rcases mem_cons.mp listed with rfl | listed
        · exact fits
        · exact others other listed
      · exact .inr ⟨fun all => others fun other listed =>
          all other (mem_cons_of_mem _ listed), further⟩
    · rw [run]
      exact .inr ⟨fun all => unfit (all player mem_cons_self), rfl⟩

def allEntries (totalplayers : Nat) (results : List (Option Gameresult)) : List Player :=
  ((results.take totalplayers).filterMap id).flatMap counted

theorem vote_all_fold (totalplayers : Nat) (few : totalplayers ≤ results.length) :
    voteAll totalplayers results =
      (allEntries totalplayers results).foldlM vote
        ⟨replicate anongameMaxGamecount 0, replicate anongameMaxGamecount 0⟩ := by
  unfold voteAll allEntries
  induction totalplayers with
  | zero => rfl
  | succ count ih =>
    have here : results[count]? = some results[count] := getElem?_eq_getElem few
    rw [range_succ, foldlM_append, ih (by omega), take_add_one, here,
      toList_some, filterMap_append, flatMap_append, foldlM_append]
    congr 1
    funext votes
    cases record : results[count] with
    | none => simp [here, record]
    | some record => simp [here, record]

theorem vote_all_long (many : results.length + 1 ≤ totalplayers) :
    voteAll totalplayers results = none := by
  have bind_none (votes : Option Votes) : (votes.bind fun _ => (none : Option Votes)) = none := by
    cases votes <;> rfl
  unfold voteAll
  induction totalplayers, many using le_induction with
  | base =>
    have behind : results[results.length]? = none := getElem?_eq_none (le_refl _)
    rw [range_succ, foldlM_append]
    simp only [foldlM_cons, behind, bind_eq_bind, Option.bind_none, bind_none]
  | succ count _ ih =>
    rw [range_succ, foldlM_append, ih]
    rfl

theorem map_all {f : Nat → Option UInt32} {g : Nat → UInt32} (indices : List Nat)
    (same : ∀ i ∈ indices, f i = some (g i)) : indices.mapM f = some (indices.map g) := by
  induction indices with
  | nil => rfl
  | cons i rest ih =>
    rw [mapM_cons, same i mem_cons_self,
      ih fun other listed => same other (mem_cons_of_mem _ listed)]
    rfl

theorem evaluate_votes (few : totalplayers ≤ anongameMaxGamecount)
    (run : voteAll totalplayers results = some votes)
    (added : Added (allEntries totalplayers results)
      ⟨replicate anongameMaxGamecount 0, replicate anongameMaxGamecount 0⟩ votes) :
    anongameEvaluateResults totalplayers results = some ((range totalplayers).map fun p =>
      if entries totalplayers results w3GameresultLoss p <
        entries totalplayers results w3GameresultWin p then w3GameresultWin
      else w3GameresultLoss) := by
  rw [anongameEvaluateResults, run, bind_eq_bind, bind_some]
  refine map_all _ fun p known => ?_
  have slot : (replicate anongameMaxGamecount 0)[p]? = some 0 := by
    rw [getElem?_replicate, if_pos (lt_of_lt_of_le (mem_range.mp known) few)]
  have wins := added.wins p
  have losses := added.losses p
  rw [slot, map_some, zero_add] at wins losses
  rw [wins, losses]
  rfl

theorem entries_fit_iff (totalplayers : Nat) (results : List (Option Gameresult)) :
    (∀ player ∈ allEntries totalplayers results, Fits player) ↔
      ∀ record, some record ∈ results.take totalplayers → NumbersFit record := by
  constructor
  · intro fits record listed player counts
    exact fits player (mem_flatMap.mpr
      ⟨record, mem_filterMap.mpr ⟨some record, listed, rfl⟩, counts⟩)
  · intro fits player listed
    obtain ⟨record, known, counts⟩ := mem_flatMap.mp listed
    obtain ⟨_, present, rfl⟩ := mem_filterMap.mp known
    exact fits record present player counts

theorem outcome_win_iff (losses wins : Nat → Nat) {p : Nat} (known : p < totalplayers) :
    ((range totalplayers).map fun p =>
        if losses p < wins p then w3GameresultWin else w3GameresultLoss)[p]? =
      some w3GameresultWin ↔ losses p < wins p := by
  rw [getElem?_map, getElem?_range known, map_some]
  split
  · rename_i more
    exact iff_of_true rfl more
  · rename_i less
    exact iff_of_false (by decide) less

theorem evaluated_iff (slots : results.length = anongameMaxGamecount) :
    Evaluated totalplayers results ↔ Votable totalplayers results := by
  by_cases few : totalplayers ≤ anongameMaxGamecount
  · have start : Whole ⟨replicate anongameMaxGamecount 0,
        replicate anongameMaxGamecount 0⟩ := ⟨rfl, rfl⟩
    have fold := vote_all_fold totalplayers (slots.symm ▸ few)
    have all_fit := entries_fit_iff totalplayers results
    rcases fold_cases start (allEntries totalplayers results) with ⟨fits, votes, run, added⟩ |
      ⟨unfit, run⟩
    · rw [run] at fold
      have evaluated := evaluate_votes few fold added
      have outcomes (p : Nat) (known : p < totalplayers) :=
        outcome_win_iff (entries totalplayers results w3GameresultLoss)
          (entries totalplayers results w3GameresultWin) known
      constructor
      · rintro ⟨outcome, run, -, right⟩
        rw [evaluated] at run
        cases run
        exact ⟨few, all_fit.mp fits, fun p known => (outcomes p known).symm.trans (right p known)⟩
      · rintro ⟨-, -, majority⟩
        exact ⟨_, evaluated, by simp, fun p known => (outcomes p known).trans (majority p known)⟩
    · refine iff_of_false ?_ fun votable => unfit (all_fit.mpr votable.numbers)
      rintro ⟨outcome, evaluated, -⟩
      rw [anongameEvaluateResults, fold, run] at evaluated
      cases evaluated
  · refine iff_of_false ?_ fun votable => few votable.few
    rintro ⟨outcome, evaluated, -⟩
    rw [anongameEvaluateResults, vote_all_long (by omega)] at evaluated
    cases evaluated

/-- What the players of a game have sent is parsed and evaluated rightly if the announced heroes fit
into their packets and their reports can be counted. -/
theorem results_right_iff (stale : UInt8) (totalplayers : Nat)
    (packets : List (Option (List UInt8))) (slots : packets.length = anongameMaxGamecount) :
    (∀ packet, some packet ∈ packets → ParseSafe stale packet) ∧
        Evaluated totalplayers (resultsOf stale packets) ↔
      (∀ packet, some packet ∈ packets → RoomForHeroes stale packet) ∧
        Votable totalplayers (resultsOf stale packets) := by
  have parses : (∀ packet, some packet ∈ packets → ParseSafe stale packet) ↔
      ∀ packet, some packet ∈ packets → RoomForHeroes stale packet :=
    forall₂_congr fun packet _ => parse_safe_iff stale packet
  rw [parses, evaluated_iff (by rw [resultsOf, length_map, slots])]

def samplePacket (loser : UInt8) : List UInt8 :=
  [0xf7, 0x3a, 132, 0, 2, 1, 4, 0, 0, 0] ++ replicate 12 0 ++ [loser, 3, 0, 0, 0] ++ replicate 105 0

def samplePackets (loser : UInt8) : List (Option (List UInt8)) :=
  some (samplePacket loser) :: replicate 11 none

theorem two_players_right : Evaluated 2 (resultsOf 0 (samplePackets 2)) := by
  refine ((results_right_iff 0 2 (samplePackets 2) rfl).mpr ⟨?_, ⟨by decide, ?_, ?_⟩⟩).2
  · intro packet listed long count countIs
    obtain rfl : packet = samplePacket 2 := by simpa [samplePackets] using listed
    have none : intAt (samplePacket 2) (sizeofGameresult + sizeofPlayer *
      ((byteAt (samplePacket 2) 4).getD 0).toNat + 49) = some 0 := by decide +kernel
    rw [none] at countIs
    cases countIs
    exact zero_le _
  · intro record listed
    have named : ∀ record ∈ ((resultsOf 0 (samplePackets 2)).take 2).filterMap id,
        ∀ player ∈ counted record,
          1 ≤ player.number.toInt ∧ player.number.toInt ≤ anongameMaxGamecount := by decide +kernel
    exact fun player counts _ =>
      named record (mem_filterMap.mpr ⟨_, listed, rfl⟩) player counts
  · decide +kernel

/-- Number 13 is behind the arrays. -/
theorem thirteenth_outside : ¬ ((∀ packet, some packet ∈ samplePackets 13 → ParseSafe 0 packet) ∧
    Evaluated 2 (resultsOf 0 (samplePackets 13))) := by
  rintro ⟨-, outcome, evaluated, -⟩
  have outside : anongameEvaluateResults 2 (resultsOf 0 (samplePackets 13)) = none := by
    decide +kernel
  rw [outside] at evaluated
  cases evaluated

end Evaluate

end Pvpgn.AnongameResults
