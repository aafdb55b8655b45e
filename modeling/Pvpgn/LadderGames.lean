import Pvpgn.Ladder
import Mathlib.Algebra.Order.Ring.Nat

/-!
The ladder records of accounts: `ladder_init_account`, the counters of `account_wrap.cpp`,
`ladder_update` and the rebuilding of ladders from accounts. A division by zero is `none`. The
result of `ladder_calc_info` is given with the players of an update.
-/

namespace Pvpgn.LadderGames
open Ladder Option List

/-- The attributes of one client tag and ladder. -/
structure LadderRecord where
  wins : UInt32
  losses : UInt32
  draws : UInt32
  disconnects : UInt32
  rating : UInt32
  highRating : UInt32
  level : UInt32
  xp : UInt32
  points : UInt32
  activeWins : UInt32
  activeLosses : UInt32
  activeDraws : UInt32
  activeDisconnects : UInt32
  activeRating : UInt32
  deriving Repr, DecidableEq

def LadderRecord.empty : LadderRecord := ⟨0, 0, 0, 0, 0, 0, 0, 0, 0, 0, 0, 0, 0, 0⟩

abbrev Accounts := UInt32 → UInt32 → LadderId → LadderRecord

def modify (accounts : Accounts) (account clienttag : UInt32) (id : LadderId)
    (change : LadderRecord → LadderRecord) : Accounts := fun other tag ladder =>
  if other = account ∧ tag = clienttag ∧ ladder = id then change (accounts other tag ladder)
  else accounts other tag ladder

def accountGetLadder (field : LadderRecord → UInt32) (accounts : Accounts)
    (account clienttag : UInt32) (id : LadderId) : UInt32 :=
  if clienttag = 0 then 0 else field (accounts account clienttag id)

def accountGetLadderWins := accountGetLadder LadderRecord.wins
def accountGetLadderLosses := accountGetLadder LadderRecord.losses
def accountGetLadderDraws := accountGetLadder LadderRecord.draws
def accountGetLadderDisconnects := accountGetLadder LadderRecord.disconnects
def accountGetLadderRating := accountGetLadder LadderRecord.rating
def accountGetLadderHighRating := accountGetLadder LadderRecord.highRating
def accountGetLadderActiveWins := accountGetLadder LadderRecord.activeWins
def accountGetLadderActiveLosses := accountGetLadder LadderRecord.activeLosses
def accountGetLadderActiveDraws := accountGetLadder LadderRecord.activeDraws
def accountGetLadderActiveDisconnects := accountGetLadder LadderRecord.activeDisconnects
def accountGetLadderActiveRating := accountGetLadder LadderRecord.activeRating

-- These three do not look at the client tag.
def accountGetLadderLevel (accounts : Accounts) (account clienttag : UInt32) (id : LadderId) :
    UInt32 := (accounts account clienttag id).level
def accountGetLadderXp (accounts : Accounts) (account clienttag : UInt32) (id : LadderId) :
    UInt32 := (accounts account clienttag id).xp
def accountGetLadderPoints (accounts : Accounts) (account clienttag : UInt32) (id : LadderId) :
    UInt32 := (accounts account clienttag id).points

inductive Counter where
  | wins | losses | draws | disconnects
  deriving Repr, DecidableEq

def LadderRecord.count (record : LadderRecord) : Counter → LadderRecord
  | .wins => { record with wins := record.wins + 1 }
  | .losses => { record with losses := record.losses + 1 }
  | .draws => { record with draws := record.draws + 1 }
  | .disconnects => { record with disconnects := record.disconnects + 1 }

def accountIncLadder (counter : Counter) (accounts : Accounts) (account clienttag : UInt32)
    (id : LadderId) : Accounts :=
  if clienttag = 0 then accounts
  else modify accounts account clienttag id fun record => record.count counter

def accountIncLadderWins := accountIncLadder .wins
def accountIncLadderLosses := accountIncLadder .losses
def accountIncLadderDraws := accountIncLadder .draws
def accountIncLadderDisconnects := accountIncLadder .disconnects

/-- The rating does not go below 1. -/
def adjustedRating (oldrating : UInt32) (delta : Int32) : UInt32 :=
  if delta < 0 ∧ oldrating ≤ (-delta).toUInt32 then 1 else oldrating + delta.toUInt32

def accountAdjustLadderRating (accounts : Accounts) (account clienttag : UInt32) (id : LadderId)
    (delta : Int32) : Accounts :=
  if clienttag = 0 then accounts
  else modify accounts account clienttag id fun record =>
    let newrating := adjustedRating record.rating delta
    { record with
      rating := newrating
      highRating := if record.highRating < newrating then newrating else record.highRating }

/-- A call of `LadderList::updateEntry`, or of `addEntry` when a ladder is rebuilt. -/
structure LadderUpdate where
  key : LadderKey
  uid : UInt32
  primary : UInt32
  secondary : UInt32
  tertiary : UInt32

structure World where
  accounts : Accounts
  updates : List LadderUpdate

def fresh : World := ⟨fun _ _ _ => .empty, []⟩

def ladderInitAccount (initRating : UInt32) (world : World) (account clienttag : UInt32)
    (id : LadderId) : World :=
  if tagged : clienttag = 0 then world
  else if accountGetLadderRating world.accounts account clienttag id = 0 then
    if accountGetLadderWins world.accounts account clienttag id +
        accountGetLadderLosses world.accounts account clienttag id > 0 then world
    else
      let accounts := accountAdjustLadderRating world.accounts account clienttag id
        initRating.toInt32
      let rating := accountGetLadderRating accounts account clienttag id
      { accounts
        updates := world.updates ++
          [⟨⟨id, clienttag, .highestrated, .current, tagged⟩, account, rating, 0, 0⟩,
            ⟨⟨id, clienttag, .mostgames, .current, tagged⟩, account, 0, rating, 0⟩,
            ⟨⟨id, clienttag, .mostwins, .current, tagged⟩, account, 0, rating, 0⟩] }
  else world

/-- `(wins<<10)/games`. -/
def ratio (wins games : UInt32) : Option UInt32 :=
  if games = 0 then none else some ((wins <<< 10) / games)

def currentGames (accounts : Accounts) (account clienttag : UInt32) (id : LadderId) : UInt32 :=
  accountGetLadderWins accounts account clienttag id +
    accountGetLadderLosses accounts account clienttag id +
    accountGetLadderDisconnects accounts account clienttag id +
    accountGetLadderDraws accounts account clienttag id

def activeGames (accounts : Accounts) (account clienttag : UInt32) (id : LadderId) : UInt32 :=
  accountGetLadderActiveWins accounts account clienttag id +
    accountGetLadderActiveLosses accounts account clienttag id +
    accountGetLadderActiveDisconnects accounts account clienttag id +
    accountGetLadderActiveDraws accounts account clienttag id

/-- The players with the `adj` that was calculated for each. -/
def updatePlayers (clienttag : UInt32) (tagged : clienttag ≠ 0) (id : LadderId) :
    List (UInt32 × Int32) → World → Option World
  | [], world => some world
  | (account, adj) :: rest, world => do
    let wins := accountGetLadderWins world.accounts account clienttag id
    let games := currentGames world.accounts account clienttag id
    let ratio ← ratio wins games
    let accounts := accountAdjustLadderRating world.accounts account clienttag id adj
    let rating := accountGetLadderRating accounts account clienttag id
    updatePlayers clienttag tagged id rest
      { accounts
        updates := world.updates ++
          [⟨⟨id, clienttag, .highestrated, .current, tagged⟩, account, rating, wins, ratio⟩,
            ⟨⟨id, clienttag, .mostgames, .current, tagged⟩, account, games, rating, ratio⟩,
            ⟨⟨id, clienttag, .mostwins, .current, tagged⟩, account, wins, rating, ratio⟩] }

/-- `calculated` when `ladder_calc_info` succeeds. -/
def ladderUpdate (clienttag : UInt32) (id : LadderId) (players : List (UInt32 × Int32))
    (calculated : Bool) (world : World) : Option World :=
  if players.length < 1 ∨ 8 < players.length then some world
  else if tagged : clienttag = 0 then some world
  else if calculated = false then some world
  else updatePlayers clienttag tagged id players world

def clienttagWarcraft3 : UInt32 := 0x57415233
def clienttagWar3xp : UInt32 := 0x57335850

def tagCheckWolv1 (tag : UInt32) : Bool := tag = 0x57434854

def tagCheckWolv2 (tag : UInt32) : Bool :=
  tag ∈ [0x5453554E, 0x54535850, 0x52414C54, 0x52414C32, 0x444E324B, 0x4E4F5858, 0x4E4F5851,
    0x524E4744, 0x52464453, 0x59555249, 0x45424644, 0x4C4F5233, 0x57574F4C]

/-- `LadderReferencedObject::getData` of an account: primary, secondary and tertiary value, or that
there is no need to add it. -/
def getData (accounts : Accounts) (key : LadderKey) (account : UInt32) :
    Option (Option (UInt32 × UInt32 × UInt32)) :=
  let clienttag := key.clienttag
  let id := key.ladderId
  if clienttag = clienttagWarcraft3 ∨ clienttag = clienttagWar3xp then
    let level := accountGetLadderLevel accounts account clienttag id
    if level = 0 then some none
    else some (some (level, accountGetLadderXp accounts account clienttag id, 0))
  else if tagCheckWolv1 clienttag || tagCheckWolv2 clienttag then
    let points := accountGetLadderPoints accounts account clienttag id
    if points = 0 then some none
    else some (some (points, accountGetLadderWins accounts account clienttag id, 0))
  else
    let (rating, wins, games) :=
      if key.ladderTime = .current then
        (accountGetLadderRating accounts account clienttag id,
          accountGetLadderWins accounts account clienttag id,
          currentGames accounts account clienttag id)
      else
        (accountGetLadderActiveRating accounts account clienttag id,
          accountGetLadderActiveWins accounts account clienttag id,
          activeGames accounts account clienttag id)
    if rating = 0 then some none
    else do
      let ratio ← ratio wins games
      match key.ladderSort with
      | .highestrated => some (some (rating, wins, ratio))
      | .mostwins => some (some (wins, rating, ratio))
      | .mostgames => some (some (games, rating, ratio))
      | .default => some none

def rebuildEntries (accounts : Accounts) : List (UInt32 × LadderKey) → Option (List LadderUpdate)
  | [] => some []
  | (account, key) :: rest => do
    let data ← getData accounts key account
    let later ← rebuildEntries accounts rest
    match data with
    | none => some later
    | some (primary, secondary, tertiary) =>
      some (⟨key, account, primary, secondary, tertiary⟩ :: later)

/-- `Ladders::rebuild`: every account with every account ladder that could not be loaded. -/
def rebuild (listed : List UInt32) (keys : List LadderKey) (world : World) : Option World := do
  let added ← rebuildEntries world.accounts
    (listed.flatMap fun account => keys.map fun key => (account, key))
  some { world with updates := world.updates ++ added }

inductive Operation where
  | ladderInitAccount (account clienttag : UInt32) (id : LadderId)
  | accountIncLadder (counter : Counter) (account clienttag : UInt32) (id : LadderId)
  | ladderUpdate (clienttag : UInt32) (id : LadderId) (players : List (UInt32 × Int32))
      (calculated : Bool)
  | rebuild (listed : List UInt32) (keys : List LadderKey)

def step (initRating : UInt32) (world : World) : Operation → Option World
  | .ladderInitAccount account clienttag id =>
    some (Pvpgn.LadderGames.ladderInitAccount initRating world account clienttag id)
  | .accountIncLadder counter account clienttag id =>
    some { world with
      accounts := Pvpgn.LadderGames.accountIncLadder counter world.accounts account clienttag id }
  | .ladderUpdate clienttag id players calculated =>
    Pvpgn.LadderGames.ladderUpdate clienttag id players calculated world
  | .rebuild listed keys => Pvpgn.LadderGames.rebuild listed keys world

def run (initRating : UInt32) : List Operation → World → Option World
  | [], world => some world
  | operation :: rest, world => do
    let next ← step initRating world operation
    run initRating rest next

def counted (operations : List Operation) (account clienttag : UInt32) (id : LadderId) : Nat :=
  operations.countP fun
    | .accountIncLadder _ other tag ladder => other = account ∧ tag = clienttag ∧ ladder = id
    | _ => false

def sortsRatings (key : LadderKey) : Bool :=
  !(key.clienttag = clienttagWarcraft3 || key.clienttag = clienttagWar3xp ||
    tagCheckWolv1 key.clienttag || tagCheckWolv2 key.clienttag)

/-- Where a ratio is calculated, games have been counted: not a multiple of 2 to the 32nd, as 0. -/
def Guarded (before : List Operation) (world : World) : Operation → Prop
  | .ladderUpdate clienttag id players calculated =>
    clienttag ≠ 0 → 1 ≤ players.length → players.length ≤ 8 → calculated = true →
      ∀ player ∈ players, counted before player.1 clienttag id % 4294967296 ≠ 0
  | .rebuild listed keys =>
    ∀ account ∈ listed, ∀ key ∈ keys, sortsRatings key = true → key.ladderTime = .current →
      accountGetLadderRating world.accounts account key.clienttag key.ladderId ≠ 0 →
      counted before account key.clienttag key.ladderId % 4294967296 ≠ 0
  | _ => True

def EveryStep (initRating : UInt32) (check : List Operation → World → Operation → Prop) :
    List Operation → World → List Operation → Prop
  | _, _, [] => True
  | before, world, operation :: rest =>
    check before world operation ∧ ∀ next, step initRating world operation = some next →
      EveryStep initRating check (before ++ [operation]) next rest

structure Tallied (before : List Operation) (world : World) : Prop where
  games : ∀ account clienttag id, clienttag ≠ 0 → currentGames world.accounts account clienttag id =
    UInt32.ofNat (counted before account clienttag id)
  inactive : ∀ account clienttag id, (world.accounts account clienttag id).activeRating = 0

section Records
variable (accounts : Accounts) (account clienttag : UInt32) (id : LadderId)

theorem games_record (tagged : clienttag ≠ 0) : currentGames accounts account clienttag id =
    (accounts account clienttag id).wins + (accounts account clienttag id).losses +
      (accounts account clienttag id).disconnects + (accounts account clienttag id).draws := by
  simp only [currentGames, accountGetLadderWins, accountGetLadderLosses,
    accountGetLadderDisconnects, accountGetLadderDraws, accountGetLadder, if_neg tagged]

variable (counter : Counter) (other tag : UInt32) (ladder : LadderId)

theorem adjust_games (delta : Int32) :
    currentGames (accountAdjustLadderRating accounts account clienttag id delta) other tag ladder =
        currentGames accounts other tag ladder ∧
      (accountAdjustLadderRating accounts account clienttag id delta other tag ladder).activeRating =
        (accounts other tag ladder).activeRating := by
  have same : ∀ field : LadderRecord → UInt32,
      (∀ record rating high, field { record with rating := rating, highRating := high } =
        field record) →
      field (accountAdjustLadderRating accounts account clienttag id delta other tag ladder) =
        field (accounts other tag ladder) := by
    intro field kept
    unfold accountAdjustLadderRating modify
    split
    · rfl
    dsimp only
    split
    · exact kept _ _ _
    · rfl
  by_cases tagged : tag = 0
  · exact ⟨by simp [currentGames, accountGetLadderWins, accountGetLadderLosses,
      accountGetLadderDisconnects, accountGetLadderDraws, accountGetLadder, tagged],
      same _ fun _ _ _ => rfl⟩
  · rw [games_record _ _ _ _ tagged, games_record _ _ _ _ tagged]
    rw [same LadderRecord.wins fun _ _ _ => rfl, same LadderRecord.losses fun _ _ _ => rfl,
      same LadderRecord.disconnects fun _ _ _ => rfl, same LadderRecord.draws fun _ _ _ => rfl]
    exact ⟨rfl, same _ fun _ _ _ => rfl⟩

theorem inc_games (tagged : tag ≠ 0) :
    currentGames (accountIncLadder counter accounts account clienttag id) other tag ladder =
      currentGames accounts other tag ladder +
        (if account = other ∧ clienttag = tag ∧ id = ladder then 1 else 0) := by
  rw [games_record _ _ _ _ tagged, games_record _ _ _ _ tagged]
  by_cases here : account = other ∧ clienttag = tag ∧ id = ladder
  · obtain ⟨rfl, rfl, rfl⟩ := here
    have counts : accountIncLadder counter accounts account clienttag id account clienttag id =
        (accounts account clienttag id).count counter := by
      simp [accountIncLadder, modify, tagged]
    rw [counts, if_pos ⟨rfl, rfl, rfl⟩]
    cases counter <;> simp only [LadderRecord.count] <;> ac_rfl
  · have apart : accountIncLadder counter accounts account clienttag id other tag ladder =
        accounts other tag ladder := by
      unfold accountIncLadder modify
      split
      · rfl
      · exact if_neg fun same => here ⟨same.1.symm, same.2.1.symm, same.2.2.symm⟩
    rw [apart, if_neg here, UInt32.add_zero]

theorem inc_inactive :
    (accountIncLadder counter accounts account clienttag id other tag ladder).activeRating =
      (accounts other tag ladder).activeRating := by
  unfold accountIncLadder modify
  split
  · rfl
  dsimp only
  split
  · cases counter <;> rfl
  · rfl

theorem ratio_isSome (wins games : UInt32) : (ratio wins games).isSome ↔ games ≠ 0 := by
  unfold ratio
  split <;> simp [*]

theorem of_nat_zero (count : Nat) : UInt32.ofNat count = 0 ↔ count % 4294967296 = 0 := by
  rw [← UInt32.toNat_inj, UInt32.toNat_ofNat']
  rfl

end Records

section Steps
variable {initRating : UInt32} {before : List Operation} {world : World}

theorem counted_append (operation : Operation) (account clienttag : UInt32) (id : LadderId) :
    counted (before ++ [operation]) account clienttag id =
      counted before account clienttag id + counted [operation] account clienttag id :=
  countP_append

theorem tallied_fresh : Tallied [] fresh := by
  refine ⟨fun account clienttag id tagged => ?_, fun _ _ _ => rfl⟩
  rw [games_record _ _ _ _ tagged]
  rfl

theorem tallied_same (tallied : Tallied before world) (operation : Operation)
    (uncounted : ∀ account clienttag id, counted [operation] account clienttag id = 0)
    (next : World) (games : ∀ account clienttag id, currentGames next.accounts account clienttag id =
      currentGames world.accounts account clienttag id)
    (inactive : ∀ account clienttag id, (next.accounts account clienttag id).activeRating =
      (world.accounts account clienttag id).activeRating) :
    Tallied (before ++ [operation]) next := by
  refine ⟨fun account clienttag id tagged => ?_, fun account clienttag id => ?_⟩
  · rw [games, tallied.games _ _ _ tagged, counted_append, uncounted, Nat.add_zero]
  · rw [inactive, tallied.inactive]

theorem update_players_spec (clienttag : UInt32) (tagged : clienttag ≠ 0) (id : LadderId)
    (players : List (UInt32 × Int32)) (world : World) :
    ((updatePlayers clienttag tagged id players world).isSome ↔
      ∀ player ∈ players, currentGames world.accounts player.1 clienttag id ≠ 0) ∧
    ∀ next, updatePlayers clienttag tagged id players world = some next →
      ∀ other tag ladder, currentGames next.accounts other tag ladder =
          currentGames world.accounts other tag ladder ∧
        (next.accounts other tag ladder).activeRating =
          (world.accounts other tag ladder).activeRating := by
  induction players generalizing world with
  | nil =>
    refine ⟨by simp [updatePlayers], fun next same other tag ladder => ?_⟩
    rw [← some.inj same]
    exact ⟨rfl, rfl⟩
  | cons player rest ih =>
    obtain ⟨account, adj⟩ := player
    have divided := ratio_isSome (accountGetLadderWins world.accounts account clienttag id)
      (currentGames world.accounts account clienttag id)
    cases calculated : ratio (accountGetLadderWins world.accounts account clienttag id)
        (currentGames world.accounts account clienttag id) with
    | none =>
      have zero : currentGames world.accounts account clienttag id = 0 := by
        simpa [calculated] using divided
      have stuck : updatePlayers clienttag tagged id ((account, adj) :: rest) world = none := by
        simp only [updatePlayers, calculated, bind_eq_bind, bind_none]
      rw [stuck]
      constructor
      · constructor
        · intro ran
          exact absurd ran Bool.false_ne_true
        · intro counts
          exact absurd zero (counts (account, adj) mem_cons_self)
      · intro next ran
        cases ran
    | some value =>
      have games : currentGames world.accounts account clienttag id ≠ 0 := by
        simpa [calculated] using divided
      have adjusted (other tag : UInt32) (ladder : LadderId) :=
        adjust_games world.accounts account clienttag id other tag ladder adj
      simp only [updatePlayers, calculated, bind_eq_bind, bind_some]
      refine ⟨?_, fun next ran other tag ladder => ?_⟩
      · rw [(ih _).1]
        simp only [adjusted, mem_cons, forall_eq_or_imp, games, ne_eq, not_false_eq_true, true_and]
      · have later := (ih _).2 next ran other tag ladder
        exact ⟨later.1.trans (adjusted other tag ladder).1,
          later.2.trans (adjusted other tag ladder).2⟩

theorem get_data_isSome (accounts : Accounts) (key : LadderKey) (account : UInt32)
    (inactive : (accounts account key.clienttag key.ladderId).activeRating = 0) :
    (getData accounts key account).isSome ↔
      (sortsRatings key = true → key.ladderTime = .current →
        accountGetLadderRating accounts account key.clienttag key.ladderId ≠ 0 →
        currentGames accounts account key.clienttag key.ladderId ≠ 0) := by
  by_cases levels : key.clienttag = clienttagWarcraft3 ∨ key.clienttag = clienttagWar3xp
  · have other : sortsRatings key = false := by simpa [sortsRatings] using fun first => by tauto
    simp only [getData, if_pos levels, other, Bool.false_eq_true, false_implies, iff_true]
    split <;> rfl
  by_cases points : (tagCheckWolv1 key.clienttag || tagCheckWolv2 key.clienttag) = true
  · have other : sortsRatings key = false := by
      simp only [Bool.or_eq_true] at points
      rcases points with first | second <;> simp [sortsRatings, *]
    simp only [getData, if_neg levels, if_pos points, other, Bool.false_eq_true, false_implies,
      iff_true]
    split <;> rfl
  have own : sortsRatings key = true := by
    rw [not_or] at levels
    simp [sortsRatings, levels, points]
  by_cases current : key.ladderTime = .current
  · by_cases unrated :
        accountGetLadderRating accounts account key.clienttag key.ladderId = 0
    · simp [getData, levels, points, current, unrated]
    have divided := ratio_isSome
      (accountGetLadderWins accounts account key.clienttag key.ladderId)
      (currentGames accounts account key.clienttag key.ladderId)
    simp only [getData, if_neg levels, if_neg points, own, current, ne_eq, unrated,
      not_false_eq_true, true_implies, ← divided]
    cases calculated : ratio (accountGetLadderWins accounts account key.clienttag key.ladderId)
        (currentGames accounts account key.clienttag key.ladderId) with
    | none => simp [unrated, calculated]
    | some value => cases key.ladderSort <;> simp [unrated, calculated]
  · have unrated : accountGetLadderActiveRating accounts account key.clienttag key.ladderId = 0 := by
      rw [accountGetLadderActiveRating, accountGetLadder, if_neg key.tagged, inactive]
    simp [getData, levels, points, current, unrated]

theorem rebuild_entries_isSome (accounts : Accounts) (pairs : List (UInt32 × LadderKey)) :
    (rebuildEntries accounts pairs).isSome ↔
      ∀ pair ∈ pairs, (getData accounts pair.2 pair.1).isSome := by
  induction pairs with
  | nil => simp [rebuildEntries]
  | cons pair rest ih =>
    rw [forall_mem_cons, ← ih]
    obtain ⟨account, key⟩ := pair
    cases data : getData accounts key account with
    | none => simp [rebuildEntries, data]
    | some found =>
      cases later : rebuildEntries accounts rest with
      | none => simp [rebuildEntries, data, later]
      | some updates => cases found <;> simp [rebuildEntries, data, later]

theorem init_games (account clienttag : UInt32) (id : LadderId) (other tag : UInt32)
    (ladder : LadderId) :
    currentGames (ladderInitAccount initRating world account clienttag id).accounts other tag ladder =
        currentGames world.accounts other tag ladder ∧
      ((ladderInitAccount initRating world account clienttag id).accounts other tag
        ladder).activeRating = (world.accounts other tag ladder).activeRating := by
  unfold ladderInitAccount
  split
  · exact ⟨rfl, rfl⟩
  split
  · split
    · exact ⟨rfl, rfl⟩
    · exact adjust_games _ _ _ _ _ _ _ _
  · exact ⟨rfl, rfl⟩

theorem step_spec (tallied : Tallied before world) (operation : Operation) :
    ((step initRating world operation).isSome ↔ Guarded before world operation) ∧
      ∀ next, step initRating world operation = some next →
        Tallied (before ++ [operation]) next := by
  cases operation with
  | ladderInitAccount account clienttag id =>
    refine ⟨by simp [step, Guarded], fun next ran => ?_⟩
    rw [← some.inj ran]
    exact tallied_same tallied _ (fun _ _ _ => rfl) _
      (fun other tag ladder => (init_games account clienttag id other tag ladder).1)
      (fun other tag ladder => (init_games account clienttag id other tag ladder).2)
  | accountIncLadder counter account clienttag id =>
    refine ⟨by simp [step, Guarded], fun next ran => ?_⟩
    rw [← some.inj ran]
    refine ⟨fun other tag ladder tagged => ?_, fun other tag ladder => ?_⟩
    · rw [inc_games _ _ _ _ _ _ _ _ tagged, tallied.games _ _ _ tagged, counted_append,
        UInt32.ofNat_add]
      congr 1
      by_cases here : account = other ∧ clienttag = tag ∧ id = ladder
      · simp [counted, here]
      · simp [counted, here]
    · rw [inc_inactive, tallied.inactive]
  | ladderUpdate clienttag id players calculated =>
    have uncounted : ∀ other tag ladder, counted
        [.ladderUpdate clienttag id players calculated] other tag ladder = 0 := fun _ _ _ => rfl
    have same : Tallied (before ++ [.ladderUpdate clienttag id players calculated]) world :=
      tallied_same tallied _ uncounted world (fun _ _ _ => rfl) fun _ _ _ => rfl
    simp only [step, ladderUpdate]
    by_cases counts : players.length < 1 ∨ 8 < players.length
    · rw [if_pos counts]
      refine ⟨iff_of_true rfl fun _ least most => by omega, fun next ran => ?_⟩
      exact some.inj ran ▸ same
    rw [if_neg counts]
    by_cases tagged : clienttag = 0
    · rw [dif_pos tagged]
      refine ⟨iff_of_true rfl fun other => absurd tagged other, fun next ran => ?_⟩
      exact some.inj ran ▸ same
    rw [dif_neg tagged]
    cases calculated with
    | false =>
      refine ⟨iff_of_true rfl fun _ _ _ done => (by cases done), fun next ran => ?_⟩
      exact some.inj ran ▸ same
    | true =>
      obtain ⟨divides, keeps⟩ := update_players_spec clienttag tagged id players world
      rw [if_neg (by decide)]
      refine ⟨?_, fun next ran => ?_⟩
      · rw [divides, Guarded]
        simp only [tallied.games _ _ _ tagged, ne_eq, of_nat_zero]
        constructor
        · exact fun games _ _ _ _ => games
        · exact fun games => games tagged (by omega) (by omega) trivial
      · exact tallied_same tallied _ uncounted next
          (fun other tag ladder => (keeps next ran other tag ladder).1)
          (fun other tag ladder => (keeps next ran other tag ladder).2)
  | rebuild listed keys =>
    simp only [step, rebuild]
    have entries := rebuild_entries_isSome world.accounts
      (listed.flatMap fun account => keys.map fun key => (account, key))
    refine ⟨?_, fun next ran => ?_⟩
    · have added : ((rebuildEntries world.accounts (listed.flatMap fun account =>
          keys.map fun key => (account, key))).bind fun added =>
            some { world with updates := world.updates ++ added }).isSome =
          (rebuildEntries world.accounts (listed.flatMap fun account =>
            keys.map fun key => (account, key))).isSome := by
        cases rebuildEntries world.accounts (listed.flatMap fun account =>
          keys.map fun key => (account, key)) <;> rfl
      rw [bind_eq_bind, added, entries, Guarded]
      simp only [List.mem_flatMap, List.mem_map]
      constructor
      · intro data account inside key kept sorts current rated
        have games := (get_data_isSome world.accounts key account (tallied.inactive _ _ _)).mp
          (data (account, key) ⟨account, inside, key, kept, rfl⟩) sorts current rated
        rwa [tallied.games _ _ _ key.tagged, ne_eq, of_nat_zero] at games
      · rintro guarded pair ⟨account, inside, key, kept, rfl⟩
        refine (get_data_isSome world.accounts key account (tallied.inactive _ _ _)).mpr ?_
        intro sorts current rated
        rw [tallied.games _ _ _ key.tagged, ne_eq, of_nat_zero]
        exact guarded account inside key kept sorts current rated
    · obtain ⟨added, _, made⟩ := bind_eq_some_iff.mp ran
      rw [← some.inj made]
      exact tallied_same tallied _ (fun _ _ _ => rfl) _ (fun _ _ _ => rfl) fun _ _ _ => rfl

theorem run_isSome (tallied : Tallied before world) (operations : List Operation) :
    (run initRating operations world).isSome ↔
      EveryStep initRating Guarded before world operations := by
  induction operations generalizing before world with
  | nil => simp [run, EveryStep]
  | cons operation rest ih =>
    obtain ⟨divides, keeps⟩ := step_spec tallied operation
    rw [EveryStep, ← divides]
    cases next : step initRating world operation with
    | none => simp [run, next]
    | some world' =>
      have later := ih (keeps world' next)
      simp [run, next, later]

end Steps

/-- A run never divides by zero exactly when a ratio is only calculated for an account that has had
games counted on the ladder. -/
theorem run_divides_iff (initRating : UInt32) (operations : List Operation) :
    (run initRating operations fresh).isSome ↔ EveryStep initRating Guarded [] fresh operations :=
  run_isSome tallied_fresh operations

-- A rating without a game: `ladder_init_account` is the only call before the ladder is rebuilt, or
-- before it is updated.
theorem initialised_account_divides :
    run 1000 [.ladderInitAccount 7 0x53544152 .normal, .rebuild [7] [starRatings]] fresh = none ∧
      run 1000 [.ladderInitAccount 7 0x53544152 .normal,
        .ladderUpdate 0x53544152 .normal [(7, 25)] true] fresh = none := by
  constructor <;> rfl

end Pvpgn.LadderGames
