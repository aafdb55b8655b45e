import Pvpgn.AnongameMatch
import Mathlib.Algebra.Ring.Int.Defs

/-!
What `_anongame_order_queue` reads and compares. The sums are kept by team and read by slot: behind
the first round they are those of no team, or lie outside their array. `none` is an access outside
`level[]` or behind the players of the queue.
-/

namespace Pvpgn.AnongameOrder
open AnongameMatch List Option

structure Order where
  players : List Conn
  level : List Int
  deriving DecidableEq

section Code
variable (env : Environment) (queue : Nat)

def levelOf (c : Conn) : Int := levelByQueue env c queue

def addRow (teams ppt round : Nat) (players : List Conn) (level : List Int) : Option (List Int) :=
  (range teams).foldlM (fun level j => do
    let c ← players[round * ppt + j]?
    let sum ← level[j]?
    some (level.set j (sum + levelOf env queue c))) level

/-- Comparisons that are joined by `&&`: none is made behind one that fails. -/
def holds (level : List Int) (base : Nat) : List (Nat × Nat) → Option Bool
  | [] => some true
  | (first, second) :: rest => do
    let left ← level[base + first]?
    let right ← level[base + second]?
    if right ≤ left then holds level base rest else some false

/-- The exchange of the first case that holds, and none if no case does. -/
def choose (level : List Int) (base : Nat) : List (List (Nat × Nat) × List Nat) → Option (List Nat)
  | [] => some []
  | (tests, places) :: rest => do
    let fits ← holds level base tests
    if fits then some places else choose level base rest

def exchange (players : List Conn) (base : Nat) (places : List Nat) : Option (List Conn) :=
  if base + places.length ≤ players.length then some (rearrange players base places) else none

def sumRound (teams ppt round : Nat) (order : Order) : Option Order := do
  let level ← addRow env queue teams ppt round order.players order.level
  some { order with level }

def orderRound (teams ppt round : Nat) (order : Order) : Option Order := do
  let summed ← sumRound env queue teams ppt round order
  let places ← choose summed.level (round * teams) (teamOrders teams)
  let players ← exchange summed.players ((round + 1) * teams) places
  some { summed with players }

def rounds (teams ppt : Nat) (players : List Conn) : Nat → Option Order
  | 0 => some ⟨players, replicate anongameMaxTeams 0⟩
  | count + 1 => do
    let order ← rounds teams ppt players count
    orderRound env queue teams ppt count order

def compared (teams ppt : Nat) (players : List Conn) (round : Nat) : Option Order := do
  let order ← rounds env queue teams ppt players round
  sumRound env queue teams ppt round order

def orderQueue (players : List Conn) : Option (List Conn) :=
  let teams := totalteams queue
  if teams ≠ 0 ∧ !arranged env queue then
    let ppt := players.length / teams
    (rounds env queue teams ppt players (ppt - 1)).map Order.players
  else some players

end Code

section Rounds
variable {env : Environment} {queue teams ppt : Nat}

theorem addRow_spec (env : Environment) (queue teams ppt round : Nat) (players : List Conn)
    (level : List Int) (row : round * ppt + teams ≤ players.length) (room : teams ≤ level.length) :
    ∃ sums, addRow env queue teams ppt round players level = some sums ∧
      sums.length = level.length ∧ ∀ j, sums[j]? = if j < teams then
        (level[j]?).map (· + (players[round * ppt + j]?).elim 0 (levelOf env queue))
        else level[j]? := by
  unfold addRow
  induction teams with
  | zero => exact ⟨level, rfl, rfl, fun j => by simp⟩
  | succ count ih =>
    obtain ⟨sums, added, length, entries⟩ := ih (by omega) (by omega)
    obtain ⟨sum, earlier⟩ : ∃ sum, level[count]? = some sum := ⟨_, getElem?_eq_getElem (by omega)⟩
    have here : sums[count]? = some sum := by
      rw [entries, if_neg (Nat.lt_irrefl _), earlier]
    obtain ⟨c, player⟩ : ∃ c, players[round * ppt + count]? = some c :=
      ⟨_, getElem?_eq_getElem (by omega)⟩
    refine ⟨sums.set count (sum + levelOf env queue c), ?_, ?_, ?_⟩
    · rw [range_succ, foldlM_append, added]
      simp [here, player]
    · rw [length_set, length]
    intro j
    rw [getElem?_set]
    by_cases same : count = j
    · subst same
      rw [if_pos rfl, if_pos (by omega), if_pos (by omega), player, earlier]
      rfl
    · rw [if_neg same, entries]
      by_cases before : j < count
      · rw [if_pos before, if_pos (by omega)]
      · rw [if_neg before, if_neg (by omega)]

variable {players : List Conn} {level : List Int}

theorem addRow_length {round : Nat} {sums : List Int}
    (added : addRow env queue teams ppt round players level = some sums) :
    sums.length = level.length := by
  unfold addRow at added
  induction teams generalizing sums with
  | zero =>
    cases added
    rfl
  | succ count ih =>
    rw [range_succ, foldlM_append] at added
    obtain ⟨middle, before, last⟩ := bind_eq_some_iff.mp added
    simp only [foldlM_cons, foldlM_nil, bind_eq_bind, bind_eq_some_iff] at last
    obtain ⟨_, ⟨c, _, sum, _, changed⟩, kept⟩ := last
    cases changed
    cases kept
    rw [length_set, ih before]

theorem orders_inside (few : 2 ≤ teams ∧ teams ≤ 4) (order : List (Nat × Nat) × List Nat)
    (known : order ∈ teamOrders teams) :
    order.2.length = teams ∧ ∀ test ∈ order.1, test.1 < teams ∧ test.2 < teams := by
  obtain rfl | rfl | rfl : teams = 2 ∨ teams = 3 ∨ teams = 4 := by omega
  · revert order
    decide
  · revert order
    decide
  · revert order
    decide

theorem holds_inside {base : Nat} (tests : List (Nat × Nat))
    (inside : ∀ test ∈ tests, base + test.1 < level.length ∧ base + test.2 < level.length) :
    ∃ fits, holds level base tests = some fits := by
  induction tests with
  | nil => exact ⟨true, rfl⟩
  | cons test rest ih =>
    obtain ⟨first, second⟩ := inside test mem_cons_self
    obtain ⟨fits, evaluated⟩ := ih fun other member =>
      inside other (mem_cons_of_mem _ member)
    rw [holds, getElem?_eq_getElem first, getElem?_eq_getElem second]
    by_cases ordered : level[base + test.2] ≤ level[base + test.1]
    · exact ⟨fits, by simpa [ordered] using evaluated⟩
    · exact ⟨false, by simp [ordered]⟩

theorem choose_inside (level : List Int) (base : Nat) (orders : List (List (Nat × Nat) × List Nat))
    (inside : ∀ order ∈ orders, ∀ test ∈ order.1,
      base + test.1 < level.length ∧ base + test.2 < level.length) :
    ∃ places, choose level base orders = some places ∧
      (places = [] ∨ ∃ tests, (tests, places) ∈ orders) := by
  induction orders with
  | nil => exact ⟨[], rfl, .inl rfl⟩
  | cons order rest ih =>
    obtain ⟨fits, evaluated⟩ := holds_inside order.1 (inside order mem_cons_self)
    obtain ⟨places, chosen, known⟩ := ih fun other member =>
      inside other (mem_cons_of_mem _ member)
    cases fits with
    | true =>
      exact ⟨order.2, by simp [choose, evaluated], .inr ⟨order.1, mem_cons_self⟩⟩
    | false =>
      refine ⟨places, by simpa [choose, evaluated] using chosen, known.imp_right ?_⟩
      rintro ⟨tests, member⟩
      exact ⟨tests, mem_cons_of_mem _ member⟩

theorem choose_outside {base : Nat} (few : 2 ≤ teams ∧ teams ≤ 4)
    (outside : level.length ≤ base + 1) : choose level base (teamOrders teams) = none := by
  have second : level[base + 1]? = none := getElem?_eq_none outside
  obtain rfl | rfl | rfl : teams = 2 ∨ teams = 3 ∨ teams = 4 := by omega
  all_goals
    rw [teamOrders, choose, holds, second]
    cases level[base + 0]? <;> rfl

theorem exchange_spec (players : List Conn) (base : Nat) {places : List Nat}
    (room : base + places.length ≤ players.length)
    (known : places = [] ∨ ∃ tests, (tests, places) ∈ teamOrders teams) :
    ∃ exchanged, exchange players base places = some exchanged ∧ exchanged.Perm players := by
  refine ⟨rearrange players base places, if_pos room, rearrange_perm players base places ?_⟩
  rcases known with rfl | ⟨tests, known⟩
  · exact Perm.refl _
  · exact teamOrders_perm teams _ known

theorem orderRound_length {round : Nat} {before after : Order}
    (turn : orderRound env queue teams ppt round before = some after) :
    after.level.length = before.level.length := by
  simp only [orderRound, sumRound, bind_eq_bind, bind_eq_some_iff] at turn
  obtain ⟨_, ⟨sums, added, summed⟩, places, _, players, _, ended⟩ := turn
  cases summed
  cases ended
  exact addRow_length added

theorem rounds_length {count : Nat} {order : Order}
    (run : rounds env queue teams ppt players count = some order) :
    order.level.length = anongameMaxTeams := by
  induction count generalizing order with
  | zero =>
    cases run
    rfl
  | succ count ih =>
    obtain ⟨before, earlier, turn⟩ := bind_eq_some_iff.mp run
    rw [orderRound_length turn, ih earlier]

theorem rounds_none {count : Nat} (outside : rounds env queue teams ppt players count = none)
    (more : Nat) : rounds env queue teams ppt players (count + more) = none := by
  induction more with
  | zero => exact outside
  | succ more ih =>
    change (rounds env queue teams ppt players (count + more)).bind _ = none
    rw [ih]
    rfl

theorem rounds_outside (count : Nat) (few : 2 ≤ teams ∧ teams ≤ 4)
    (far : anongameMaxTeams ≤ count * teams + 1) (later : Nat) (reached : count < later) :
    rounds env queue teams ppt players later = none := by
  obtain ⟨more, rfl⟩ := Nat.exists_eq_add_of_lt reached
  rw [Nat.add_right_comm]
  apply rounds_none
  rw [rounds]
  cases run : rounds env queue teams ppt players count with
  | none => rfl
  | some order =>
    change orderRound env queue teams ppt count order = none
    rw [orderRound, sumRound]
    cases added : addRow env queue teams ppt count order.players order.level with
    | none => rfl
    | some sums =>
      have length : sums.length = anongameMaxTeams := by
        rw [addRow_length added, rounds_length run]
      change (choose sums (count * teams) (teamOrders teams)).bind _ = none
      rw [choose_outside few (by omega)]
      rfl

theorem orderRound_inside (env : Environment) (queue teams ppt round : Nat) (before : Order)
    (few : 2 ≤ teams ∧ teams ≤ 4) (slots : round * teams + teams ≤ before.level.length)
    (row : round * ppt + teams ≤ before.players.length)
    (next : (round + 1) * teams + teams ≤ before.players.length) :
    ∃ after, orderRound env queue teams ppt round before = some after ∧
      after.players.Perm before.players := by
  obtain ⟨sums, added, length, -⟩ := addRow_spec env queue teams ppt round
    before.players before.level row (by omega)
  obtain ⟨places, chosen, known⟩ := choose_inside sums (round * teams) (teamOrders teams) (by
      intro order member test listed
      obtain ⟨first, second⟩ := (orders_inside few order member).2 test listed
      omega)
  have count : places.length ≤ teams := by
    rcases known with rfl | ⟨tests, known⟩
    · exact Nat.zero_le _
    · exact (orders_inside few _ known).1.le
  obtain ⟨players, exchanged, perm⟩ := exchange_spec before.players
    ((round + 1) * teams) (by omega) known
  exact ⟨⟨players, sums⟩, by simp [orderRound, sumRound, added, chosen, exchanged], perm⟩

end Rounds

/-! What the comparisons are meant to compare. -/

section Meaning
variable (env : Environment) (queue : Nat)

/-- The levels of the players of a team that are in its first rows: slot `k` belongs to the team `k`
modulo the number of teams. -/
def teamSum (teams rows team : Nat) (players : List Conn) : Int :=
  ((range rows).map fun row =>
    (players[row * teams + team]?).elim 0 (levelOf env queue)).sum

/-- No access is outside, the players are exchanged among each other, and every round compares the
sums of the players that the teams have so far. -/
structure Balanced (players : List Conn) : Prop where
  inside : ∃ ordered, orderQueue env queue players = some ordered ∧ ordered.Perm players
  sums : ∀ round < players.length / totalteams queue - 1, ∀ order,
    compared env queue (totalteams queue) (players.length / totalteams queue) players round =
      some order → ∀ team < totalteams queue, order.level[round * totalteams queue + team]? =
        some (teamSum env queue (totalteams queue) (round + 1) team order.players)

/-- The first two players of both teams have the level 0 together. -/
def SecondRowNought (players : List Conn) : Prop :=
  let level (place : Nat) := (players[place]?).elim 0 (levelOf env queue)
  if level 1 ≤ level 0 then level 0 + level 3 = 0 ∧ level 1 + level 2 = 0
  else level 0 + level 2 = 0 ∧ level 1 + level 3 = 0

def FewRounds (players : List Conn) : Prop :=
  players.length / totalteams queue ≤ 2 ∨
    totalteams queue = 2 ∧ players.length / 2 = 3 ∧ SecondRowNought env queue players

end Meaning

variable {players : List Conn}

section Balance
variable {env : Environment} {queue teams ppt : Nat}

theorem first_compared {order : Order} (few : teams ≤ 4) (room : teams ≤ players.length)
    (sums : compared env queue teams ppt players 0 = some order) (team : Nat)
    (known : team < teams) :
    order.level[0 * teams + team]? = some (teamSum env queue teams 1 team order.players) := by
  have row : 0 * ppt + teams ≤ players.length := by omega
  obtain ⟨level, added, -, entries⟩ := addRow_spec env queue teams ppt 0 players
    (replicate anongameMaxTeams 0) row (by simpa [anongameMaxTeams] using few)
  have reached : compared env queue teams ppt players 0 = some ⟨players, level⟩ := by
    simp [compared, rounds, sumRound, added]
  rw [reached] at sums
  cases sums
  have entry : (replicate anongameMaxTeams (0 : Int))[team]? = some 0 := by
    rw [getElem?_replicate, if_pos (by unfold anongameMaxTeams; omega)]
  simp [entries, known, entry, teamSum]

theorem two_teams_first (a b c d : Conn) (rest : List Conn) :
    rounds env queue 2 ppt (a :: b :: c :: d :: rest) 1 =
      some ⟨if levelOf env queue b ≤ levelOf env queue a then a :: b :: d :: c :: rest
        else a :: b :: c :: d :: rest, [levelOf env queue a, levelOf env queue b, 0, 0]⟩ := by
  have added : addRow env queue 2 ppt 0 (a :: b :: c :: d :: rest) [0, 0, 0, 0] =
      some [levelOf env queue a, levelOf env queue b, 0, 0] := by
    simp [addRow, range_succ]
  have chosen : choose [levelOf env queue a, levelOf env queue b, 0, 0] 0 (teamOrders 2) =
      some (if levelOf env queue b ≤ levelOf env queue a then [1, 0] else []) := by
    change choose _ 0 [([(0, 1)], [1, 0])] = _
    by_cases ordered : levelOf env queue b ≤ levelOf env queue a
    · simp [choose, holds, ordered]
    · simp [choose, holds, ordered]
  have start : rounds env queue 2 ppt (a :: b :: c :: d :: rest) 0 =
      some ⟨a :: b :: c :: d :: rest, [0, 0, 0, 0]⟩ := rfl
  rw [rounds, start]
  simp only [bind_eq_bind, bind_some, orderRound, sumRound, added, Nat.zero_mul, chosen]
  by_cases ordered : levelOf env queue b ≤ levelOf env queue a
  · simp [ordered, exchange, rearrange]
  · simp [ordered, exchange, rearrange]

/-- The second round of two teams compares the entries of `level` that no player is added to. -/
theorem two_teams_second (env : Environment) (queue ppt : Nat) (a b c d : Conn) (rest : List Conn)
    (row : ppt + 2 ≤ rest.length + 4) :
    ∃ order, compared env queue 2 ppt (a :: b :: c :: d :: rest) 1 = some order ∧
      order.players = (if levelOf env queue b ≤ levelOf env queue a then a :: b :: d :: c :: rest
        else a :: b :: c :: d :: rest) ∧ order.level[2]? = some 0 ∧ order.level[3]? = some 0 := by
  have length : (if levelOf env queue b ≤ levelOf env queue a then a :: b :: d :: c :: rest
      else a :: b :: c :: d :: rest).length = rest.length + 4 := by
    split <;> rfl
  obtain ⟨level, added, -, entries⟩ := addRow_spec env queue 2 ppt 1
    (if levelOf env queue b ≤ levelOf env queue a then a :: b :: d :: c :: rest
      else a :: b :: c :: d :: rest)
    [levelOf env queue a, levelOf env queue b, 0, 0] (by rw [length]; omega) (Nat.le_add_left 2 2)
  refine ⟨⟨if levelOf env queue b ≤ levelOf env queue a then a :: b :: d :: c :: rest
    else a :: b :: c :: d :: rest, level⟩, ?_, rfl, ?_, ?_⟩
  · rw [compared, two_teams_first]
    simp only [bind_eq_bind, bind_some, sumRound, added]
  · rw [entries]
    rfl
  · rw [entries]
    rfl

theorem two_sums (a b c d : Conn) (rest : List Conn) :
    teamSum env queue 2 2 0 (a :: b :: c :: d :: rest) = levelOf env queue a + levelOf env queue c ∧
      teamSum env queue 2 2 1 (a :: b :: c :: d :: rest) =
        levelOf env queue b + levelOf env queue d := by
  constructor
  · simp [teamSum, range_succ]
  · simp [teamSum, range_succ]

theorem first_four (long : 4 ≤ players.length) :
    ∃ a b c d rest, players = a :: b :: c :: d :: rest := by
  rcases players with _ | ⟨a, _ | ⟨b, _ | ⟨c, _ | ⟨d, rest⟩⟩⟩⟩
  case cons.cons.cons.cons => exact ⟨a, b, c, d, rest, rfl⟩
  all_goals simp at long

theorem second_sums_iff (long : 4 ≤ players.length) (row : ppt + 2 ≤ players.length) :
    (∀ order, compared env queue 2 ppt players 1 = some order → ∀ team < 2,
      order.level[1 * 2 + team]? = some (teamSum env queue 2 2 team order.players)) ↔
      SecondRowNought env queue players := by
  obtain ⟨a, b, c, d, rest, rfl⟩ := first_four long
  obtain ⟨order, reached, after, third, fourth⟩ := two_teams_second env queue ppt a b c d
    rest row
  have both : (∀ order, compared env queue 2 ppt (a :: b :: c :: d :: rest) 1 = some order →
      ∀ team < 2, order.level[1 * 2 + team]? = some (teamSum env queue 2 2 team order.players)) ↔
      teamSum env queue 2 2 0 order.players = 0 ∧ teamSum env queue 2 2 1 order.players = 0 := by
    constructor
    · intro equal
      have first := equal order reached 0 Nat.zero_lt_two
      have second := equal order reached 1 Nat.one_lt_two
      rw [third] at first
      rw [fourth] at second
      exact ⟨(Option.some.inj first).symm, (Option.some.inj second).symm⟩
    · rintro ⟨first, second⟩ other same team known
      rw [reached] at same
      cases same
      obtain rfl | rfl : team = 0 ∨ team = 1 := by omega
      · rw [first, third]
      · rw [second, fourth]
  rw [both, after]
  by_cases ordered : levelOf env queue b ≤ levelOf env queue a
  · rw [if_pos ordered, (two_sums a b d c rest).1, (two_sums a b d c rest).2]
    simp [SecondRowNought, ordered]
  · rw [if_neg ordered, (two_sums a b c d rest).1, (two_sums a b c d rest).2]
    simp [SecondRowNought, ordered]

theorem totalteams_few (many : totalteams queue ≠ 0) :
    2 ≤ totalteams queue ∧ totalteams queue ≤ 4 := by
  revert many
  unfold totalteams
  repeat' split
  all_goals simp

theorem orderQueue_rounds (many : totalteams queue ≠ 0) (single : arranged env queue = false)
    (players : List Conn) : orderQueue env queue players =
      (rounds env queue (totalteams queue) (players.length / totalteams queue) players
        (players.length / totalteams queue - 1)).map Order.players := by
  exact if_pos ⟨many, by simp [single]⟩

theorem first_round (env : Environment) (queue teams ppt : Nat) (players : List Conn)
    (few : 2 ≤ teams ∧ teams ≤ 4) (room : 2 * teams ≤ players.length) :
    ∃ order, rounds env queue teams ppt players 1 = some order ∧ order.players.Perm players :=
  orderRound_inside env queue teams ppt 0 ⟨players, replicate anongameMaxTeams 0⟩ few
    (by simpa [anongameMaxTeams] using few.2) (by dsimp only; omega)
    (by dsimp only; omega)

theorem second_round (env : Environment) (queue : Nat) (players : List Conn)
    (room : 6 ≤ players.length) :
    ∃ order, rounds env queue 2 3 players 2 = some order ∧ order.players.Perm players := by
  obtain ⟨before, earlier, perm⟩ := first_round env queue 2 3 players (by decide)
    (by omega)
  have length := perm.length_eq
  have sums : before.level.length = 4 := rounds_length earlier
  obtain ⟨after, turn, exchanged⟩ := orderRound_inside env queue 2 3 1 before (by decide)
    (by omega) (by omega) (by omega)
  refine ⟨after, ?_, exchanged.trans perm⟩
  rw [rounds, earlier]
  exact turn

/-- The order is right exactly in the queues whose teams have two players, and besides in those of
two teams of three when nobody in the first two rows has a level. -/
theorem balanced_iff (env : Environment) (queue : Nat) (many : totalteams queue ≠ 0)
    (single : arranged env queue = false) (players : List Conn) :
    Balanced env queue players ↔ FewRounds env queue players := by
  obtain ⟨two, four⟩ := totalteams_few many
  have whole := Nat.div_mul_le_self players.length (totalteams queue)
  have run := orderQueue_rounds many single players
  constructor
  · rintro ⟨⟨ordered, ended, -⟩, sums⟩
    by_contra more
    rw [FewRounds, not_or, not_le] at more
    rw [run, map_eq_some_iff] at ended
    obtain ⟨order, reached, -⟩ := ended
    -- The slots of the second round, or of the third of two teams, lie behind `level`.
    by_cases pair : totalteams queue = 2
    · rw [pair] at more whole sums reached
      by_cases third : players.length / 2 = 3
      · rw [third] at sums
        exact more.2 ⟨rfl, third, (second_sums_iff (by omega) (by omega)).mp
          (sums 1 Nat.one_lt_two)⟩
      · rw [rounds_outside 2 ⟨Nat.le_refl 2, by omega⟩ (by decide) _ (by omega)] at reached
        cases reached
    · rw [rounds_outside 1 ⟨two, four⟩ (by unfold anongameMaxTeams; omega) _
        (by omega)] at reached
      cases reached
  · intro few
    have start (ppt : Nat) (room : totalteams queue ≤ players.length) (order : Order)
        (reached : compared env queue (totalteams queue) ppt players 0 = some order) :=
      first_compared four room reached
    rcases few with short | ⟨pair, third, nought⟩
    · obtain none | one : players.length / totalteams queue - 1 = 0 ∨
          players.length / totalteams queue = 2 := by omega
      · rw [none] at run
        refine ⟨⟨players, by rw [run]; rfl, Perm.refl _⟩, fun round early => ?_⟩
        omega
      rw [one] at run whole
      obtain ⟨order, reached, perm⟩ := first_round env queue (totalteams queue) 2 players
        ⟨two, four⟩ whole
      refine ⟨⟨order.players, by rw [run, reached]; rfl, perm⟩, fun round early => ?_⟩
      obtain rfl : round = 0 := by omega
      exact start _ (by omega)
    · rw [pair] at run start whole
      rw [third] at run
      obtain ⟨order, reached, perm⟩ := second_round env queue players (by omega)
      refine ⟨⟨order.players, by rw [run, reached]; rfl, perm⟩, ?_⟩
      rw [pair, third]
      intro round early
      obtain rfl | rfl : round = 0 ∨ round = 1 := by omega
      · exact start _ (by omega)
      · exact (second_sums_iff (by omega) (by omega)).mpr nought

def numbered : Environment := ⟨fun c _ => c, fun _ => none, 0, false, 0, fun _ => 0, fun _ => 0⟩

theorem balanced_pairs : Balanced numbered type2v2 [4, 3, 2, 1] :=
  (balanced_iff numbered type2v2 (by decide) rfl _).mpr (.inl (by decide))

/-- Three players on each of three teams: the sums are read behind their array. -/
theorem three_teams_outside :
    ¬ Balanced numbered type3v3v3 [9, 8, 7, 6, 5, 4, 3, 2, 1] := by
  rintro ⟨⟨ordered, ended, -⟩, -⟩
  cases ended

end Balance

end Pvpgn.AnongameOrder
