import Pvpgn.GameReports

/-!
How `game_report` decides the results of a game from the stored reports, and how it moves the slots
that have a result to the front of the arrays.
-/

namespace Pvpgn.ReportOutcome
open Stdio CheckedArray GameSlots GameReports List Option Nat

/-- `i` and `realcount` are the loop's source and target. -/
def compactSlots : Nat → Nat → Nat → Game → Option (Nat × Game)
  | 0, _, realcount, game => some (realcount, game)
  | left + 1, i, realcount, game => do
    let player ← readSlot game.players i
    if player.isNone then compactSlots left (i + 1) realcount game
    else do
      let result ← readSlot game.results i
      if result = GameResult.none then compactSlots left (i + 1) realcount game
      else do
        let players ← setSlot game.players realcount player
        let results ← setSlot game.results realcount result
        let head ← readSlot game.reportHeads i
        let heads ← setSlot game.reportHeads realcount head
        let body ← readSlot game.reportBodies i
        let bodies ← setSlot game.reportBodies realcount body
        compactSlots left (i + 1) (realcount + 1) { game with
          players := some players
          results := some results
          reportHeads := some heads
          reportBodies := some bodies }

/-- "then nuke duplicate players after the real players" -/
def nukeSlots : Nat → Nat → Game → Option Game
  | 0, _, game => some game
  | left + 1, i, game => do
    let players ← setSlot game.players i none
    let results ← setSlot game.results i GameResult.none
    let heads ← setSlot game.reportHeads i none
    let bodies ← setSlot game.reportBodies i none
    nukeSlots left (i + 1) { game with
      players := some players
      results := some results
      reportHeads := some heads
      reportBodies := some bodies }

/-- The two loops of `game_report` behind `game_evaluate_results`: how many real players there are,
and the game with them in front. -/
def compactGame (game : Game) : Option (Nat × Game) := do
  let (realcount, game) ← compactSlots game.count 0 0 game
  let game ← nukeSlots (game.count - realcount) realcount game
  some (realcount, game)

/-! What is claimed of the two. -/

def about (i : Nat) (report : Option (List GameResult)) : Option GameResult :=
  report.bind fun results => results[i]?

def opinions (reports : List (Option (List GameResult))) (i : Nat) : List GameResult :=
  (reports.filterMap (about i)).filter counted

/-- More than half of the opinions are this one. -/
def Majority (votes : List GameResult) (result : GameResult) : Prop :=
  votes.length < 2 * votes.count result

def verdict (discisloss : Bool) (result : GameResult) : GameResult :=
  if discisloss ∧ result = .disconnect then .loss else result

/-- The results that the opinions call for. -/
structure Decided (discisloss : Bool) (reports : List (Option (List GameResult))) (count : Nat)
    (results : List GameResult) : Prop where
  length : results.length = count
  majority : ∀ i, i < count → ∀ result, Majority (opinions reports i) result →
    results[i]? = some (verdict discisloss result)
  silence : ∀ i, i < count → (results[i]? = some .none ↔ opinions reports i = [])

structure Row where
  player : Option Nat
  result : GameResult
  head : Option Text
  body : Option Text

def blank : Row := ⟨none, .none, none, none⟩

def rowAt (game : Game) (i : Nat) : Row where
  player := (readSlot game.players i).getD none
  result := (readSlot game.results i).getD .none
  head := (readSlot game.reportHeads i).getD none
  body := (readSlot game.reportBodies i).getD none

def rows (game : Game) : List Row := (range game.count).map (rowAt game)

def Row.kept (row : Row) : Bool := row.result ≠ .none

/-- The slots with a result in front, in their order, and nothing behind them. -/
structure Compacted (before after : Game) (realcount : Nat) : Prop where
  count : after.count = before.count
  size : realcount = ((rows before).filter Row.kept).length
  order : rows after = (rows before).filter Row.kept ++ replicate (before.count - realcount) blank

/-- A game as joins leave it: every array has an entry for every slot, and every slot has the
account of its last player. -/
structure Whole (game : Game) : Prop where
  players : Filled game.players game.count
  results : Filled game.results game.count
  reportedResults : Filled game.reportedResults game.count
  reportHeads : Filled game.reportHeads game.count
  reportBodies : Filled game.reportBodies game.count
  seated : ∀ player ∈ game.accounts, player.isSome = true

/-! Counting. -/

section Votes
variable {reports : List (Option (List GameResult))} {count i : Nat}

theorem count_votes_drop (inside : i < count)
    (complete : ∀ results, some results ∈ reports → results.length = count) (left j : Nat)
    (tally : Tally) (all : j + left = reports.length) :
    countVotes reports i left j tally =
      some (((reports.drop j).filterMap (about i)).foldl countVote tally) := by
  induction left generalizing j tally with
  | zero =>
    rw [drop_eq_nil_of_le (by omega)]
    rfl
  | succ left ih =>
    have here : j < reports.length := by omega
    rw [countVotes, read_inside _ _ here, bind_eq_bind, bind_some, drop_eq_getElem_cons here]
    cases entry : reports[j] with
    | none =>
      exact ih (j + 1) tally (by omega)
    | some results =>
      have length := complete results (entry ▸ getElem_mem here)
      have read : readAt results i = some results[i] := read_inside _ _ (by omega)
      have value : about i (some results) = some results[i] := read
      rw [filterMap_cons_some value, foldl_cons]
      simp only [read]
      exact ih (j + 1) _ (by omega)

structure Counts (votes : List GameResult) (start tally : Tally) : Prop where
  wins : tally.wins = start.wins + votes.count .win
  losses : tally.losses = start.losses + votes.count .loss
  draws : tally.draws = start.draws + votes.count .draw
  disconnects : tally.disconnects = start.disconnects + votes.count .disconnect
  reports : tally.reports = start.reports + votes.length

theorem Counts.append {left right : List GameResult} {first second third : Tally}
    (before : Counts left first second) (after : Counts right second third) :
    Counts (left ++ right) first third where
  wins := by rw [after.wins, before.wins, count_append, add_assoc]
  losses := by rw [after.losses, before.losses, count_append, add_assoc]
  draws := by rw [after.draws, before.draws, count_append, add_assoc]
  disconnects := by rw [after.disconnects, before.disconnects, count_append, add_assoc]
  reports := by rw [after.reports, before.reports, length_append, add_assoc]

theorem vote_counts (vote : GameResult) (start : Tally) :
    Counts ([vote].filter counted) start (countVote start vote) := by
  cases vote <;> exact ⟨rfl, rfl, rfl, rfl, rfl⟩

theorem tally_counts (cast : List GameResult) (start : Tally) :
    Counts (cast.filter counted) start (cast.foldl countVote start) := by
  induction cast generalizing start with
  | nil => exact ⟨rfl, rfl, rfl, rfl, rfl⟩
  | cons vote rest ih =>
    have split : (vote :: rest).filter counted = [vote].filter counted ++ rest.filter counted :=
      filter_append [vote] rest
    rw [split]
    exact (vote_counts vote start).append (ih (countVote start vote))

theorem votes_total (votes : List GameResult) (valid : ∀ vote ∈ votes, counted vote = true) :
    votes.length =
      votes.count .win + votes.count .loss + votes.count .draw + votes.count .disconnect := by
  induction votes with
  | nil => rfl
  | cons vote rest ih =>
    have later := ih fun other member => valid other (mem_cons_of_mem _ member)
    have here := valid vote mem_cons_self
    cases vote <;> simp [counted] at here <;>
      simp only [length_cons, count_cons_self, ne_eq, reduceCtorEq, not_false_eq_true,
        count_cons_of_ne] <;> omega

variable (discisloss : Bool)

variable {tally : Tally} {votes : List GameResult}

theorem decide_majority (counts : Counts votes ⟨0, 0, 0, 0, 0⟩ tally)
    (valid : ∀ vote ∈ votes, counted vote = true) (current result : GameResult)
    (majority : Majority votes result) :
    decideResult discisloss tally current = verdict discisloss result := by
  have total := votes_total votes valid
  obtain ⟨wins, losses, draws, disconnects, reports⟩ := counts
  simp only [zero_add] at wins losses draws disconnects reports
  have some_vote : 0 < votes.count result := by
    unfold Majority at majority
    omega
  have kind := valid result (count_pos_iff.mp some_vote)
  have most : votes.count result ≤ votes.length := count_le_length
  unfold Majority at majority
  unfold decideResult verdict
  rw [if_neg (by omega)]
  cases result with
  | win => rw [if_neg (by omega), if_neg (by omega), if_neg (by omega), if_pos (by omega)]; simp
  | loss => rw [if_neg (by omega), if_pos (by omega)]; simp
  | draw => rw [if_neg (by omega), if_neg (by omega), if_pos (by omega)]; simp
  | disconnect => rw [if_pos (by omega)]; simp
  | none | observer | playing | unknown => cases kind

theorem decide_none (counts : Counts votes ⟨0, 0, 0, 0, 0⟩ tally) (current : GameResult) :
    decideResult discisloss tally current = .none ↔ votes = [] := by
  have total := counts.reports
  rw [zero_add] at total
  rw [← length_eq_zero_iff, ← total]
  unfold decideResult
  constructor
  · intro outcome
    by_contra voted
    have won : ¬ tally.draws ≥ tally.wins → tally.wins ≠ 0 := by omega
    split_ifs at outcome
    exact ‹¬ tally.wins ≠ 0› (won ‹¬ tally.draws ≥ tally.wins›)
  · exact fun silent => if_pos silent

theorem evaluate_slots_eq (length : reports.length = count)
    (complete : ∀ results, some results ∈ reports → results.length = count) (left i : Nat)
    (results : List GameResult) (all : i + left = count) (size : results.length = count) :
    ∃ after, evaluateSlots discisloss reports count left i results = some after ∧
      after.length = count ∧ (∀ k, k < i → after[k]? = results[k]?) ∧
      ∀ k, i ≤ k → k < count → ∃ tally current, Counts (opinions reports k) ⟨0, 0, 0, 0, 0⟩ tally ∧
        after[k]? = some (decideResult discisloss tally current) := by
  induction left generalizing i results with
  | zero =>
    refine ⟨results, rfl, size, fun _ _ => rfl, fun k after before => ?_⟩
    omega
  | succ left ih =>
    have inside : i < count := by omega
    have votes := count_votes_drop inside complete count 0 ⟨0, 0, 0, 0, 0⟩ (by omega)
    rw [drop_zero] at votes
    have read : readAt results i = some results[i] := read_inside _ _ (by omega)
    let tally := (reports.filterMap (about i)).foldl countVote ⟨0, 0, 0, 0, 0⟩
    let decided := decideResult discisloss tally results[i]
    have write : writeAt results i decided = some (results.set i decided) :=
      write_inside _ _ _ (by omega)
    obtain ⟨after, runs, length, before, later⟩ := ih (i + 1) (results.set i decided) (by omega)
      (by rw [length_set, size])
    refine ⟨after, ?_, length, fun k ahead => ?_, fun k behind within => ?_⟩
    · rw [evaluateSlots]
      simp only [votes, read, write, bind_eq_bind, bind_some, tally, decided]
      exact runs
    · rw [before k (by omega), getElem?_set_ne (by omega)]
    · rcases eq_or_lt_of_le behind with rfl | beyond
      · refine ⟨tally, results[i], tally_counts _ _, ?_⟩
        rw [before i (by omega), getElem?_set_self (by omega)]
      · exact later k beyond within

theorem opinions_valid (reports : List (Option (List GameResult))) (i : Nat) :
    ∀ vote ∈ opinions reports i, counted vote = true :=
  fun _ member => (mem_filter.mp member).2

theorem evaluate_decides (game : Game) (whole : Whole game)
    (complete : ∀ results, some results ∈ game.reportedResults.getD [] →
      results.length = game.count) :
    ∃ results, gameEvaluateResults discisloss game =
        some (0, { game with results := some results }) ∧
      Decided discisloss (game.reportedResults.getD []) game.count results := by
  obtain ⟨cells, cellsIs, size⟩ := whole.results
  obtain ⟨reports, reportsIs, length⟩ := whole.reportedResults
  rw [reportsIs, getD_some] at complete ⊢
  obtain ⟨after, runs, afterLength, -, entries⟩ :=
    evaluate_slots_eq discisloss length complete game.count 0 cells (by omega) size
  refine ⟨after, ?_, afterLength, fun i inside result majority => ?_, fun i inside => ?_⟩
  · rw [gameEvaluateResults, cellsIs, reportsIs]
    simp only [runs, bind_eq_bind, bind_some]
  · obtain ⟨tally, current, counts, entry⟩ := entries i (zero_le i) inside
    rw [entry, decide_majority discisloss counts (opinions_valid reports i) current result majority]
  · obtain ⟨tally, current, counts, entry⟩ := entries i (zero_le i) inside
    rw [entry, Option.some.injEq]
    exact decide_none discisloss counts current

end Votes

/-! Moving the slots. -/

structure Holds (game : Game) (cells : List Row) : Prop where
  players : game.players = some (cells.map Row.player)
  results : game.results = some (cells.map Row.result)
  heads : game.reportHeads = some (cells.map Row.head)
  bodies : game.reportBodies = some (cells.map Row.body)

section Slots
variable {Cell : Type} {game : Game} {cells : List Row}

variable {array : Option (List Cell)} {field : Row → Cell}

section
variable (arrayIs : array = some (cells.map field)) {i : Nat} (inside : i < cells.length)
include arrayIs inside

theorem read_row :
    readSlot array i = some (field cells[i]) := by
  rw [arrayIs, readSlot, bind_some, read_inside _ _ (by rw [length_map]; exact inside), getElem_map]

theorem set_row (row : Row) : setSlot array i (field row) = some ((cells.set i row).map field) := by
  rw [arrayIs, setSlot, bind_some, write_inside _ _ _ (by rw [length_map]; exact inside), map_set]

end

theorem rows_eq (holds : Holds game cells) (size : cells.length = game.count) :
    rows game = cells := by
  refine ext_getElem (by simp [rows, size]) fun i _ inside => ?_
  simp only [rows, getElem_map, getElem_range, rowAt]
  rw [read_row holds.players inside, read_row holds.results inside, read_row holds.heads inside,
    read_row holds.bodies inside]
  rfl

theorem filled_rows {count : Nat} {value : Cell} (filled : Filled array count) (row : Nat → Row)
    (reads : ∀ i, field (row i) = (readSlot array i).getD value) :
    array = some (((range count).map row).map field) := by
  obtain ⟨entries, arrayIs, size⟩ := filled
  rw [arrayIs, Option.some.injEq]
  refine ext_getElem (by simp [size]) fun i inside _ => ?_
  simp only [getElem_map, getElem_range, reads]
  rw [arrayIs, readSlot, bind_some, read_inside _ _ inside, getD_some]

theorem whole_holds (whole : Whole game) : Holds game (rows game) where
  players := filled_rows whole.players (rowAt game) fun _ => rfl
  results := filled_rows whole.results (rowAt game) fun _ => rfl
  heads := filled_rows whole.reportHeads (rowAt game) fun _ => rfl
  bodies := filled_rows whole.reportBodies (rowAt game) fun _ => rfl

theorem compact_slots_rows (left i realcount : Nat) (game : Game) (cells : List Row)
    (holds : Holds game cells) (all : i + left = cells.length) (behind : realcount ≤ i)
    (seated : ∀ row ∈ cells.drop i, row.player.isSome = true) :
    ∃ after final,
      compactSlots left i realcount game =
        some (realcount + ((cells.drop i).filter Row.kept).length, final) ∧
      Holds final after ∧ final.count = game.count ∧ after.length = cells.length ∧
      after.take (realcount + ((cells.drop i).filter Row.kept).length) =
        cells.take realcount ++ (cells.drop i).filter Row.kept := by
  induction left generalizing i realcount game cells with
  | zero =>
    rw [drop_eq_nil_of_le (by omega)]
    exact ⟨cells, game, rfl, holds, rfl, rfl, by simp⟩
  | succ left ih =>
    have inside : i < cells.length := by omega
    rw [drop_eq_getElem_cons inside] at seated ⊢
    have player : cells[i].player.isNone = false := by
      rw [isNone_eq_false_iff]
      exact seated _ mem_cons_self
    have rest : ∀ row ∈ cells.drop (i + 1), row.player.isSome = true := fun row member =>
      seated row (mem_cons_of_mem _ member)
    rw [compactSlots, read_row holds.players inside]
    simp only [bind_eq_bind, bind_some, player, Bool.false_eq_true, if_false,
      read_row holds.results inside]
    by_cases empty : cells[i].result = .none
    · have dropped : cells[i].kept = false := by simp [Row.kept, empty]
      rw [if_pos empty, filter_cons_of_neg (by simp [dropped])]
      exact ih (i + 1) realcount game cells holds (by omega) (by omega) rest
    have kept : cells[i].kept = true := by simp [Row.kept, empty]
    have target : realcount < cells.length := by omega
    have same : (cells.set realcount cells[i]).drop (i + 1) = cells.drop (i + 1) :=
      drop_set_of_lt (by omega)
    rw [if_neg empty, filter_cons_of_pos kept]
    simp only [set_row holds.players target, set_row holds.results target,
      read_row holds.heads inside, set_row holds.heads target, read_row holds.bodies inside,
      set_row holds.bodies target, bind_some]
    obtain ⟨after, final, runs, finalHolds, count, size, front⟩ := ih (i + 1) (realcount + 1)
      { game with
        players := some ((cells.set realcount cells[i]).map Row.player)
        results := some ((cells.set realcount cells[i]).map Row.result)
        reportHeads := some ((cells.set realcount cells[i]).map Row.head)
        reportBodies := some ((cells.set realcount cells[i]).map Row.body) }
      (cells.set realcount cells[i]) ⟨rfl, rfl, rfl, rfl⟩ (by rw [length_set]; omega)
      (by omega) (by rw [same]; exact rest)
    have next : (cells.set realcount cells[i]).take (realcount + 1) =
        cells.take realcount ++ [cells[i]] := by
      rw [take_succ_eq_append_getElem (by rw [length_set]; exact target),
        take_set_of_le (le_refl _), getElem_set_self]
    rw [same, next] at front
    rw [same] at runs
    have total : realcount + 1 + ((cells.drop (i + 1)).filter Row.kept).length =
        realcount + (cells[i] :: (cells.drop (i + 1)).filter Row.kept).length := by
      rw [length_cons]
      omega
    rw [total] at runs front
    refine ⟨after, final, runs, finalHolds, count, by rw [size, length_set], ?_⟩
    rw [front, append_assoc, singleton_append]

theorem nuke_slots_rows (left i : Nat) (game : Game) (cells : List Row)
    (holds : Holds game cells) (all : i + left = cells.length) :
    ∃ final, nukeSlots left i game = some final ∧ final.count = game.count ∧
      Holds final (cells.take i ++ replicate left blank) := by
  induction left generalizing i game cells with
  | zero =>
    refine ⟨game, rfl, rfl, ?_⟩
    rw [take_of_length_le (by omega), replicate_zero, append_nil]
    exact holds
  | succ left ih =>
    have inside : i < cells.length := by omega
    have players := set_row holds.players inside blank
    have results := set_row holds.results inside blank
    have heads := set_row holds.heads inside blank
    have bodies := set_row holds.bodies inside blank
    obtain ⟨final, runs, count, finalHolds⟩ := ih (i + 1) { game with
      players := some ((cells.set i blank).map Row.player)
      results := some ((cells.set i blank).map Row.result)
      reportHeads := some ((cells.set i blank).map Row.head)
      reportBodies := some ((cells.set i blank).map Row.body) } (cells.set i blank)
      ⟨rfl, rfl, rfl, rfl⟩ (by rw [length_set]; omega)
    refine ⟨final, ?_, count, ?_⟩
    · rw [nukeSlots, show setSlot game.players i none = _ from players,
        show setSlot game.results i GameResult.none = _ from results,
        show setSlot game.reportHeads i none = _ from heads,
        show setSlot game.reportBodies i none = _ from bodies]
      exact runs
    · rw [take_succ_eq_append_getElem (by rw [length_set]; exact inside),
        take_set_of_le (le_refl _), getElem_set_self, append_assoc,
        singleton_append, ← replicate_succ] at finalHolds
      exact finalHolds

theorem compact_game (whole : Whole game) :
    ∃ realcount after, compactGame game = some (realcount, after) ∧
      Compacted game after realcount := by
  have holds := whole_holds whole
  have length : (rows game).length = game.count := by simp [rows]
  have seated : ∀ row ∈ (rows game).drop 0, row.player.isSome = true := by
    intro row member
    refine whole.seated row.player ?_
    rw [Game.accounts, holds.players, getD_some]
    exact List.mem_map_of_mem member
  obtain ⟨after, middle, runs, middleHolds, count, size, front⟩ :=
    compact_slots_rows game.count 0 0 game (rows game) holds (by omega) (le_refl 0) seated
  rw [drop_zero, zero_add] at runs front
  have few : ((rows game).filter Row.kept).length ≤ game.count := by
    rw [← length]
    exact length_filter_le _ _
  obtain ⟨final, nukes, finalCount, finalHolds⟩ := nuke_slots_rows
    (game.count - ((rows game).filter Row.kept).length) ((rows game).filter Row.kept).length
    middle after middleHolds (by omega)
  rw [front] at finalHolds
  have order : rows final = (rows game).filter Row.kept ++
      replicate (game.count - ((rows game).filter Row.kept).length) blank := by
    refine rows_eq finalHolds ?_
    rw [length_append, length_replicate, finalCount, count]
    omega
  refine ⟨_, final, ?_, finalCount.trans count, rfl, order⟩
  rw [compactGame, runs]
  simp only [bind_eq_bind, bind_some, count, nukes]

end Slots

/-- Evaluation gives each player the result that most opinions agree on, and none exactly to those
without an opinion; then the slots with a result are moved to the front of all arrays. -/
theorem report_outcome (discisloss : Bool) (game : Game) (whole : Whole game)
    (complete : ∀ results, some results ∈ game.reportedResults.getD [] →
      results.length = game.count) :
    ∃ results realcount after,
      gameEvaluateResults discisloss game = some (0, { game with results := some results }) ∧
      Decided discisloss (game.reportedResults.getD []) game.count results ∧
      compactGame { game with results := some results } = some (realcount, after) ∧
      Compacted { game with results := some results } after realcount := by
  obtain ⟨results, evaluates, decided⟩ := evaluate_decides discisloss game whole complete
  have still : Whole { game with results := some results } :=
    { whole with results := ⟨results, rfl, decided.length⟩ }
  obtain ⟨realcount, after, compacts, compacted⟩ := compact_game still
  exact ⟨results, realcount, after, evaluates, decided, compacts, compacted⟩

def sampleGame : Game :=
  { gameOf [some 1, some 2, some 3] [1, 2, 3] 1 with
    reportedResults := some [some [.win, .none, .loss], none, some [.loss, .none, .loss]] }

theorem sample_whole : Whole sampleGame where
  players := ⟨_, rfl, rfl⟩
  results := ⟨_, rfl, rfl⟩
  reportedResults := ⟨_, rfl, rfl⟩
  reportHeads := ⟨_, rfl, rfl⟩
  reportBodies := ⟨_, rfl, rfl⟩
  seated := by decide

theorem sample_complete : ∀ results, some results ∈ sampleGame.reportedResults.getD [] →
    results.length = sampleGame.count := by
  intro results member
  simp only [sampleGame, getD_some, mem_cons, Option.some.injEq, reduceCtorEq,
    not_mem_nil, or_false, false_or] at member
  rcases member with rfl | rfl <;> rfl

/-- The third player has lost by both reports and moves up. -/
theorem sample_outcome : ∃ results realcount after,
    gameEvaluateResults false sampleGame = some (0, { sampleGame with results := some results }) ∧
    Decided false [some [.win, .none, .loss], none, some [.loss, .none, .loss]] 3 results ∧
    compactGame { sampleGame with results := some results } = some (realcount, after) ∧
    Compacted { sampleGame with results := some results } after realcount :=
  report_outcome false sampleGame sample_whole sample_complete

end Pvpgn.ReportOutcome
