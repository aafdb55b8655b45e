import Pvpgn.GameSlots

/-!
The results that the players of a game report (`game.cpp`): one array for each slot, with a result
for every slot there was when it was stored. At the end the votes for each slot are counted.
-/

namespace Pvpgn.GameReports
open Stdio CheckedArray GameSlots List Option Function

/-- The first slot of the account, or `count`. -/
def findAccount (account : Nat) (players : List (Option Nat)) : Nat → Nat → Option Nat
  | 0, i => some i
  | left + 1, i => do
    let player ← readAt players i
    if player = some account then some i else findAccount account players left (i + 1)

inductive Checked
  | refused
  | accepted (results : List GameResult)

/-- The check of a report by slot `i`, from its entry `j` on. -/
def checkReport (i : Nat) : Nat → Nat → List GameResult → Option Checked
  | 0, _, results => some (.accepted results)
  | left + 1, j, results => do
    let result ← readAt results j
    match result with
    | .win | .loss | .draw | .observer | .disconnect => checkReport i left (j + 1) results
    | .none | .playing =>
      if i = j then some .refused else checkReport i left (j + 1) results
    | .unknown =>
      if i = j then some .refused
      else do
        -- the source clears the reporter's own entry, not the bad one
        let results ← writeAt results i GameResult.none
        checkReport i left (j + 1) results

def gameSetReportedResults (game : Game) (account : Nat) (results : List GameResult) :
    Option (Int × Game) :=
  match game.players, game.reportedResults with
  | none, _ => some (-1, game)
  | some _, none => some (-1, game)
  | some players, some reports => do
    let i ← findAccount account players game.count 0
    if i = game.count then some (-1, game)
    else do
      let stored ← readAt reports i
      if stored.isSome then some (-1, game)
      else do
        let checked ← checkReport i game.count 0 results
        match checked with
        | .refused => some (-1, game)
        | .accepted results => do
          let reports ← writeAt reports i (some results)
          some (0, { game with reportedResults := some reports })

structure Tally where
  wins : Nat
  losses : Nat
  draws : Nat
  disconnects : Nat
  reports : Nat

def countVote (tally : Tally) : GameResult → Tally
  | .win => { tally with wins := tally.wins + 1, reports := tally.reports + 1 }
  | .loss => { tally with losses := tally.losses + 1, reports := tally.reports + 1 }
  | .draw => { tally with draws := tally.draws + 1, reports := tally.reports + 1 }
  | .disconnect =>
    { tally with disconnects := tally.disconnects + 1, reports := tally.reports + 1 }
  | _ => tally

/-- The votes for slot `i` in the reports from `j` on. -/
def countVotes (reports : List (Option (List GameResult))) (i : Nat) :
    Nat → Nat → Tally → Option Tally
  | 0, _, tally => some tally
  | left + 1, j, tally => do
    let report ← readAt reports j
    match report with
    | none => countVotes reports i left (j + 1) tally
    | some results => do
      let result ← readAt results i
      countVotes reports i left (j + 1) (countVote tally result)

def decideResult (discisloss : Bool) (tally : Tally) (current : GameResult) : GameResult :=
  if tally.reports = 0 then .none
  else if tally.disconnects ≥ tally.draws ∧ tally.disconnects ≥ tally.losses ∧
      tally.disconnects ≥ tally.wins then
    if discisloss then .loss else .disconnect
  else if tally.losses ≥ tally.wins ∧ tally.losses ≥ tally.draws then .loss
  else if tally.draws ≥ tally.wins then .draw
  else if tally.wins ≠ 0 then .win
  else current

def evaluateSlots (discisloss : Bool) (reports : List (Option (List GameResult))) (count : Nat) :
    Nat → Nat → List GameResult → Option (List GameResult)
  | 0, _, results => some results
  | left + 1, i, results => do
    let tally ← countVotes reports i count 0 ⟨0, 0, 0, 0, 0⟩
    let current ← readAt results i
    let results ← writeAt results i (decideResult discisloss tally current)
    evaluateSlots discisloss reports count left (i + 1) results

/-- `discisloss` is the answer of `game_discisloss`. -/
def gameEvaluateResults (discisloss : Bool) (game : Game) : Option (Int × Game) :=
  match game.results, game.reportedResults with
  | none, _ => some (-1, game)
  | some _, none => some (-1, game)
  | some results, some reports => do
    let results ← evaluateSlots discisloss reports game.count game.count 0 results
    some (0, { game with results := some results })

def counted : GameResult → Bool
  | .win | .loss | .draw | .disconnect => true
  | _ => false

/-- A game, with the accounts that were in its slots when each stored report was made. -/
structure Audit where
  game : Game
  seen : Nat → List (Option Nat)

/-- `ended` is the game that `game_del_player` hands to `game_report`. -/
inductive Phase
  | running (audit : Audit)
  | ended (audit : Audit)

def Phase.audit : Phase → Audit
  | .running audit => audit
  | .ended audit => audit

inductive Act
  | join (normalWins : Nat) (pass : Option Text) (startver : Int) (c : Nat)
  | leave (c : Nat)
  | report (account : Nat) (results : List GameResult)

def act (connection : Nat → Connection) (audit : Audit) : Act → Option Phase
  | .join normalWins pass startver c => do
    let (_, game) ← gameAddPlayer connection normalWins audit.game pass startver c
    some (.running { audit with game })
  | .leave c => do
    let (_, left) ← gameDelPlayer connection audit.game c
    match left with
    | .kept game => some (.running { audit with game })
    | .gone game => some (.ended { audit with game })
  | .report account results => do
    let (code, game) ← gameSetReportedResults audit.game account results
    if code = 0 then do
      let slot ← findAccount account audit.game.accounts audit.game.count 0
      some (.running ⟨game, update audit.seen slot audit.game.accounts⟩)
    else some (.running { audit with game })

def Audit.reports (audit : Audit) : List (Option (List GameResult)) :=
  audit.game.reportedResults.getD []

/-- Evaluation reads every stored report inside its array, and a counted vote for a slot was cast
when the account was in it that is there now. -/
structure Sound (audit : Audit) : Prop where
  inside : ∀ discisloss, (gameEvaluateResults discisloss audit.game).isSome = true
  votes : ∀ (j i : Nat) results result, audit.reports[j]? = some (some results) →
    i < audit.game.count → results[i]? = some result → counted result = true →
      (audit.seen j)[i]? = audit.game.accounts[i]?

/-- A join gets a new slot while no report is stored, or a vacated slot that no stored report of
another slot has a counted vote for, or the account's own old slot. -/
def JoinFits (connection : Nat → Connection) (audit : Audit) : Act → Prop
  | .join normalWins pass startver c =>
    refused connection normalWins audit.game pass startver c = false →
      ∀ f ∈ freeSlot audit.game, ∀ (j : Nat) results, j ≠ f →
        audit.reports[j]? = some (some results) →
          f < audit.game.count ∧ ∀ result ∈ results[f]?, counted result = true →
            audit.game.accounts[f]? = some (some (connection c).account)
  | _ => True

section Evaluation

theorem count_votes_iff (reports : List (Option (List GameResult))) (i left j : Nat) (tally : Tally)
    (inside : j + left ≤ reports.length) :
    (countVotes reports i left j tally).isSome = true ↔
      ∀ k results, j ≤ k → k < j + left → reports[k]? = some (some results) →
        i < results.length := by
  induction left generalizing j tally with
  | zero =>
    refine iff_of_true rfl ?_
    intro k _ later before
    omega
  | succ left ih =>
    have read : readAt reports j = some reports[j] := read_inside _ _ (by omega)
    have slot : reports[j]? = some reports[j] := getElem?_eq_getElem (by omega)
    have split : ∀ property : Nat → Prop,
        (∀ k, j ≤ k → k < j + (left + 1) → property k) ↔
          property j ∧ ∀ k, j + 1 ≤ k → k < j + 1 + left → property k := by
      intro property
      constructor
      · exact fun all => ⟨all j (le_refl j) (by omega), fun k later before =>
          all k (by omega) (by omega)⟩
      rintro ⟨here, later⟩ k after before
      rcases Nat.eq_or_lt_of_le after with rfl | beyond
      · exact here
      · exact later k beyond (by omega)
    have whole : (∀ k results, j ≤ k → k < j + (left + 1) → reports[k]? = some (some results) →
        i < results.length) ↔
        (∀ results, reports[j]? = some (some results) → i < results.length) ∧
          ∀ k results, j + 1 ≤ k → k < j + 1 + left → reports[k]? = some (some results) →
            i < results.length := by
      have cut := split fun k => ∀ results, reports[k]? = some (some results) → i < results.length
      constructor
      · intro all
        obtain ⟨here, later⟩ := cut.mp fun k after before results => all k results after before
        exact ⟨here, fun k results after before => later k after before results⟩
      · rintro ⟨here, later⟩ k results after before
        exact cut.mpr ⟨here, fun k after before results => later k results after before⟩ k after
          before results
    rw [whole, countVotes, read, slot]
    cases entry : reports[j] with
    | none => simpa using ih (j + 1) tally (by omega)
    | some results =>
      by_cases within : i < results.length
      · have value : readAt results i = some results[i] := read_inside _ _ within
        simpa [value, within] using ih (j + 1) (countVote tally results[i]) (by omega)
      · have outside : readAt results i = none := by simpa [readAt] using within
        simp [outside, within]

theorem evaluate_slots_iff (discisloss : Bool) (reports : List (Option (List GameResult)))
    (count left i : Nat) (results : List GameResult) (inside : i + left ≤ results.length)
    (length : count ≤ reports.length) :
    (evaluateSlots discisloss reports count left i results).isSome = true ↔
      ∀ k, i ≤ k → k < i + left → ∀ j stored, j < count → reports[j]? = some (some stored) →
        k < stored.length := by
  induction left generalizing i results with
  | zero =>
    refine iff_of_true rfl ?_
    intro k later before
    omega
  | succ left ih =>
    have votes := count_votes_iff reports i count 0 ⟨0, 0, 0, 0, 0⟩ (by omega)
    rw [evaluateSlots]
    cases counting : countVotes reports i count 0 ⟨0, 0, 0, 0, 0⟩ with
    | none =>
      rw [counting] at votes
      refine iff_of_false (by simp) fun all => ?_
      exact absurd (votes.mpr fun j stored _ before slot =>
        all i (le_refl i) (by omega) j stored (by omega) slot) (by simp)
    | some tally =>
      rw [counting] at votes
      have here := votes.mp rfl
      have read : readAt results i = some results[i] := read_inside _ _ (by omega)
      have write := write_inside results i (decideResult discisloss tally results[i]) (by omega)
      have next := ih (i + 1) (results.set i (decideResult discisloss tally results[i]))
        (by rw [length_set]; omega)
      simp only [read, write, bind_eq_bind, bind_some, next]
      constructor
      · intro later k after before j stored inCount slot
        rcases Nat.eq_or_lt_of_le after with rfl | beyond
        · exact here j stored (Nat.zero_le j) (by omega) slot
        · exact later k beyond (by omega) j stored inCount slot
      · exact fun all k after before => all k (by omega) (by omega)

theorem evaluate_iff (audit : Audit) (resultCount : Sized audit.game.results audit.game.count)
    (reported : Sized audit.game.reportedResults audit.game.count) (discisloss : Bool) :
    (gameEvaluateResults discisloss audit.game).isSome = true ↔
      ∀ (j i : Nat) stored, audit.reports[j]? = some (some stored) → i < audit.game.count →
        i < stored.length := by
  have reportCount : audit.reports.length = audit.game.count := reported
  have below : ∀ (j : Nat) stored, audit.reports[j]? = some (some stored) →
      j < audit.game.count := by
    intro j stored slot
    rw [← reportCount]
    exact (List.getElem?_eq_some_iff.mp slot).1
  rw [gameEvaluateResults]
  cases results : audit.game.results with
  | none =>
    rw [results] at resultCount
    have empty : audit.game.count = 0 := resultCount.symm
    refine iff_of_true rfl ?_
    intro j i stored slot
    omega
  | some cells =>
    rw [results] at resultCount
    have length : cells.length = audit.game.count := resultCount
    cases reports : audit.game.reportedResults with
    | none =>
      rw [Audit.reports, reports] at reportCount
      have empty : audit.game.count = 0 := reportCount.symm
      refine iff_of_true rfl ?_
      intro j i stored slot
      omega
    | some stored =>
      have whole : audit.reports = stored := by rw [Audit.reports, reports]; rfl
      rw [whole] at reportCount below ⊢
      have slots := evaluate_slots_iff discisloss stored audit.game.count audit.game.count 0
        cells (by omega) (by omega)
      cases evaluated : evaluateSlots discisloss stored audit.game.count audit.game.count 0
          cells with
      | none =>
        rw [evaluated] at slots
        refine iff_of_false (by simp [evaluated]) fun all => ?_
        exact absurd (slots.mpr fun k _ before j report _ slot =>
          all j k report slot (by omega)) (by simp)
      | some after =>
        rw [evaluated] at slots
        refine iff_of_true (by simp [evaluated]) ?_
        intro j i report slot inside
        exact slots.mp rfl i (Nat.zero_le i) (by omega) j report (below j report slot) slot

end Evaluation

section Reporting

theorem find_account_spec (account : Nat) (players : List (Option Nat)) (left i : Nat)
    (inside : i + left ≤ players.length) :
    ∃ found, findAccount account players left i = some found ∧ found ≤ i + left := by
  induction left generalizing i with
  | zero => exact ⟨i, rfl, le_refl _⟩
  | succ left ih =>
    obtain ⟨found, search, bound⟩ := ih (i + 1) (by omega)
    have read : readAt players i = some players[i] := read_inside _ _ (by omega)
    rw [findAccount, read]
    by_cases own : players[i] = some account
    · exact ⟨i, by simp [own], by omega⟩
    · exact ⟨found, by simpa [own] using search, by omega⟩

theorem check_report_spec (i left j : Nat) (results : List GameResult)
    (inside : j + left ≤ results.length) (own : i < results.length) :
    ∃ checked, checkReport i left j results = some checked ∧
      ∀ after, checked = .accepted after → after.length = results.length := by
  induction left generalizing j results with
  | zero =>
    refine ⟨.accepted results, rfl, ?_⟩
    rintro after ⟨⟩
    rfl
  | succ left ih =>
    have read : readAt results j = some results[j] := read_inside _ _ (by omega)
    obtain ⟨checked, next, same⟩ := ih (j + 1) results (by omega) own
    have write := write_inside results i GameResult.none own
    obtain ⟨cleared, clearNext, clearSame⟩ := ih (j + 1) (results.set i GameResult.none)
      (by rw [length_set]; omega) (by rw [length_set]; exact own)
    rw [length_set] at clearSame
    rw [checkReport, read]
    cases results[j] with
    | win | loss | draw | observer | disconnect => exact ⟨checked, next, same⟩
    | none | playing =>
      by_cases self : i = j
      · exact ⟨.refused, by simp [self], by simp⟩
      · exact ⟨checked, by simpa [self] using next, same⟩
    | unknown =>
      by_cases self : i = j
      · exact ⟨.refused, by simp [self], by simp⟩
      · exact ⟨cleared, by simpa [self, write] using clearNext, clearSame⟩

variable {connection : Nat → Connection} {audit : Audit}

structure Valid (connection : Nat → Connection) (audit : Audit) : Prop where
  seated : Seated connection audit.game
  short : ∀ (j : Nat) results, audit.reports[j]? = some (some results) →
    results.length ≤ audit.game.count

def withReport (audit : Audit) (slot : Nat) (results : List GameResult) : Game :=
  { audit.game with reportedResults := some (audit.reports.set slot (some results)) }

variable (f c : Nat) {results : List GameResult}

theorem set_reported_cases (seated : Seated connection audit.game) (account : Nat)
    (length : results.length = audit.game.count) :
    gameSetReportedResults audit.game account results = some (-1, audit.game) ∨
      ∃ slot after, slot < audit.game.count ∧ after.length = audit.game.count ∧
        findAccount account audit.game.accounts audit.game.count 0 = some slot ∧
        gameSetReportedResults audit.game account results =
          some (0, withReport audit slot after) := by
  rw [gameSetReportedResults]
  cases players : audit.game.players with
  | none => exact Or.inl rfl
  | some accounts =>
    cases reported : audit.game.reportedResults with
    | none => exact Or.inl rfl
    | some reports =>
      have accountCount : accounts.length = audit.game.count := by
        have sized := seated.players
        rwa [players] at sized
      have reportCount : reports.length = audit.game.count := by
        have sized := seated.reportedResults
        rwa [reported] at sized
      have own : audit.game.accounts = accounts := by rw [Game.accounts, players]; rfl
      have whole : audit.reports = reports := by rw [Audit.reports, reported]; rfl
      obtain ⟨slot, search, bound⟩ :=
        find_account_spec account accounts audit.game.count 0 (by omega)
      rw [own]
      by_cases missing : slot = audit.game.count
      · left
        simp [search, missing]
      have read : readAt reports slot = some reports[slot] := read_inside _ _ (by omega)
      cases stored : reports[slot] with
      | some report =>
        left
        simp [search, missing, read, stored]
      | none =>
        obtain ⟨checked, check, same⟩ := check_report_spec slot audit.game.count 0 results
          (by omega) (by omega)
        cases checked with
        | refused =>
          left
          simp [search, missing, read, stored, check]
        | accepted after =>
          right
          refine ⟨slot, after, by omega, by rw [same after rfl, length], search, ?_⟩
          have write := write_inside reports slot (some after) (by omega)
          simp [search, missing, read, stored, check, write, players, withReport, whole]

structure SameReports (game other : Game) : Prop where
  results : game.results = other.results
  reportedResults : game.reportedResults = other.reportedResults
  players : game.players = other.players
  count : game.count = other.count

theorem sound_congr {game : Game} (seated : Seated connection audit.game)
    (same : SameReports game audit.game) : Sound { audit with game } ↔ Sound audit := by
  obtain ⟨results, reported, players, count⟩ := same
  have reports : ({ audit with game } : Audit).reports = audit.reports := by
    rw [Audit.reports, Audit.reports, reported]
  have accounts : game.accounts = audit.game.accounts := by
    rw [Game.accounts, Game.accounts, players]
  have inside : ∀ discisloss, (gameEvaluateResults discisloss game).isSome = true ↔
      (gameEvaluateResults discisloss audit.game).isSome = true := by
    intro discisloss
    rw [evaluate_iff audit seated.results seated.reportedResults,
      evaluate_iff { audit with game }, reports, count]
    · rw [results, count]
      exact seated.results
    · rw [reported, count]
      exact seated.reportedResults
  constructor
  · rintro ⟨reads, votes⟩
    refine ⟨fun discisloss => (inside discisloss).mp (reads discisloss), ?_⟩
    rw [reports] at votes
    simpa only [count, accounts] using votes
  · rintro ⟨reads, votes⟩
    refine ⟨fun discisloss => (inside discisloss).mpr (reads discisloss), ?_⟩
    rw [reports]
    simpa only [count, accounts] using votes

theorem hosted_same (connection : Nat → Connection) (game : Game) :
    SameReports (hosted connection game) game := by
  rw [hosted]
  split <;> exact ⟨rfl, rfl, rfl, rfl⟩

theorem valid_congr {game : Game} (valid : Valid connection audit)
    (same : SameReports game audit.game) (after : Seated connection game) :
    Valid connection { audit with game } := by
  have reports : ({ audit with game } : Audit).reports = audit.reports := by
    rw [Audit.reports, Audit.reports, same.reportedResults]
  refine ⟨after, ?_⟩
  rw [reports]
  simpa only [same.count] using valid.short

def StepsRight (connection : Nat → Connection) (audit : Audit) (action : Act) : Prop :=
  ∃ phase, act connection audit action = some phase ∧
    (∀ next, phase = .running next → Valid connection next) ∧
    (Sound audit → (Sound phase.audit ↔ JoinFits connection audit action))

theorem leave_right (valid : Valid connection audit) (c : Nat) :
    StepsRight connection audit (.leave c) := by
  have seated := valid.seated
  rcases del_cases (c := c) seated with ⟨_, answer⟩ | ⟨i, occupied, answer⟩
  · refine ⟨.running audit, by simp [act, answer], ?_, fun sound => iff_of_true sound trivial⟩
    rintro next ⟨⟩
    exact valid
  obtain ⟨_, d, taken⟩ := occupied
  by_cases last : audit.game.ref < 2
  · have same : SameReports (emptied audit.game i) audit.game := ⟨rfl, rfl, rfl, rfl⟩
    refine ⟨.ended { audit with game := emptied audit.game i }, by simp [act, answer, last],
      by simp, fun sound => ?_⟩
    exact iff_of_true ((sound_congr seated same).mpr sound) trivial
  have same : SameReports (hosted connection (vacated audit.game i)) audit.game := by
    obtain ⟨results, reported, players, count⟩ := hosted_same connection
      (vacated audit.game i)
    exact ⟨results, reported, players, count⟩
  refine ⟨.running { audit with game := hosted connection (vacated audit.game i) },
    by simp [act, answer, last], ?_, fun sound => ?_⟩
  · rintro next ⟨⟩
    exact valid_congr valid same (vacated_seated seated taken)
  · exact iff_of_true ((sound_congr seated same).mpr sound) trivial

theorem with_report_seated (seated : Seated connection audit.game) (slot : Nat)
    (results : List GameResult) : Seated connection (withReport audit slot results) := by
  have reportCount : audit.reports.length = audit.game.count := seated.reportedResults
  have sized : Sized (some (audit.reports.set slot (some results))) audit.game.count := by
    rw [Sized, getD_some, length_set, reportCount]
  exact ⟨seated.connections, seated.players, seated.results, sized, seated.reportHeads,
    seated.reportBodies, seated.ref, seated.agree, seated.host⟩

theorem with_report_slot {slot j : Nat} {report : List GameResult} {seen : Nat → List (Option Nat)}
    (stored : (Audit.mk (withReport audit slot results) seen).reports[j]? = some (some report)) :
    (j = slot ∧ report = results) ∨ (j ≠ slot ∧ audit.reports[j]? = some (some report)) := by
  change (audit.reports.set slot (some results))[j]? = _ at stored
  by_cases own : slot = j
  · subst own
    have inside : slot < audit.reports.length := by
      have within := (List.getElem?_eq_some_iff.mp stored).1
      rwa [length_set] at within
    rw [getElem?_set_self inside] at stored
    exact Or.inl ⟨rfl, (Option.some.inj (Option.some.inj stored)).symm⟩
  · rw [getElem?_set_ne own] at stored
    exact Or.inr ⟨Ne.symm own, stored⟩

theorem report_right (valid : Valid connection audit) (account : Nat)
    (length : results.length = audit.game.count) :
    StepsRight connection audit (.report account results) := by
  have seated := valid.seated
  rcases set_reported_cases seated account length with refused | ⟨slot, after, inside,
    whole, search,
    stored⟩
  · refine ⟨.running audit, by simp [act, refused], ?_, fun sound => iff_of_true sound trivial⟩
    rintro next ⟨⟩
    exact valid
  have seatedAfter := with_report_seated seated slot after
  refine ⟨.running ⟨withReport audit slot after,
    update audit.seen slot audit.game.accounts⟩, by simp [act, stored, search], ?_,
    fun sound => iff_of_true ⟨?_, ?_⟩ trivial⟩
  · rintro next ⟨⟩
    refine ⟨seatedAfter, fun j report there => ?_⟩
    rcases with_report_slot there with ⟨-, rfl⟩ | ⟨-, before⟩
    · exact le_of_eq whole
    · exact valid.short j report before
  · intro discisloss
    have reads := sound.inside discisloss
    rw [evaluate_iff audit seated.results seated.reportedResults] at reads
    refine (evaluate_iff ⟨_, _⟩ seatedAfter.results seatedAfter.reportedResults discisloss).mpr ?_
    intro j i report there within
    rcases with_report_slot there with ⟨-, rfl⟩ | ⟨-, before⟩
    · exact whole ▸ within
    · exact reads j i report before within
  · intro j i report result there within value vote
    change (update audit.seen slot audit.game.accounts j)[i]? = audit.game.accounts[i]?
    rcases with_report_slot there with ⟨rfl, rfl⟩ | ⟨apart, before⟩
    · rw [update_self]
    · rw [update_of_ne apart]
      exact sound.votes j i report result before within value vote

def joinedAudit (connection : Nat → Connection) (audit : Audit) (f c : Nat) : Audit :=
  { audit with game := hosted connection (joined connection audit.game f c) }

theorem joined_reports :
    (joinedAudit connection audit f c).reports = seat audit.reports f none := by
  have same := hosted_same connection (joined connection audit.game f c)
  rw [Audit.reports, joinedAudit, same.reportedResults]
  rfl

theorem joined_accounts : (joinedAudit connection audit f c).game.accounts = seat
    audit.game.accounts f (some (connection c).account) := by
  have same := hosted_same connection (joined connection audit.game f c)
  rw [Game.accounts, joinedAudit, same.players]
  rfl

theorem joined_count :
    (joinedAudit connection audit f c).game.count = max audit.game.count (f + 1) :=
  (hosted_same connection (joined connection audit.game f c)).count

theorem joined_slot (seated : Seated connection audit.game) {f c j : Nat} {report : List GameResult}
    (inside : f ≤ audit.game.count) :
    (joinedAudit connection audit f c).reports[j]? = some (some report) ↔
      j ≠ f ∧ audit.reports[j]? = some (some report) := by
  have length : audit.reports.length = audit.game.count := seated.reportedResults
  rw [joined_reports]
  by_cases own : j = f
  · subst own
    rw [seat_same _ (by omega)]
    simp
  · rw [seat_other _ (by omega) own]
    simp [own]

theorem join_sound_iff (valid : Valid connection audit) (sound : Sound audit) {f c : Nat}
    (inside : f ≤ audit.game.count)
    (after : Seated connection (joinedAudit connection audit f c).game) :
    Sound (joinedAudit connection audit f c) ↔
      ∀ (j : Nat) results, j ≠ f → audit.reports[j]? = some (some results) →
        f < audit.game.count ∧ ∀ result ∈ results[f]?, counted result = true →
          audit.game.accounts[f]? = some (some (connection c).account) := by
  have seated := valid.seated
  have accountCount : audit.game.accounts.length = audit.game.count := seated.players
  have own : (joinedAudit connection audit f c).game.accounts[f]? =
      some (some (connection c).account) := by
    rw [joined_accounts, seat_same _ (by omega)]
  have reads := (evaluate_iff audit seated.results seated.reportedResults false).mp
    (sound.inside false)
  constructor
  · rintro ⟨later, votes⟩ j report apart slot
    have kept := (joined_slot (c := c) seated inside).mpr ⟨apart, slot⟩
    have within : f < audit.game.count := by
      have read := (evaluate_iff _ after.results after.reportedResults false).mp (later false) j f
        report kept (by rw [joined_count]; omega)
      have short := valid.short j report slot
      omega
    refine ⟨within, fun result value vote => ?_⟩
    have now := votes j f report result kept (by rw [joined_count]; omega) value vote
    have before := sound.votes j f report result slot within value vote
    rw [← before, ← own]
    exact now
  intro fits
  constructor
  · intro discisloss
    refine (evaluate_iff _ after.results after.reportedResults discisloss).mpr ?_
    intro j i report kept bound
    obtain ⟨apart, slot⟩ := (joined_slot seated inside).mp kept
    have within := (fits j report apart slot).1
    rw [joined_count] at bound
    exact reads j i report slot (by omega)
  intro j i report result kept bound value vote
  obtain ⟨apart, slot⟩ := (joined_slot seated inside).mp kept
  obtain ⟨within, same⟩ := fits j report apart slot
  rw [joined_count] at bound
  have before := sound.votes j i report result slot (by omega) value vote
  change (audit.seen j)[i]? = _
  rw [before]
  by_cases here : i = f
  · subst here
    rw [own, same result value vote]
  · rw [joined_accounts, seat_other _ (by omega) here]

theorem join_right (valid : Valid connection audit) (normalWins : Nat) (pass : Option Text)
    (startver : Int) (c : Nat) :
    StepsRight connection audit (.join normalWins pass startver c) := by
  have seated := valid.seated
  cases accepted : refused connection normalWins audit.game pass startver c with
  | true =>
    have answer : gameAddPlayer connection normalWins audit.game pass startver c =
        some (-1, audit.game) := by
      rw [gameAddPlayer, accepted]
      rfl
    refine ⟨.running audit, by simp [act, answer], ?_, fun sound => ?_⟩
    · rintro next ⟨⟩
      exact valid
    · exact iff_of_true sound (by simp [JoinFits, accepted])
  | false =>
    obtain ⟨full, rest, free, slot, answer⟩ := add_accepted seated accepted
    have inside : full.length ≤ audit.game.count := by
      rw [← show audit.game.slots.length = audit.game.count from seated.connections]
      exact free_inside free
    have after := joined_seated (c := c) seated free
    refine ⟨.running (joinedAudit connection audit full.length c),
      by simp [act, answer, joinedAudit], ?_, fun sound => ?_⟩
    · rintro next ⟨⟩
      refine ⟨after, fun j report kept => ?_⟩
      obtain ⟨-, slot⟩ := (joined_slot seated inside).mp kept
      have short := valid.short j report slot
      rw [joined_count]
      omega
    · have fits := join_sound_iff valid sound inside after
      simp only [JoinFits, accepted, slot, mem_def, Option.some.injEq, forall_const, forall_eq']
      exact fits

end Reporting

def Proper (audit : Audit) : Act → Prop
  | .report _ results => results.length = audit.game.count
  | _ => True

structure Unjoined (game : Game) : Prop where
  count : game.count = 0
  ref : game.ref = 0
  connections : game.connections = none
  players : game.players = none
  results : game.results = none
  reportedResults : game.reportedResults = none
  reportHeads : game.reportHeads = none
  reportBodies : game.reportBodies = none

structure Turn where
  before : Audit
  action : Act
  after : Phase

inductive Play (connection : Nat → Connection) : List Turn → Phase → Prop
  | start (game : Game) (unjoined : Unjoined game) :
      Play connection [] (.running ⟨game, fun _ => []⟩)
  | turn {turns : List Turn} {audit : Audit} {action : Act} {phase : Phase}
      (before : Play connection turns (.running audit)) (proper : Proper audit action)
      (ran : act connection audit action = some phase) :
      Play connection (turns ++ [⟨audit, action, phase⟩]) phase

section Plays
variable {connection : Nat → Connection}

theorem step_right {audit : Audit} (valid : Valid connection audit) {action : Act}
    (proper : Proper audit action) : StepsRight connection audit action := by
  cases action with
  | join normalWins pass startver c => exact join_right valid normalWins pass startver c
  | leave c => exact leave_right valid c
  | report account results => exact report_right valid account proper

variable {game : Game} {turns : List Turn}

theorem unjoined_seated (unjoined : Unjoined game) : Seated connection game := by
  obtain ⟨count, ref, connections, players, results, reportedResults, reportHeads, reportBodies⟩ :=
    unjoined
  have slots : game.slots = [] := by rw [Game.slots, connections]; rfl
  have connected : game.connected = [] := by rw [Game.connected, slots]; rfl
  refine ⟨?_, ?_, ?_, ?_, ?_, ?_, ?_, ?_, ?_⟩
  · rw [connections, count]; rfl
  · rw [players, count]; rfl
  · rw [results, count]; rfl
  · rw [reportedResults, count]; rfl
  · rw [reportHeads, count]; rfl
  · rw [reportBodies, count]; rfl
  · rw [ref, connected]; rfl
  · simp [slots]
  · simp [connected]

theorem unjoined_reports (unjoined : Unjoined game) (seen : Nat → List (Option Nat)) :
    (Audit.mk game seen).reports = [] := by
  rw [Audit.reports, unjoined.reportedResults]
  rfl

theorem unjoined_sound (unjoined : Unjoined game) (seen : Nat → List (Option Nat)) :
    Sound ⟨game, seen⟩ := by
  have seated : Seated (fun _ => ⟨0, 0, 0, false⟩) game := unjoined_seated unjoined
  constructor
  · intro discisloss
    refine (evaluate_iff _ seated.results seated.reportedResults discisloss).mpr ?_
    simp [unjoined_reports unjoined]
  · simp [unjoined_reports unjoined]

theorem play_valid {phase : Phase} (play : Play connection turns phase) :
    ∀ audit, phase = .running audit → Valid connection audit := by
  induction play with
  | start game unjoined =>
    rintro audit ⟨⟩
    exact ⟨unjoined_seated unjoined, by simp [unjoined_reports unjoined]⟩
  | turn before proper ran ih =>
    obtain ⟨next, step, valid, -⟩ := step_right (ih _ rfl) proper
    rw [ran, Option.some.injEq] at step
    subst step
    exact valid

theorem last_sound {phase : Phase} (play : Play connection turns phase)
    (sound : ∀ turn ∈ turns, Sound turn.after.audit) : Sound phase.audit := by
  cases play with
  | start game unjoined => exact unjoined_sound unjoined _
  | turn before proper ran => exact sound _ (mem_append_right _ (mem_singleton_self _))

/-- In a run up to the report of the game, evaluation would read every stored report inside its
array and count only votes for the account that is in the slot, exactly if every join fits the
reports that are stored then. -/
theorem reports_sound_iff {turns : List Turn} {phase : Phase} (play : Play connection turns phase) :
    (∀ turn ∈ turns, Sound turn.after.audit) ↔
      ∀ turn ∈ turns, JoinFits connection turn.before turn.action := by
  induction play with
  | start => simp
  | turn before proper ran ih =>
    obtain ⟨next, step, -, iff⟩ := step_right (play_valid before _ rfl) proper
    rw [ran, Option.some.injEq] at step
    subst step
    simp only [mem_append, mem_singleton, or_imp, forall_and, forall_eq]
    constructor
    · rintro ⟨earlier, last⟩
      exact ⟨ih.mp earlier, (iff (last_sound before earlier)).mp last⟩
    · rintro ⟨earlier, last⟩
      have sound := ih.mpr earlier
      exact ⟨sound, (iff (last_sound before sound)).mpr last⟩

end Plays

section Lobby

def joins (c : Nat) : Act := .join 0 (some []) 0 c

/-- A lobby game with stored reports, the first of them made when players 1 and 2 were there. -/
def stage (slots : List (Option Nat)) (players : List Nat) (owner : Nat)
    (reports : List (Option (List GameResult))) : Audit :=
  ⟨{ gameOf slots players owner with reportedResults := some reports },
    update (fun _ => []) 0 [some 1, some 2]⟩

def firstReport : List GameResult := [.win, .loss]

def twoPlayers : Audit := ⟨gameOf [some 1, some 2] [1, 2] 1, fun _ => []⟩

def reported : Audit := stage [some 1, some 2] [1, 2] 1 [some firstReport, none]

theorem lobby_turn {turns : List Turn} {audit : Audit} (play : Play guest turns (.running audit))
    (action : Act) (phase : Phase) (proper : Proper audit action)
    (ran : act guest audit action = some phase) :
    Play guest (turns ++ [⟨audit, action, phase⟩]) phase :=
  play.turn proper ran

theorem play_two : Play guest
    [⟨⟨emptyGame, fun _ => []⟩, joins 1, .running ⟨gameOf [some 1] [1] 1, fun _ => []⟩⟩,
      ⟨⟨gameOf [some 1] [1] 1, fun _ => []⟩, joins 2, .running twoPlayers⟩,
      ⟨twoPlayers, .report 1 firstReport, .running reported⟩] (.running reported) := by
  have opened : Play guest [] (.running ⟨emptyGame, fun _ => []⟩) :=
    Play.start emptyGame ⟨rfl, rfl, rfl, rfl, rfl, rfl, rfl, rfl⟩
  have first := lobby_turn opened (joins 1) (.running ⟨gameOf [some 1] [1] 1, fun _ => []⟩)
    trivial rfl
  have second := lobby_turn first (joins 2) (.running twoPlayers) trivial rfl
  exact lobby_turn second (.report 1 firstReport) (.running reported) rfl rfl

/-- A report after the last join is read and counted rightly. -/
theorem report_after_joins_sound : Sound reported := by
  have fits : ∀ turn ∈ [
      Turn.mk ⟨emptyGame, fun _ => []⟩ (joins 1) (.running ⟨gameOf [some 1] [1] 1, fun _ => []⟩),
      ⟨⟨gameOf [some 1] [1] 1, fun _ => []⟩, joins 2, .running twoPlayers⟩,
      ⟨twoPlayers, .report 1 firstReport, .running reported⟩],
      JoinFits guest turn.before turn.action := by
    intro turn inside
    simp only [mem_cons, not_mem_nil, or_false] at inside
    rcases inside with rfl | rfl | rfl
    · intro _ f _ j results _ stored
      simp [Audit.reports, emptyGame] at stored
    · intro _ f _ j results _ stored
      cases j <;> simp [Audit.reports, gameOf] at stored
    · trivial
  exact (reports_sound_iff play_two).mpr fits ⟨twoPlayers, .report 1 firstReport, .running reported⟩
    (by simp)

/-- A third player joins after the report of the first one, and all leave: evaluation then reads the
third entry of an array of two. -/
theorem join_after_report_overruns : ∃ turns audit, Play guest turns (.ended audit) ∧
    gameEvaluateResults false audit.game = none := by
  have third := lobby_turn play_two (joins 3)
    (.running (stage [some 1, some 2, some 3] [1, 2, 3] 1 [some firstReport, none, none]))
    trivial rfl
  have first := lobby_turn third (.leave 1)
    (.running (stage [none, some 2, some 3] [1, 2, 3] 2 [some firstReport, none, none]))
    trivial rfl
  have second := lobby_turn first (.leave 2)
    (.running (stage [none, none, some 3] [1, 2, 3] 3 [some firstReport, none, none])) trivial rfl
  have ended := lobby_turn second (.leave 3)
    (.ended { stage [none, none, some 3] [1, 2, 3] 3 [some firstReport, none, none] with
      game := emptied (stage [none, none, some 3] [1, 2, 3] 3
        [some firstReport, none, none]).game 2 }) trivial rfl
  exact ⟨_, _, ended, rfl⟩

end Lobby

end Pvpgn.GameReports
