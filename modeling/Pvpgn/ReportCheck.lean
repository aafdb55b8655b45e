import Pvpgn.GameReports

/-!
What `game_set_reported_results` stores of a report with bad entries. A bad entry about another
player clears the reporter's own entry: before the own one it makes the report refused, behind it
the report is stored with the own result lost and the bad entry kept.
-/

namespace Pvpgn.ReportCheck
open CheckedArray GameSlots GameReports List Option Nat

def isOutcome : GameResult → Bool
  | .win | .loss | .draw | .observer | .disconnect => true
  | _ => false

/-- A number that is no result, from slot `first` on and before slot `last`. -/
def BadIn (results : List GameResult) (first last : Nat) : Prop :=
  ∃ k, first ≤ k ∧ k < last ∧ results[k]? = some .unknown

/-- What is stored of a report: the bad entries about others are replaced. -/
structure Kept (count i : Nat) (given stored : List GameResult) : Prop where
  length : stored.length = given.length
  own : stored[i]? = given[i]?
  others : ∀ k, k < count → k ≠ i →
    stored[k]? = if given[k]? = some .unknown then some .none else given[k]?

/-- The call answers, and stores the report rightly or changes nothing. -/
def Faithful (game : Game) (account : Nat) (given : List GameResult) : Prop :=
  ∃ code after, gameSetReportedResults game account given = some (code, after) ∧
    ((code = 0 ∧ ∃ i stored, findAccount account game.accounts game.count 0 = some i ∧
        i < game.count ∧ Kept game.count i given stored ∧ after = { game with
          reportedResults := some ((game.reportedResults.getD []).set i (some stored)) }) ∨
      (code = -1 ∧ after = game))

/-- The report would be stored if no entry behind the reporter's own were bad. -/
structure Passes (game : Game) (account : Nat) (given : List GameResult) (i : Nat) : Prop where
  slot : findAccount account game.accounts game.count 0 = some i
  inside : i < game.count
  unreported : (game.reportedResults.getD [])[i]? = some none
  own : ∃ result, given[i]? = some result ∧ isOutcome result = true
  before : ¬ BadIn given 0 i

/-- The reports that are handled rightly. -/
def Fits (game : Game) (account : Nat) (given : List GameResult) : Prop :=
  ∀ i, Passes game account given i → ¬ BadIn given (i + 1) game.count

/-! The loop. -/

theorem bad_step (results : List GameResult) (first last : Nat)
    (fine : results[first]? ≠ some .unknown) :
    BadIn results first last ↔ BadIn results (first + 1) last := by
  constructor
  · rintro ⟨k, after, inside, bad⟩
    have apart : k ≠ first := fun same => fine (same ▸ bad)
    exact ⟨k, by omega, inside, bad⟩
  · rintro ⟨k, after, inside, bad⟩
    exact ⟨k, by omega, inside, bad⟩

theorem check_behind (i left j : Nat) (results : List GameResult) (behind : i < j)
    (inside : j + left ≤ results.length) :
    ∃ after, checkReport i left j results = some (.accepted after) ∧
      (BadIn results j (j + left) → after = results.set i .none) ∧
      (¬ BadIn results j (j + left) → after = results) := by
  induction left generalizing j results with
  | zero =>
    refine ⟨results, rfl, fun bad => ?_, fun _ => rfl⟩
    obtain ⟨k, after, before, _⟩ := bad
    omega
  | succ left ih =>
    have read : readAt results j = some results[j] := read_inside _ _ (by omega)
    have entry : results[j]? = some results[j] := getElem?_eq_getElem (by omega)
    have apart : i ≠ j := by omega
    have step (fine : results[j] ≠ .unknown) :
        BadIn results j (j + (left + 1)) ↔ BadIn results (j + 1) (j + 1 + left) := by
      rw [bad_step results j _ (by rw [entry]; simpa using fine), add_right_comm]
      rfl
    obtain ⟨after, next, bad, good⟩ := ih (j + 1) results (by omega) (by omega)
    rw [checkReport, read, bind_eq_bind, bind_some]
    cases value : results[j] with
    | win | loss | draw | observer | disconnect =>
      rw [step (by simp [value])]
      exact ⟨after, next, bad, good⟩
    | none | playing =>
      rw [step (by simp [value])]
      exact ⟨after, (if_neg apart).trans next, bad, good⟩
    | unknown =>
      have write := write_inside results i GameResult.none (by omega)
      obtain ⟨cleared, next, bad, good⟩ := ih (j + 1) (results.set i .none) (by omega)
        (by rw [length_set]; omega)
      have clearedIs : cleared = results.set i .none := by
        by_cases more : BadIn (results.set i .none) (j + 1) (j + 1 + left)
        · rw [bad more, set_set]
        · exact good more
      refine ⟨cleared, ?_, fun _ => clearedIs, fun fine => ?_⟩
      · simp only [if_neg apart, write]
        exact next
      · exact absurd ⟨j, le_refl j, by omega, entry.trans (congrArg some value)⟩ fine

theorem not_outcome {results : List GameResult} {i : Nat} {result : GameResult}
    (entry : results[i]? = some result) (other : isOutcome result = false) :
    ¬ ∃ result, results[i]? = some result ∧ isOutcome result = true := by
  rintro ⟨own, ownIs, outcome⟩
  rw [entry, Option.some.injEq] at ownIs
  rw [← ownIs, other] at outcome
  cases outcome

theorem check_before (i left j : Nat) (results : List GameResult) (ahead : j ≤ i)
    (own : i < j + left) (inside : j + left ≤ results.length) :
    ((∃ result, results[i]? = some result ∧ isOutcome result = true) ∧ ¬ BadIn results j i →
      checkReport i left j results = checkReport i (j + left - (i + 1)) (i + 1) results) ∧
    (¬ ((∃ result, results[i]? = some result ∧ isOutcome result = true) ∧ ¬ BadIn results j i) →
      checkReport i left j results = some .refused) := by
  induction left generalizing j results with
  | zero => omega
  | succ left ih =>
    have read : readAt results j = some results[j] := read_inside _ _ (by omega)
    have entry : results[j]? = some results[j] := getElem?_eq_getElem (by omega)
    rw [checkReport, read, bind_eq_bind, bind_some]
    rcases eq_or_lt_of_le ahead with here | before
    · subst here
      have nothing : ¬ BadIn results j j := by
        rintro ⟨k, after, inside, _⟩
        omega
      have count : j + (left + 1) - (j + 1) = left := by omega
      rw [count]
      cases value : results[j] with
      | win | loss | draw | observer | disconnect =>
        refine ⟨fun _ => rfl, fun missing => absurd ⟨⟨_, entry, ?_⟩, nothing⟩ missing⟩
        rw [value]
        rfl
      | none | playing | unknown =>
        rw [value] at entry
        exact ⟨fun both => absurd both.1 (not_outcome entry rfl), fun _ => if_pos rfl⟩
    have apart : i ≠ j := by omega
    have rest := ih (j + 1) results before (by omega) (by omega)
    have count : j + 1 + left - (i + 1) = j + (left + 1) - (i + 1) := by omega
    rw [count] at rest
    have step (fine : results[j] ≠ .unknown) : BadIn results j i ↔ BadIn results (j + 1) i :=
      bad_step results j i (by rw [entry]; simpa using fine)
    cases value : results[j] with
    | win | loss | draw | observer | disconnect =>
      rw [step (by simp [value])]
      exact rest
    | none | playing =>
      rw [step (by simp [value])]
      simpa only [if_neg apart] using rest
    | unknown =>
      have bad : BadIn results j i := ⟨j, le_refl j, before, entry.trans (congrArg some value)⟩
      have write := write_inside results i GameResult.none (by omega)
      have cleared : (results.set i GameResult.none)[i]? = some .none :=
        getElem?_set_self (by omega)
      refine ⟨fun both => absurd bad both.2, fun _ => ?_⟩
      simp only [if_neg apart, write]
      exact (ih (j + 1) (results.set i .none) before (by omega)
        (by rw [length_set]; omega)).2 fun both =>
          not_outcome cleared rfl both.1

/-! The call. -/

section Calls
variable {game : Game} {account : Nat} {given : List GameResult}

variable (given) in
theorem set_reported_slot {accounts : List (Option Nat)}
    {reports : List (Option (List GameResult))} {i : Nat} (players : game.players = some accounts)
    (reported : game.reportedResults = some reports)
    (slot : findAccount account accounts game.count 0 = some i) (inside : i < game.count)
    (room : i < reports.length) :
    (reports[i].isSome = true → gameSetReportedResults game account given = some (-1, game)) ∧
    (reports[i] = none → checkReport i game.count 0 given = some .refused →
      gameSetReportedResults game account given = some (-1, game)) ∧
    ∀ results, reports[i] = none → checkReport i game.count 0 given = some (.accepted results) →
      gameSetReportedResults game account given = some (0, { game with
        reportedResults := some (reports.set i (some results)) }) := by
  have read : readAt reports i = some reports[i] := read_inside _ _ room
  have found : i ≠ game.count := by omega
  refine ⟨fun twice => ?_, fun first check => ?_, fun results first check => ?_⟩
  · simp [gameSetReportedResults, players, reported, slot, found, read, twice]
  · simp [gameSetReportedResults, players, reported, slot, found, read, first, check]
  · have write := write_inside reports i (some results) room
    simp [gameSetReportedResults, players, reported, slot, found, read, first, check, write]

theorem refused_faithful (answer : gameSetReportedResults game account given = some (-1, game)) :
    Faithful game account given :=
  ⟨-1, game, answer, Or.inr ⟨rfl, rfl⟩⟩

theorem accepted_faithful {i : Nat} {stored : List GameResult}
    (slot : findAccount account game.accounts game.count 0 = some i) (inside : i < game.count)
    (room : i < (game.reportedResults.getD []).length)
    (answer : gameSetReportedResults game account given = some (0, { game with
      reportedResults := some ((game.reportedResults.getD []).set i (some stored)) })) :
    Faithful game account given ↔ Kept game.count i given stored := by
  constructor
  · rintro ⟨code, after, called, right⟩
    rw [answer, Option.some.injEq, Prod.mk.injEq] at called
    obtain ⟨rfl, afterIs⟩ := called
    rcases right with ⟨-, other, kept, found, -, keeps, same⟩ | ⟨wrong, -⟩
    · rw [slot, Option.some.injEq] at found
      subst found
      rw [← afterIs] at same
      have cells := congrArg (fun game : Game => (game.reportedResults.getD [])[i]?) same
      simp only [getD_some, getElem?_set_self room, Option.some.injEq] at cells
      rwa [cells]
    · cases wrong
  · exact fun kept => ⟨0, _, answer, Or.inl ⟨rfl, i, stored, slot, inside, kept, rfl⟩⟩

/-- The loop keeps what it should exactly if it met no bad entry behind the own one. -/
theorem kept_iff {count i : Nat} {after : List GameResult} (inside : i < given.length)
    (own : ∃ result, given[i]? = some result ∧ isOutcome result = true) (before : ¬ BadIn given 0 i)
    (bad : BadIn given (i + 1) count → after = given.set i .none)
    (good : ¬ BadIn given (i + 1) count → after = given) :
    Kept count i given after ↔ ¬ BadIn given (i + 1) count := by
  constructor
  · intro kept more
    have cleared := kept.own
    rw [bad more, getElem?_set_self inside] at cleared
    exact not_outcome cleared.symm rfl own
  intro fine
  rw [good fine]
  refine ⟨rfl, rfl, fun k within apart => (if_neg fun entry => ?_).symm⟩
  rcases lt_or_gt_of_ne apart with ahead | behind
  · exact before ⟨k, zero_le k, ahead, entry⟩
  · exact fine ⟨k, behind, within, entry⟩

end Calls

/-- A report is stored with the bad entries about others replaced, or refused and nothing changed,
exactly if no entry behind the reporter's own is bad, or the report is refused for what comes
before. -/
theorem reported_results_exact (game : Game) (account : Nat) (given : List GameResult)
    (players : Sized game.players game.count)
    (reportedResults : Sized game.reportedResults game.count) (long : game.count ≤ given.length) :
    Faithful game account given ↔ Fits game account given := by
  have none_fits (answer : gameSetReportedResults game account given = some (-1, game))
      (fails : ∀ i, ¬ Passes game account given i) :
      Faithful game account given ↔ Fits game account given :=
    iff_of_true (refused_faithful answer) fun i passes => absurd passes (fails i)
  cases accountsIs : game.players with
  | none =>
    rw [accountsIs] at players
    have empty : game.count = 0 := players.symm
    refine none_fits (by rw [gameSetReportedResults, accountsIs]) fun i passes => ?_
    have inside := passes.inside
    omega
  | some accounts =>
    rw [accountsIs] at players
    have accountCount : accounts.length = game.count := players
    have own : game.accounts = accounts := by rw [Game.accounts, accountsIs]; rfl
    cases reportsIs : game.reportedResults with
    | none =>
      rw [reportsIs] at reportedResults
      have empty : game.count = 0 := reportedResults.symm
      refine none_fits (by rw [gameSetReportedResults, accountsIs, reportsIs])
        fun i passes => ?_
      have inside := passes.inside
      omega
    | some reports =>
      rw [reportsIs] at reportedResults
      have reportCount : reports.length = game.count := reportedResults
      obtain ⟨i, slot, bound⟩ := find_account_spec account accounts game.count 0 (by omega)
      have only {other : Nat} (passes : Passes game account given other) : other = i := by
        have found := passes.slot
        rw [own, slot, Option.some.injEq] at found
        exact found.symm
      by_cases missing : i = game.count
      · have answer : gameSetReportedResults game account given = some (-1, game) := by
          simp [gameSetReportedResults, accountsIs, reportsIs, slot, missing]
        refine none_fits answer fun other passes => ?_
        have inside := passes.inside
        rw [only passes] at inside
        omega
      have inside : i < game.count := by omega
      have room : i < reports.length := by omega
      obtain ⟨again, refused, accepted⟩ :=
        set_reported_slot given accountsIs reportsIs slot inside room
      cases first : reports[i] with
      | some report =>
        refine none_fits (again (by rw [first]; rfl)) fun other passes => ?_
        obtain rfl := only passes
        have unreported := passes.unreported
        rw [reportsIs, getD_some, getElem?_eq_getElem room, first] at unreported
        cases unreported
      | none =>
        obtain ⟨taken, refusal⟩ := check_before i game.count 0 given (zero_le i)
          (by omega) (by omega)
        by_cases passing : (∃ result, given[i]? = some result ∧ isOutcome result = true) ∧
            ¬ BadIn given 0 i
        · obtain ⟨after, check, bad, good⟩ := check_behind i (0 + game.count - (i + 1))
            (i + 1) given (by omega) (by omega)
          have last : i + 1 + (0 + game.count - (i + 1)) = game.count := by omega
          rw [last] at bad good
          have answer := accepted after first ((taken passing).trans check)
          have passes : Passes game account given i := by
            refine ⟨by rw [own]; exact slot, inside, ?_, passing.1, passing.2⟩
            rw [reportsIs, getD_some, getElem?_eq_getElem room, first]
          rw [accepted_faithful passes.slot inside (by rw [reportsIs]; exact room)
            (by rw [reportsIs]; exact answer),
            kept_iff (by omega) passing.1 passing.2 bad good]
          exact ⟨fun fine other passes => only passes ▸ fine, fun fits => fits i passes⟩
        · exact none_fits (refused first (refusal passing)) fun other passes => by
            obtain rfl := only passes
            exact passing ⟨passes.own, passes.before⟩

def sampleGame : Game := gameOf [some 1, some 2] [1, 2] 1

/-- A bad entry before the reporter's own: the report is refused. -/
theorem bad_before_refused : Faithful sampleGame 2 [.unknown, .win] := by
  refine (reported_results_exact sampleGame 2 [.unknown, .win] rfl rfl (by decide)).mpr
    fun i passes => ?_
  have slot : i = 1 := by
    have found := passes.slot
    rw [show findAccount 2 sampleGame.accounts sampleGame.count 0 = some 1 from rfl,
      Option.some.injEq] at found
    exact found.symm
  subst slot
  exact absurd ⟨0, le_refl 0, by decide, rfl⟩ passes.before

/-- A bad entry behind the reporter's own: the own result is lost. -/
theorem own_result_lost : ¬ Faithful sampleGame 1 [.win, .unknown] := by
  rintro ⟨code, after, called, right⟩
  obtain ⟨rfl, rfl⟩ := called
  rcases right with ⟨-, i, stored, slot, -, kept, same⟩ | ⟨wrong, -⟩
  · rw [show findAccount 1 sampleGame.accounts sampleGame.count 0 = some 0 from rfl,
      Option.some.injEq] at slot
    subst slot
    have cells := congrArg (fun game : Game => game.reportedResults) same
    have first : [some [GameResult.none, .unknown], none] = [some stored, none] := by
      simpa [sampleGame, gameOf] using cells
    have own := kept.own
    rw [← Option.some.inj (List.cons.inj first).1] at own
    cases own
  · cases wrong

end Pvpgn.ReportCheck
