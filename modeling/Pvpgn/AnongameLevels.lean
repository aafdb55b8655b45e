import Pvpgn.AnongameMatch

/-!
The levels of an automatic game's search (`anongame.cpp`, `tournament.cpp`): where a player's level
comes from, which lists of his queue the search indexes, and in which order.
-/

namespace Pvpgn.AnongameLevels
open AnongameMatch List Option

structure TournamentUser where
  wins : UInt32
  losses : UInt32
  ties : UInt32

def tournamentGetPlayerScore (user : Option TournamentUser) : Int :=
  match user with
  | none => 0
  | some user =>
    let score := (user.wins * 3 + user.ties - user.losses).toInt32.toInt
    if score < 0 then 0 else score

inductive LadderId
  | solo | ffa

/-- What `_anongame_level_by_queue` reads of a connection's account. -/
structure Accounts where
  ladderLevel : Conn → LadderId → Int
  tournamentUser : Conn → Option TournamentUser

def Accounts.level (accounts : Accounts) (c : Conn) (queue : Int) : Int :=
  if queue = type1v1 then accounts.ladderLevel c .solo
  else if queue = typeTy then tournamentGetPlayerScore (accounts.tournamentUser c)
  else accounts.ladderLevel c .ffa

def withLevels (accounts : Accounts) (env : Environment) : Environment :=
  { env with level := accounts.level }

/-! What a search indexes. -/

/-- The levels whose lists a search indexes, until it has found enough players, runs out of levels
or leaves an array. -/
def accesses (env : Environment) (world : World) (c : Conn) (queue : Nat) (level : Int) :
    Nat → Int → Progress → List Int
  | 0, _, _ => []
  | budget + 1, delta, progress =>
    if (delta.natAbs : Int) < env.maxleveldiff + 1 then
      let here :=
        if level + delta ≤ progress.maxlevel ∧ progress.minlevel ≤ level + delta then
          [level + delta]
        else []
      match visit env world c queue (level + delta) progress with
      | none => here
      | some (progress, enough) =>
        if enough then here
        else
          let delta := nextDelta level delta
          if level + delta < 0 then here
          else here ++ accesses env world c queue level budget delta progress
    else []

def matchAccesses (env : Environment) (world : World) (c : Conn) (queue : Nat)
    (mapPrefs : UInt32) : List Int :=
  let level := levelByQueue env c queue
  accesses env world c queue level (matchBudget env) 0 (startProgress env level mapPrefs)

/-- The levels that the loop over `delta` comes to when it is not left early; `none` when it does
not end in so many rounds. -/
def testedLevels (level diff : Int) : Nat → Int → Option (List Int)
  | 0, _ => none
  | budget + 1, delta =>
    if (delta.natAbs : Int) < diff + 1 then
      let next := nextDelta level delta
      if level + next < 0 then some [level + delta]
      else (testedLevels level diff budget next).map fun rest => (level + delta) :: rest
    else some []

/-- The levels of the window, each of them once, and the nearer ones first. -/
structure Ordered (level diff : Int) (levels : List Int) : Prop where
  once : levels.Nodup
  window : ∀ index, index ∈ levels ↔
    max 0 (level - diff) ≤ index ∧ index ≤ min ((maxLevel : Int) - 1) (level + diff)
  nearer : levels.Pairwise fun first second =>
    (first - level).natAbs ≤ (second - level).natAbs

def Unsuited (env : Environment) (world : World) (c : Conn) (queue : Nat) (mapPrefs : UInt32) :
    Prop :=
  ∀ level, ∀ md ∈ world.matchlists queue level, suits env c mapPrefs md = false

/-- The requests of a connection stay inside the table, whatever is in it. The loop ends, having
come to the levels of the window in order: a search that is left early, or whose window gets
smaller, indexes some of them, and one that finds nobody all of them. -/
structure Searches (env : Environment) (c : Conn) (queue : Nat) : Prop where
  queued : ∀ world mapPrefs, (anongameQueue env world c queue mapPrefs).isSome = true
  indexed : ∀ world mapPrefs, ∀ index ∈ matchAccesses env world c queue mapPrefs,
    0 ≤ index ∧ index < maxLevel
  visits : ∃ levels,
    testedLevels (levelByQueue env c queue) env.maxleveldiff (matchBudget env) 0 = some levels ∧
    Ordered (levelByQueue env c queue) env.maxleveldiff levels ∧
    ∀ world mapPrefs, (matchAccesses env world c queue mapPrefs).Sublist levels ∧
      (Unsuited env world c queue mapPrefs → matchAccesses env world c queue mapPrefs = levels)

/-! The order of the levels. -/

variable {first second : Int}

theorem rank_injective (same : rank first = rank second) : first = second := by
  unfold rank at same
  split_ifs at same <;> omega

theorem rank_nearer (before : rank first ≤ rank second) : first.natAbs ≤ second.natAbs := by
  unfold rank at before
  split_ifs at before <;> omega

section Order
variable {level diff : Int}

variable {delta : Int}

theorem next_delta_step (inside : 0 ≤ level) (room : level + diff < maxLevel)
    (near : (delta.natAbs : Int) < diff + 1) :
    0 ≤ level + nextDelta level delta ∧
      ∀ other, 0 ≤ level + other → rank delta < rank other →
        rank (nextDelta level delta) ≤ rank other := by
  unfold nextDelta
  simp only [maxLevel] at room ⊢
  constructor
  · split_ifs <;> omega
  · intro other exists_ later
    unfold rank at later ⊢
    split_ifs at later ⊢ <;> omega

theorem next_delta_toward (inside : 0 ≤ level) (small : level < maxLevel)
    (valid : 0 ≤ level + delta) (earlier : rank delta < rank (maxLevel - level)) :
    level + delta < maxLevel ∧ 0 ≤ level + nextDelta level delta ∧
      rank delta < rank (nextDelta level delta) ∧
      rank (nextDelta level delta) ≤ rank (maxLevel - level) := by
  have last : rank (maxLevel - level) = 2 * ((maxLevel : Int) - level).natAbs - 1 :=
    if_pos (by omega)
  rw [last] at earlier ⊢
  unfold rank at earlier
  simp only [maxLevel] at small earlier ⊢
  have below : level + delta < 100 ∧ delta.natAbs < ((100 : Int) - level).natAbs := by
    split_ifs at earlier <;> omega
  refine ⟨below.1, ?_, ?_, ?_⟩
  · unfold nextDelta
    simp only [maxLevel]
    split_ifs <;> omega
  · unfold rank nextDelta
    simp only [maxLevel]
    split_ifs <;> omega
  · unfold rank nextDelta
    simp only [maxLevel]
    split_ifs <;> omega

theorem tested_levels_rank (inside : 0 ≤ level) (room : level + diff < maxLevel) (budget : Nat)
    (delta : Int) (enough : 2 * diff.toNat + 3 ≤ budget + rank delta)
    (small : delta.natAbs ≤ diff.toNat + 1) (valid : 0 ≤ level + delta) :
    ∃ levels, testedLevels level diff budget delta = some levels ∧
      (∀ index, index ∈ levels ↔ 0 ≤ index ∧ ((index - level).natAbs : Int) < diff + 1 ∧
        rank delta ≤ rank (index - level)) ∧
      levels.Pairwise fun first second => rank (first - level) < rank (second - level) := by
  induction budget generalizing delta with
  | zero =>
    unfold rank at enough
    split at enough <;> omega
  | succ budget ih =>
    rw [testedLevels]
    by_cases near : (delta.natAbs : Int) < diff + 1
    · obtain ⟨later, nextSmall⟩ := nextDelta_rank level delta diff near room
      obtain ⟨nextValid, covers⟩ := next_delta_step inside room near
      obtain ⟨rest, runs, member, sorted⟩ :=
        ih (nextDelta level delta) (by omega) nextSmall nextValid
      have here : level + delta - level = delta := by omega
      refine ⟨(level + delta) :: rest, ?_, fun index => ?_, ?_⟩
      · rw [if_pos near, if_neg (by omega), runs]
        rfl
      · rw [mem_cons, member]
        constructor
        · rintro (rfl | ⟨exists_, close, behind⟩)
          · rw [here]
            exact ⟨valid, near, le_refl _⟩
          · exact ⟨exists_, close, by omega⟩
        · rintro ⟨exists_, close, behind⟩
          rcases Nat.eq_or_lt_of_le behind with same | beyond
          · have own := rank_injective same
            exact Or.inl (by omega)
          · exact Or.inr ⟨exists_, close, covers (index - level) (by omega) beyond⟩
      · refine pairwise_cons.mpr ⟨fun index old => ?_, sorted⟩
        rw [here]
        have behind := ((member index).mp old).2.2
        omega
    · refine ⟨[], if_neg near, fun index => ?_, List.Pairwise.nil⟩
      refine iff_of_false not_mem_nil fun all => ?_
      have nearer := rank_nearer all.2.2
      omega

theorem tested_levels_ordered (inside : 0 ≤ level) (room : level + diff < maxLevel)
    (small : level < maxLevel) : ∃ levels,
      testedLevels level diff (2 * diff.toNat + 3) 0 = some levels ∧ Ordered level diff levels := by
  obtain ⟨levels, runs, member, sorted⟩ := tested_levels_rank inside room (2 * diff.toNat + 3) 0
    (by omega) (by omega) (by omega)
  refine ⟨levels, runs, ?_, fun index => ?_, ?_⟩
  · refine sorted.imp fun later same => ?_
    rw [same] at later
    exact absurd later (Nat.lt_irrefl _)
  · rw [member]
    have first : rank 0 = 0 := rfl
    omega
  · exact sorted.imp fun later => rank_nearer later.le

end Order

/-! The searches. -/

section Searching
variable {env : Environment} {world : World} {c : Conn} {queue : Nat} {level : Int}

theorem accesses_sublist (budget : Nat) (delta : Int) (progress : Progress) (levels : List Int)
    (runs : testedLevels level env.maxleveldiff budget delta = some levels) :
    (accesses env world c queue level budget delta progress).Sublist levels := by
  induction budget generalizing delta progress levels with
  | zero => cases runs
  | succ budget ih =>
    rw [testedLevels] at runs
    rw [accesses]
    by_cases near : (delta.natAbs : Int) < env.maxleveldiff + 1
    · rw [if_pos near] at runs ⊢
      dsimp only at runs ⊢
      have here : (if level + delta ≤ progress.maxlevel ∧ progress.minlevel ≤ level + delta then
          [level + delta] else []).Sublist [level + delta] := by
        split_ifs
        · exact Sublist.refl _
        · exact nil_sublist _
      by_cases stop : level + nextDelta level delta < 0
      · rw [if_pos stop, some.injEq] at runs
        rw [← runs]
        split
        · exact here
        · rw [if_pos stop, ite_self]
          exact here
      rw [if_neg stop, map_eq_some_iff] at runs
      obtain ⟨rest, restRuns, rfl⟩ := runs
      have first : [level + delta].Sublist ((level + delta) :: rest) :=
        singleton_sublist.mpr mem_cons_self
      have whole := here.trans first
      split
      · exact whole
      rename_i after enough _
      cases enough with
      | true => exact whole
      | false =>
        rw [if_neg Bool.false_ne_true, if_neg stop]
        exact here.append (ih _ after rest restRuns)
    · rw [if_neg near] at runs ⊢
      exact nil_sublist levels

theorem traverse_unsuited (entries : List Matchdata) (progress : Progress)
    (unsuited : ∀ md ∈ entries, suits env c progress.curPrefs md = false) :
    AnongameMatch.traverse env world c queue level entries progress = some (progress, false) := by
  induction entries with
  | nil => rfl
  | cons md rest ih =>
    have here := unsuited md mem_cons_self
    rw [AnongameMatch.traverse, here, if_neg Bool.false_ne_true]
    exact ih fun other member => unsuited other (mem_cons_of_mem _ member)

theorem visit_unsuited (known : queue < anongameTypes) {progress : Progress}
    (unsuited : Unsuited env world c queue progress.curPrefs) (exists_ : 0 ≤ level)
    (inside : level < maxLevel) :
    visit env world c queue level progress = some (progress, false) := by
  rw [visit]
  by_cases window : level ≤ progress.maxlevel ∧ progress.minlevel ≤ level
  · rw [if_pos window, listAt, if_pos ⟨known, exists_, inside⟩]
    exact traverse_unsuited _ progress (unsuited level.toNat)
  · exact if_neg window

variable {mapPrefs : UInt32} {delta : Int}

theorem start_window (mapPrefs : UInt32) (near : (delta.natAbs : Int) < env.maxleveldiff + 1)
    (valid : 0 ≤ level + delta) :
    level + delta ≤ (startProgress env level mapPrefs).maxlevel ∧
      (startProgress env level mapPrefs).minlevel ≤ level + delta := by
  unfold startProgress
  dsimp only
  constructor
  · omega
  · split_ifs <;> omega

section
variable (known : queue < anongameTypes) (unsuited : Unsuited env world c queue mapPrefs)
include known unsuited

theorem accesses_unsuited (near : (delta.natAbs : Int) < env.maxleveldiff + 1)
    (valid : 0 ≤ level + delta) (inside : level + delta < maxLevel)
    (next : 0 ≤ level + nextDelta level delta) (budget : Nat) :
    accesses env world c queue level (budget + 1) delta (startProgress env level mapPrefs) =
      (level + delta) :: accesses env world c queue level budget (nextDelta level delta)
        (startProgress env level mapPrefs) := by
  have visits : visit env world c queue (level + delta) (startProgress env level mapPrefs) =
      some (startProgress env level mapPrefs, false) :=
    visit_unsuited known unsuited valid inside
  rw [accesses, if_pos near, visits, if_pos (start_window mapPrefs near valid)]
  dsimp only
  rw [if_neg Bool.false_ne_true, if_neg (by omega)]
  rfl

theorem accesses_all (inside : 0 ≤ level) (room : level + env.maxleveldiff < maxLevel)
    (budget : Nat) (delta : Int) (levels : List Int) (valid : 0 ≤ level + delta)
    (runs : testedLevels level env.maxleveldiff budget delta = some levels) :
    accesses env world c queue level budget delta (startProgress env level mapPrefs) = levels := by
  induction budget generalizing delta levels with
  | zero => cases runs
  | succ budget ih =>
    rw [testedLevels] at runs
    by_cases near : (delta.natAbs : Int) < env.maxleveldiff + 1
    · obtain ⟨next, _⟩ := next_delta_step inside room near
      rw [if_pos near] at runs
      rw [if_neg (by omega), map_eq_some_iff] at runs
      obtain ⟨rest, restRuns, rfl⟩ := runs
      rw [accesses_unsuited known unsuited near valid (by omega) next]
      exact congrArg _ (ih _ rest next restRuns)
    · rw [if_neg near, some.injEq] at runs
      rw [accesses, if_neg near, runs]

theorem accesses_end (inside : 0 ≤ level) (small : level < maxLevel)
    (wide : (maxLevel : Int) ≤ level + env.maxleveldiff) (budget : Nat) (delta : Int)
    (valid : 0 ≤ level + delta) (before : rank delta ≤ rank (maxLevel - level))
    (enough : rank (maxLevel - level) < budget + rank delta) :
    (maxLevel : Int) ∈
      accesses env world c queue level budget delta (startProgress env level mapPrefs) := by
  induction budget generalizing delta with
  | zero => omega
  | succ budget ih =>
    have close := rank_nearer before
    have near : (delta.natAbs : Int) < env.maxleveldiff + 1 := by omega
    rcases Nat.eq_or_lt_of_le before with same | earlier
    · obtain rfl := rank_injective same
      have last : level + (maxLevel - level) = maxLevel := by omega
      have window := start_window mapPrefs near valid
      have outside : visit env world c queue (level + (maxLevel - level))
          (startProgress env level mapPrefs) = none := by
        rw [visit, if_pos window, listAt, if_neg (by omega)]
        rfl
      rw [accesses, if_pos near, outside, if_pos window, last]
      exact mem_singleton_self _
    · obtain ⟨here, next, later, bounded⟩ := next_delta_toward inside small valid earlier
      rw [accesses_unsuited known unsuited near valid here next]
      exact mem_cons_of_mem _ (ih _ next bounded (by omega))

end

end Searching

/-! The exact condition. -/

theorem searches_iff (env : Environment) (c : Conn) (queue : Nat) (known : queue < anongameTypes) :
    Searches env c queue ↔ 0 ≤ levelByQueue env c queue ∧ levelByQueue env c queue < maxLevel ∧
      levelByQueue env c queue + env.maxleveldiff < maxLevel := by
  have queues (world : World) (mapPrefs : UInt32) :
      (anongameQueue env world c queue mapPrefs).isSome = true ↔
        0 ≤ levelByQueue env c queue ∧ levelByQueue env c queue < maxLevel := by
    rw [anongameQueue, if_neg (by omega), if_neg (by omega)]
    simp only [Int.toNat_natCast, listAt]
    by_cases inside : queue < anongameTypes ∧ 0 ≤ levelByQueue env c queue ∧
        levelByQueue env c queue < maxLevel
    · rw [if_pos inside]
      exact iff_of_true rfl inside.2
    · rw [if_neg inside]
      exact iff_of_false Bool.false_ne_true fun both => inside ⟨known, both⟩
  constructor
  · rintro ⟨queued, indexed, _⟩
    obtain ⟨inside, small⟩ := (queues emptyWorld 0).mp (queued emptyWorld 0)
    refine ⟨inside, small, ?_⟩
    by_contra wide
    have unsuited : Unsuited env emptyWorld c queue 0 := fun _ md member =>
      absurd member not_mem_nil
    have behind := accesses_end known unsuited inside small (by omega) (matchBudget env) 0
      (by omega) (Nat.zero_le _) (by unfold rank matchBudget; split_ifs <;> omega)
    exact absurd (indexed emptyWorld 0 _ behind).2 (Int.lt_irrefl _)
  · rintro ⟨inside, small, room⟩
    obtain ⟨levels, runs, ordered⟩ := tested_levels_ordered inside room small
    have part (world : World) (mapPrefs : UInt32) :
        (matchAccesses env world c queue mapPrefs).Sublist levels :=
      accesses_sublist (matchBudget env) 0 _ levels runs
    refine ⟨fun world mapPrefs => (queues world mapPrefs).mpr ⟨inside, small⟩,
      fun world mapPrefs index member => ?_, levels, runs, ordered, fun world mapPrefs =>
      ⟨part world mapPrefs, fun unsuited => ?_⟩⟩
    · have window := (ordered.window index).mp ((part world mapPrefs).subset member)
      omega
    · exact accesses_all known unsuited inside room (matchBudget env) 0 levels (by omega) runs

/-- The requests of a connection stay inside the table, and its search goes over the whole window in
order, exactly if its level and the highest one of its window are below `MAX_LEVEL`. -/
theorem level_search_exact (accounts : Accounts) (env : Environment) (c : Conn) (queue : Nat)
    (known : queue < anongameTypes) :
    Searches (withLevels accounts env) c queue ↔
      0 ≤ levelByQueue (withLevels accounts env) c queue ∧
      levelByQueue (withLevels accounts env) c queue < maxLevel ∧
      levelByQueue (withLevels accounts env) c queue + env.maxleveldiff < maxLevel :=
  searches_iff (withLevels accounts env) c queue known

def sampleAccounts (wins : UInt32) : Accounts where
  ladderLevel := fun _ _ => 10
  tournamentUser := fun _ => some ⟨wins, 0, 0⟩

theorem ladder_search_fits :
    Searches (withLevels (sampleAccounts 40) sampleEnvironment) 7 type1v1 :=
  (level_search_exact (sampleAccounts 40) sampleEnvironment 7 type1v1 (by decide)).mpr
    ⟨by decide, by decide, by decide⟩

/-- Thirty-two wins are a score of 96, whose window reaches over the end of the table. -/
theorem tournament_search_overruns :
    levelByQueue (withLevels (sampleAccounts 32) sampleEnvironment) 7 typeTy = 96 ∧
    ¬ Searches (withLevels (sampleAccounts 32) sampleEnvironment) 7 typeTy := by
  refine ⟨by decide +kernel, fun searches => ?_⟩
  have indexed := searches.indexed emptyWorld 0 100 (by decide +kernel)
  exact absurd indexed.2 (by decide)

end Pvpgn.AnongameLevels
