import Mathlib.Data.Finset.Card
import Mathlib.Data.List.ReduceOption

/-!
The two searches of a team list for the team of some players (`team.cpp`): by their accounts and by
their uids. The players fill the first slots of an array; the others are NULL, or 0.
-/

namespace Pvpgn.TeamSearch
open List Option UInt32

def maxTeamsize : Nat := 4

section Code
variable {Account : Type} [DecidableEq Account]

structure Team (Account : Type) where
  size : UInt8
  teamid : UInt32
  teammembers : List UInt32
  members : List (Option Account)
  clienttag : UInt32
  deriving DecidableEq

/-- The loop over `i` by accounts; the state is `size` and `found`. -/
def matchAccounts (members : List (Option Account)) : List (Option Account) → UInt8 × Bool →
    UInt8 × Bool
  | [], state => state
  | none :: _, state => state
  | some account :: rest, (size, _) =>
    if some account ∈ members then matchAccounts members rest (size + 1, true)
    else (size + 1, false)

/-- The traversal, with the `found` that the team before left. -/
def searchAccounts (accounts : List (Option Account)) (clienttag : UInt32) :
    Bool → List (Option (Team Account)) → Option (Team Account)
  | _, [] => none
  | found, none :: rest => searchAccounts accounts clienttag found rest
  | found, some cteam :: rest =>
    let (size, found) := matchAccounts cteam.members accounts (0, found)
    if found ∧ clienttag = cteam.clienttag ∧ size = cteam.size then some cteam
    else searchAccounts accounts clienttag found rest

def listFindTeamByAccounts (accounts : List (Option Account)) (clienttag : UInt32)
    (teamlist : Option (List (Option (Team Account)))) : Option (Team Account) :=
  match teamlist with
  | none => none
  | some teams => searchAccounts accounts clienttag false teams

/-- The loop over `i` by uids, which does not count. -/
def matchUids (teammembers : List UInt32) : List UInt32 → UInt8 × Bool → UInt8 × Bool
  | [], state => state
  | uid :: rest, (size, found) =>
    if uid = 0 then (size, found)
    else if uid ∈ teammembers then matchUids teammembers rest (size, true)
    else (size, false)

def searchUids (uids : List UInt32) (clienttag : UInt32) :
    Bool → List (Option (Team Account)) → Option (Team Account)
  | _, [] => none
  | found, none :: rest => searchUids uids clienttag found rest
  | found, some cteam :: rest =>
    let (size, found) := matchUids cteam.teammembers uids (0, found)
    if found ∧ clienttag = cteam.clienttag ∧ size = cteam.size then some cteam
    else searchUids uids clienttag found rest

def listFindTeamByUids (uids : List UInt32) (clienttag : UInt32)
    (teamlist : Option (List (Option (Team Account)))) : Option (Team Account) :=
  match teamlist with
  | none => none
  | some teams => searchUids uids clienttag false teams

/-- The record that `create_team` fills. -/
def createTeam (uidOf : Account → UInt32) (accounts : List (Option Account)) (clienttag : UInt32) :
    Team Account where
  size := UInt8.ofNat (accounts.countP isSome)
  teamid := 0
  teammembers := accounts.map fun account => account.elim 0 uidOf
  members := accounts
  clienttag

/-- `members` is filled again from the account list; a team with an unknown member is left out. -/
def teamlistAddTeam (accountOf : UInt32 → Option Account) (maxTeamid : UInt32)
    (teams : List (Option (Team Account))) (team : Team Account) :
    UInt32 × UInt32 × List (Option (Team Account)) :=
  let known := team.teammembers.take team.size.toNat
  if known.all fun uid => (accountOf uid).isSome then
    let members := known.map accountOf ++ team.members.drop team.size.toNat
    let maxTeamid := if team.teamid = 0 then maxTeamid + 1 else maxTeamid
    let teamid := if team.teamid = 0 then maxTeamid else team.teamid
    (teamid, maxTeamid, teams ++ [some { team with members, teamid }])
  else (team.teamid, maxTeamid, teams)

end Code

/-! What the searches are meant to find. -/

section Purpose
variable {Account : Type} [DecidableEq Account]

def accountSlots (players : List Account) : List (Option Account) :=
  players.map some ++ replicate (maxTeamsize - players.length) none

def uidSlots (uidOf : Account → UInt32) (players : List Account) : List UInt32 :=
  players.map uidOf ++ replicate (maxTeamsize - players.length) 0

/-- A team whose slots are filled with players, some of which may be the same. -/
def Filled (uidOf : Account → UInt32) (team : Team Account) : Prop :=
  ∃ players : List Account, players.length ≤ maxTeamsize ∧
    team.size = UInt8.ofNat players.length ∧ team.members = accountSlots players ∧
    team.teammembers = uidSlots uidOf players

/-- The team of exactly these players in a game. -/
def isTeamOf (players : List Account) (clienttag : UInt32) (team : Team Account) : Bool :=
  clienttag = team.clienttag && team.members.reduceOption.toFinset = players.toFinset

def firstTeam (players : List Account) (clienttag : UInt32) (teams : List (Option (Team Account))) :
    Option (Team Account) :=
  teams.reduceOption.find? (isTeamOf players clienttag)

end Purpose

section Accounts
variable {Account : Type} [DecidableEq Account]

theorem match_accounts (members : List (Option Account)) (players : List Account) (free : Nat)
    (size : UInt8) (found : Bool) :
    (matchAccounts members (players.map some ++ replicate free none) (size, found)).2 =
        (if players = [] then found else players.all fun player => some player ∈ members) ∧
      ((∀ player ∈ players, some player ∈ members) →
        (matchAccounts members (players.map some ++ replicate free none) (size, found)).1 =
          size + UInt8.ofNat players.length) := by
  induction players generalizing size found with
  | nil =>
    have stop :
        matchAccounts members (replicate free none) (size, found) = (size, found) := by
      cases free <;> rfl
    simp [stop]
  | cons player rest ih =>
    rw [map_cons, cons_append, matchAccounts]
    by_cases inside : some player ∈ members
    · rw [if_pos inside]
      obtain ⟨hit, counted⟩ := ih (size + 1) true
      refine ⟨?_, fun all => ?_⟩
      · rw [hit]
        cases rest <;> simp [inside]
      · rw [counted fun other member => all other (mem_cons_of_mem player member),
          length_cons, UInt8.add_assoc, Nat.add_comm, UInt8.ofNat_add]
        rfl
    · refine ⟨by simp [inside], fun all => ?_⟩
      exact absurd (all player mem_cons_self) inside

variable (players : List Account)

omit [DecidableEq Account] in
theorem mem_slots (player : Account) : some player ∈ accountSlots players ↔ player ∈ players := by
  simp [accountSlots]

omit [DecidableEq Account] in
theorem reduce_slots : (accountSlots players).reduceOption = players := by
  have kept : (players.map some).reduceOption = players := by
    rw [reduceOption, filterMap_map]
    exact filterMap_some
  simp [accountSlots, reduceOption_append, kept]

variable {given : List Account} {uidOf : Account → UInt32}

theorem same_players {players : List Account} (distinct : given.Nodup)
    (inside : ∀ player ∈ given, player ∈ players) (count : players.length = given.length) :
    players.toFinset = given.toFinset := by
  have part : given.toFinset ⊆ players.toFinset := by
    intro player member
    exact List.mem_toFinset.mpr (inside player (List.mem_toFinset.mp member))
  have few : players.toFinset.card ≤ given.toFinset.card := by
    rw [toFinset_card_of_nodup distinct, ← count]
    exact players.toFinset_card_le
  exact (Finset.eq_of_subset_of_card_le part few).symm

variable {team : Team Account}

theorem match_filled (filled : Filled uidOf team) (some_given : given ≠ [])
    (few : given.length ≤ maxTeamsize) (found : Bool) :
    (matchAccounts team.members (accountSlots given) (0, found)).2 = true ∧
        (matchAccounts team.members (accountSlots given) (0, found)).1 = team.size ↔
      (∀ player ∈ given, player ∈ team.members.reduceOption) ∧
        team.members.reduceOption.length = given.length := by
  obtain ⟨players, short, size, members, -⟩ := filled
  obtain ⟨hit, counted⟩ := match_accounts team.members given _ 0 found
  rw [if_neg some_given, all_eq] at hit
  rw [accountSlots, hit, size]
  simp only [members, reduce_slots, mem_slots, decide_eq_true_eq] at counted ⊢
  refine and_congr_right fun inside => ?_
  rw [counted inside, UInt8.zero_add, eq_comm, ← UInt8.toNat_inj, UInt8.toNat_ofNat',
    UInt8.toNat_ofNat']
  unfold maxTeamsize at short few
  rw [Nat.mod_eq_of_lt (by omega), Nat.mod_eq_of_lt (by omega)]

theorem accounts_found (some_given : given ≠ []) (few : given.length ≤ maxTeamsize)
    (distinct : given.Nodup) (clienttag : UInt32) {teams : List (Option (Team Account))}
    (filled : ∀ team, some team ∈ teams → Filled uidOf team) (found : Bool)
    (hit : searchAccounts (accountSlots given) clienttag found teams = some team) :
    some team ∈ teams ∧ isTeamOf given clienttag team = true := by
  induction teams generalizing found with
  | nil => cases hit
  | cons entry rest ih =>
    have later (found : Bool)
        (hit : searchAccounts (accountSlots given) clienttag found rest = some team) :
        some team ∈ entry :: rest ∧ isTeamOf given clienttag team = true := by
      obtain ⟨member, right⟩ := ih (fun team member =>
        filled team (mem_cons_of_mem entry member)) found hit
      exact ⟨mem_cons_of_mem entry member, right⟩
    cases entry with
    | none => exact later found hit
    | some cteam =>
      by_cases here : (matchAccounts cteam.members (accountSlots given) (0, found)).2 = true ∧
          clienttag = cteam.clienttag ∧
          (matchAccounts cteam.members (accountSlots given) (0, found)).1 = cteam.size
      · obtain rfl := some.inj ((if_pos here).symm.trans hit)
        obtain ⟨inside, count⟩ := (match_filled (filled cteam mem_cons_self) some_given few
          found).mp ⟨here.1, here.2.2⟩
        refine ⟨mem_cons_self, ?_⟩
        simp [isTeamOf, here.2.1, same_players distinct inside count]
      · exact later _ ((if_neg here).symm.trans hit)

end Accounts

section Uids
variable {Account : Type}

theorem match_uids_size (teammembers uids : List UInt32) (size : UInt8) (found : Bool) :
    (matchUids teammembers uids (size, found)).1 = size := by
  induction uids generalizing found with
  | nil => rfl
  | cons uid rest ih =>
    rw [matchUids]
    split
    · rfl
    · split
      · exact ih true
      · rfl

theorem uids_none (uidOf : Account → UInt32) (player : Account) (rest : List UInt32)
    (clienttag : UInt32) (teams : List (Option (Team Account)))
    (filled : ∀ team, some team ∈ teams → Filled uidOf team) (found : Bool)
    (start : uidOf player = 0 → found = false) :
    searchUids (uidOf player :: rest) clienttag found teams = none := by
  induction teams generalizing found with
  | nil => rfl
  | cons entry teams ih =>
    have later := ih fun team member => filled team (mem_cons_of_mem entry member)
    cases entry with
    | none => exact later found start
    | some cteam =>
      have stop : uidOf player = 0 →
          (matchUids cteam.teammembers (uidOf player :: rest) (0, found)).2 = false := by
        intro zero
        rw [matchUids, if_pos zero]
        exact start zero
      have missed : ¬((matchUids cteam.teammembers (uidOf player :: rest) (0, found)).2 = true ∧
          clienttag = cteam.clienttag ∧
          (matchUids cteam.teammembers (uidOf player :: rest) (0, found)).1 = cteam.size) := by
        rintro ⟨counted, -, size⟩
        -- The size that was counted is 0, which only a team without players has.
        rw [match_uids_size] at size
        obtain ⟨players, short, length, -, uids⟩ := filled cteam mem_cons_self
        have empty : players = [] := by
          rw [length, ← UInt8.toNat_inj, UInt8.toNat_ofNat'] at size
          unfold maxTeamsize at short
          rw [Nat.mod_eq_of_lt (by omega)] at size
          exact eq_nil_of_length_eq_zero size.symm
        by_cases zero : uidOf player = 0
        · exact Bool.false_ne_true ((stop zero).symm.trans counted)
        have absent : uidOf player ∉ cteam.teammembers := by
          rw [uids, empty]
          simp [uidSlots, zero]
        rw [matchUids, if_neg zero, if_neg absent] at counted
        cases counted
      exact (if_neg missed).trans (later _ stop)

end Uids

section Lists
variable {Account : Type}

theorem created_filled (uidOf : Account → UInt32) (players : List Account)
    (few : players.length ≤ maxTeamsize) (clienttag : UInt32) :
    Filled uidOf (createTeam uidOf (accountSlots players) clienttag) := by
  refine ⟨players, few, ?_, rfl, ?_⟩
  · have all : (players.map some).countP isSome = players.length := by
      rw [countP_map, countP_eq_length.mpr (by simp)]
    simp [createTeam, accountSlots, countP_append, countP_replicate, all]
  · simp [createTeam, accountSlots, uidSlots, Function.comp_def]

/-- The two searches give the first team of the players exactly when there is none, since the search
by uids finds none. -/
theorem searches_agree_iff [DecidableEq Account] (uidOf : Account → UInt32) (given : List Account)
    (some_given : given ≠ []) (few : given.length ≤ maxTeamsize) (distinct : given.Nodup)
    (clienttag : UInt32) (teams : List (Option (Team Account)))
    (filled : ∀ team, some team ∈ teams → Filled uidOf team) :
    (listFindTeamByAccounts (accountSlots given) clienttag (some teams) =
          firstTeam given clienttag teams ∧
        listFindTeamByUids (uidSlots uidOf given) clienttag (some teams) =
          firstTeam given clienttag teams) ↔
      ∀ team, some team ∈ teams → isTeamOf given clienttag team = false := by
  obtain ⟨player, rest, rfl⟩ := exists_cons_of_ne_nil some_given
  have byUids :
      listFindTeamByUids (uidSlots uidOf (player :: rest)) clienttag (some teams) = none :=
    uids_none uidOf player _ clienttag teams filled false fun _ => rfl
  have none_first : firstTeam (player :: rest) clienttag teams = none ↔
      ∀ team, some team ∈ teams → isTeamOf (player :: rest) clienttag team = false := by
    rw [firstTeam, find?_eq_none]
    simp only [reduceOption_mem_iff, Bool.not_eq_true]
  rw [byUids, ← none_first]
  refine ⟨fun ⟨_, same⟩ => same.symm, fun none => ⟨?_, none.symm⟩⟩
  rw [none, listFindTeamByAccounts]
  cases hit : searchAccounts (accountSlots (player :: rest)) clienttag false teams with
  | none => rfl
  | some team =>
    obtain ⟨member, right⟩ := accounts_found some_given few distinct clienttag filled false hit
    exact absurd right (by simp [none_first.mp none team member])

end Lists

/-- Players 5 and 7 have no team, 5 and 9 have one. -/
theorem no_team_yet :
    let teams := [some (createTeam ofNat (accountSlots [5, 9]) 3)]
    listFindTeamByAccounts (accountSlots [5, 7]) 3 (some teams) = firstTeam [5, 7] 3 teams ∧
      listFindTeamByUids (uidSlots ofNat [5, 7]) 3 (some teams) = firstTeam [5, 7] 3 teams := by
  refine (searches_agree_iff ofNat [5, 7] (by decide) (by decide) (by decide) 3 _ ?_).mpr ?_
  · intro team member
    obtain rfl := some.inj (mem_singleton.mp member)
    exact created_filled ofNat [5, 9] (by decide) 3
  · intro team member
    obtain rfl := some.inj (mem_singleton.mp member)
    decide

/-- The team of players 5 and 7 is found by their accounts and not by their uids. -/
theorem team_lost_by_uids :
    let team := createTeam ofNat (accountSlots [5, 7]) 3
    listFindTeamByAccounts (accountSlots [7, 5]) 3 (some [some team]) = some team ∧
      listFindTeamByUids (uidSlots ofNat [7, 5]) 3 (some [some team]) = none ∧
      firstTeam [7, 5] 3 [some team] = some team := by
  decide

end Pvpgn.TeamSearch
