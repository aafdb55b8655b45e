import Pvpgn.CheckedArray
import Mathlib.Data.List.Perm.Basic
import Mathlib.Data.List.Infix
import Mathlib.Data.List.Sort

/-!
Finding players for an automatic game (`anongame.cpp`): the match lists by queue and level, the
search over the levels around a player's own, and the requests that fill and empty the lists.
An index outside the lists, or a missing game record that is read, is `none`.
-/

namespace Pvpgn.AnongameMatch
open Option Prod

abbrev Conn := Nat

def anongameTypes : Nat := 18
def maxLevel : Nat := 100
def anongameMaxGamecount : Nat := 12
def anongameMaxTeams : Nat := 4

/-! The queues, `ANONGAME_TYPE_*`. -/

def type1v1 : Nat := 0
def type2v2 : Nat := 1
def type3v3 : Nat := 2
def type4v4 : Nat := 3
def typeSmallFfa : Nat := 4
def typeAt2v2 : Nat := 5
def typeTeamFfa : Nat := 6
def typeAt3v3 : Nat := 7
def typeAt4v4 : Nat := 8
def typeTy : Nat := 9
def type5v5 : Nat := 10
def type6v6 : Nat := 11
def type2v2v2 : Nat := 12
def type3v3v3 : Nat := 13
def type4v4v4 : Nat := 14
def type2v2v2v2 : Nat := 15
def type3v3v3v3 : Nat := 16
def typeAt2v2v2 : Nat := 17

structure Matchdata where
  c : Conn
  mapPrefs : UInt32
  versiontag : Option (List UInt8)

structure Anongame where
  type : UInt8
  gametype : UInt8
  queue : Int
  mapPrefs : UInt32
  tid : UInt32
  tc : List (Option Conn)

structure World where
  matchlists : Nat → Nat → List Matchdata
  anongame : Conn → Option Anongame

/-- What is read elsewhere while a request is handled: the level of a connection's account for a
queue, its version tag, `war3_get_maxleveldiff`, the tournament, and what lies in memory where the
reordering reads past its players and sums. -/
structure Environment where
  level : Conn → Int → Int
  versiontag : Conn → Option (List UInt8)
  maxleveldiff : Int
  tournamentArranged : Bool
  tournamentPlayers : Nat
  stalePlayer : Nat → Int
  staleLevel : Nat → Int

def gametypeToQueue (type gametype : UInt8) : Int :=
  if type = 0 then
    match gametype.toNat with
    | 0 => type1v1
    | 1 => type2v2
    | 2 => type3v3
    | 3 => type4v4
    | 4 => typeSmallFfa
    | 5 => type5v5
    | 6 => type6v6
    | 7 => type2v2v2
    | 8 => type3v3v3
    | 9 => type4v4v4
    | 10 => type2v2v2v2
    | 11 => type3v3v3v3
    | _ => -1
  else if type = 1 then
    match gametype.toNat with
    | 0 => typeAt2v2
    | 2 => typeAt3v3
    | 3 => typeAt4v4
    | 4 => typeAt2v2v2
    | _ => -1
  else if type = 2 then typeTy
  else -1

def arranged (env : Environment) (queue : Int) : Bool :=
  if queue = typeAt2v2 ∨ queue = typeAt3v3 ∨ queue = typeAt4v4 ∨ queue = typeAt2v2v2 then true
  else if queue = typeTy then env.tournamentArranged
  else false

def totalplayers (env : Environment) (queue : Nat) : Nat :=
  if queue = type1v1 then 2
  else if queue = type2v2 ∨ queue = typeAt2v2 ∨ queue = typeSmallFfa then 4
  else if queue = type3v3 ∨ queue = typeAt3v3 ∨ queue = type2v2v2 ∨ queue = typeAt2v2v2 then 6
  else if queue = type4v4 ∨ queue = typeAt4v4 ∨ queue = typeTeamFfa ∨ queue = type2v2v2v2 then 8
  else if queue = type3v3v3 then 9
  else if queue = type5v5 then 10
  else if queue = type6v6 ∨ queue = type4v4v4 ∨ queue = type3v3v3v3 then 12
  else if queue = typeTy then env.tournamentPlayers
  else 0

def totalteams (queue : Nat) : Nat :=
  if queue = type1v1 ∨ queue = typeSmallFfa then 0
  else if queue = type2v2 ∨ queue = type3v3 ∨ queue = type4v4 ∨ queue = type5v5 ∨ queue = type6v6 ∨
    queue = typeAt2v2 ∨ queue = typeAt3v3 ∨ queue = typeAt4v4 then 2
  else if queue = type2v2v2 ∨ queue = type3v3v3 ∨ queue = type4v4v4 ∨ queue = typeAt2v2v2 then 3
  else if queue = typeTeamFfa ∨ queue = type2v2v2v2 ∨ queue = type3v3v3v3 then 4
  else if queue = typeTy then 2
  else 0

/-- The level that says where in a queue a connection belongs; arranged teams have none. -/
def levelByQueue (env : Environment) (c : Conn) (queue : Int) : Int :=
  if queue = typeAt2v2 ∨ queue = typeAt3v3 ∨ queue = typeAt4v4 ∨ queue = typeAt2v2v2 then 0
  else if 0 ≤ queue ∧ queue < anongameTypes then env.level c queue
  else -1

def setList (world : World) (queue level : Nat) (list : List Matchdata) : World :=
  { world with matchlists := fun otherQueue otherLevel =>
      if otherQueue = queue ∧ otherLevel = level then list
      else world.matchlists otherQueue otherLevel }

def listAt (world : World) (queue : Nat) (level : Int) : Option (List Matchdata) :=
  if queue < anongameTypes ∧ 0 ≤ level ∧ level < maxLevel then
    some (world.matchlists queue level.toNat)
  else none

def anongameQueue (env : Environment) (world : World) (c : Conn) (queue : Int)
    (mapPrefs : UInt32) : Option (Int × World) :=
  if (anongameTypes : Int) ≤ queue then some (-1, world)
  else if queue < 0 then none
  else do
    let level := levelByQueue env c queue
    let list ← listAt world queue.toNat level
    some (0, setList world queue.toNat level.toNat
      (list ++ [⟨c, mapPrefs, env.versiontag c⟩]))

/-- The first entry of a connection, by level and then by age, is removed. -/
def anongameUnqueue (world : World) (c : Conn) (queue : Int) : World :=
  if queue < 0 ∨ (anongameTypes : Int) ≤ queue then world
  else
    let queue := queue.toNat
    match (List.range maxLevel).find? fun level =>
        (world.matchlists queue level).any fun md => md.c = c with
    | none => world
    | some level =>
      setList world queue level ((world.matchlists queue level).eraseP fun md => md.c = c)

/-! The order of the players. -/

/-- `_anongame_compare_level` compares by the queue that a player's record names now. -/
def compareLevel (env : Environment) (world : World) (c : Conn) : Int :=
  levelByQueue env c (((world.anongame c).map fun a => a.queue % 256).getD 0)

def sortByLevel (env : Environment) (world : World) (players : List Conn) : List Conn :=
  players.insertionSort fun a b => compareLevel env world b ≤ compareLevel env world a

/-- For each outcome of the comparisons of the sums so far, from which of the next places each of
them takes its player. -/
def teamOrders : Nat → List (List (Nat × Nat) × List Nat)
  | 2 => [([(0, 1)], [1, 0])]
  | 3 => [
      ([(0, 1), (1, 2)], [2, 1, 0]),
      ([(0, 2), (2, 1)], [2, 0, 1]),
      ([(1, 0), (0, 2)], [1, 2, 0]),
      ([(1, 2), (2, 0)], [0, 2, 1]),
      ([(2, 0), (0, 1)], [1, 0, 2])]
  | 4 => [
      ([(0, 1), (1, 2), (2, 3)], [3, 2, 1, 0]),
      ([(0, 1), (1, 2), (3, 2)], [3, 2, 0, 1]),
      ([(0, 2), (2, 1), (1, 3)], [3, 1, 2, 0]),
      ([(0, 2), (2, 3), (3, 1)], [3, 0, 2, 1]),
      ([(0, 3), (3, 1), (1, 2)], [3, 1, 0, 2]),
      ([(0, 3), (3, 2), (2, 1)], [3, 0, 1, 2]),
      ([(1, 0), (0, 2), (2, 3)], [2, 3, 1, 0]),
      ([(1, 0), (0, 3), (3, 2)], [2, 3, 0, 1]),
      ([(1, 2), (2, 0), (0, 3)], [3, 0, 2, 1]),
      ([(1, 2), (2, 3), (3, 0)], [0, 2, 3, 1]),
      ([(1, 3), (3, 0), (0, 2)], [1, 3, 0, 2]),
      ([(1, 3), (3, 2), (2, 0)], [0, 3, 1, 2]),
      ([(2, 0), (0, 1), (1, 3)], [2, 1, 3, 0]),
      ([(2, 0), (0, 3), (3, 1)], [2, 0, 3, 1]),
      ([(2, 1), (1, 0), (0, 3)], [1, 2, 3, 0]),
      ([(2, 1), (1, 3), (3, 0)], [0, 2, 3, 1]),
      ([(2, 3), (3, 0), (0, 1)], [1, 0, 3, 2]),
      ([(2, 3), (3, 1), (1, 0)], [0, 1, 3, 2]),
      ([(3, 0), (0, 1), (1, 2)], [2, 1, 0, 3]),
      ([(3, 0), (0, 2), (2, 1)], [2, 0, 1, 3]),
      ([(3, 1), (1, 0), (0, 2)], [1, 2, 0, 3]),
      ([(3, 1), (1, 2), (2, 0)], [0, 2, 1, 3]),
      ([(3, 2), (2, 0), (0, 1)], [1, 0, 2, 3])]
  | _ => []

/-- The players from place `base` on are exchanged among each other. -/
def rearrange (players : List Conn) (base : Nat) (places : List Nat) : List Conn :=
  let block := (players.drop base).take places.length
  players.take base ++ places.filterMap (block[·]?) ++ players.drop (base + places.length)

/-- One round of `_anongame_order_queue`; the sums and the players are read at places that grow with
the round, also past their ends. -/
def orderRound (env : Environment) (queue teams ppt round : Nat)
    (state : List Conn × (Nat → Int)) : List Conn × (Nat → Int) :=
  let (players, sums) := state
  let levelAt (place : Nat) := match players[place]? with
    | some c => levelByQueue env c queue
    | none => env.stalePlayer place
  let sums := fun team => if team < teams then sums team + levelAt (round * ppt + team)
    else sums team
  let read (team : Nat) :=
    if round * teams + team < anongameMaxTeams then sums (round * teams + team)
    else env.staleLevel (round * teams + team)
  match (teamOrders teams).find? fun (tests, _) =>
      tests.all fun (first, second) => read second ≤ read first with
  | none => (players, sums)
  | some (_, places) => (rearrange players ((round + 1) * teams) places, sums)

def orderQueue (env : Environment) (queue : Nat) (players : List Conn) : List Conn :=
  let teams := totalteams queue
  if teams ≠ 0 ∧ !arranged env queue then
    let ppt := players.length / teams
    ((List.range (ppt - 1)).foldl (fun state round => orderRound env queue teams ppt round state)
      (players, fun _ => 0)).1
  else players

/-! The search. -/

/-- The window of levels and the maps that are left, and the entries chosen with their levels. -/
structure Progress where
  maxlevel : Int
  minlevel : Int
  curPrefs : UInt32
  chosen : List (Int × Matchdata)

/-- The entry suits the searching connection and the maps that are left. -/
def suits (env : Environment) (c : Conn) (curPrefs : UInt32) (md : Matchdata) : Bool :=
  match md.versiontag, env.versiontag c with
  | some left, some right => left = right && curPrefs &&& md.mapPrefs ≠ 0
  | _, _ => false

/-- `players[queue]` after some entries were chosen: of an arranged queue each is a whole team. -/
def playersOf (env : Environment) (queue chosen : Nat) : Nat :=
  if arranged env queue then chosen * (totalplayers env queue / totalteams queue) else chosen

/-- Whether there is room for one more entry in `inv_c` and `player[queue]`, and the record of an
arranged team's first member is there. -/
def takes (env : Environment) (world : World) (queue : Nat) (chosen : Nat) (md : Matchdata) :
    Bool :=
  if arranged env queue then
    chosen < anongameMaxTeams && (world.anongame md.c).isSome &&
      playersOf env queue (chosen + 1) ≤ anongameMaxGamecount
  else chosen < anongameMaxGamecount

/-- The entries of one level, until there are enough players. -/
def traverse (env : Environment) (world : World) (c : Conn) (queue : Nat) (level : Int) :
    List Matchdata → Progress → Option (Progress × Bool)
  | [], progress => some (progress, false)
  | md :: rest, progress =>
    if suits env c progress.curPrefs md then
      if takes env world queue progress.chosen.length md then
        let progress : Progress := {
          maxlevel := min (level + env.maxleveldiff) progress.maxlevel
          minlevel := max (level - env.maxleveldiff) progress.minlevel
          curPrefs := progress.curPrefs &&& md.mapPrefs
          chosen := progress.chosen ++ [(level, md)] }
        if playersOf env queue progress.chosen.length = totalplayers env queue then
          some (progress, true)
        else traverse env world c queue level rest progress
      else none
    else traverse env world c queue level rest progress

def nextDelta (level delta : Int) : Int :=
  let delta := if delta ≤ 0 ∨ level - delta < 0 then (delta.natAbs : Int) + 1 else -delta
  if (maxLevel : Int) < level + delta then -delta else delta

def visit (env : Environment) (world : World) (c : Conn) (queue : Nat) (level : Int)
    (progress : Progress) : Option (Progress × Bool) :=
  if level ≤ progress.maxlevel ∧ progress.minlevel ≤ level then do
    let list ← listAt world queue level
    traverse env world c queue level list progress
  else some (progress, false)

def matchLoop (env : Environment) (world : World) (c : Conn) (queue : Nat) (level : Int) :
    Nat → Int → Progress → Option (Progress × Bool)
  | 0, _, _ => none
  | budget + 1, delta, progress =>
    if (delta.natAbs : Int) < env.maxleveldiff + 1 then do
      let (progress, enough) ← visit env world c queue (level + delta) progress
      if enough then some (progress, true)
      else
        let delta := nextDelta level delta
        if level + delta < 0 then some (progress, false)
        else matchLoop env world c queue level budget delta progress
    else some (progress, false)

/-- More rounds than there are levels in the window at the start. -/
def matchBudget (env : Environment) : Nat := 2 * env.maxleveldiff.toNat + 3

/-- The players of an arranged game: the members of the teams by turns. -/
def arrangedPlayers (world : World) (teams total : Nat) (chosen : List (Int × Matchdata)) :
    List (Option Conn) :=
  (List.range total).map fun place =>
    (chosen[place % teams]?.bind fun entry => world.anongame entry.2.c).bind fun a =>
      (a.tc[place / teams]?).join

def startProgress (env : Environment) (level : Int) (mapPrefs : UInt32) : Progress where
  maxlevel := level + env.maxleveldiff
  minlevel := if level - env.maxleveldiff < 0 then 0 else level - env.maxleveldiff
  curPrefs := mapPrefs
  chosen := []

/-- `player[queue]` when enough players were found. -/
def anongameMatch (env : Environment) (world : World) (c : Conn) (queue : Nat) :
    Option (Option (List (Option Conn)) × World) := do
  let level := levelByQueue env c queue
  let a ← world.anongame c
  let (progress, enough) ← matchLoop env world c queue level (matchBudget env) 0
    (startProgress env level a.mapPrefs)
  if !enough then some (none, world)
  else
    let invited := progress.chosen.map fun entry => entry.2.c
    if arranged env queue then
      some (some (arrangedPlayers world (totalteams queue)
        (totalplayers env queue) progress.chosen),
        invited.foldl (fun world c => anongameUnqueue world c queue) world)
    else
      let players := orderQueue env queue (sortByLevel env world invited)
      some (some (players.map some),
        players.foldl (fun world c => anongameUnqueue world c queue) world)

/-! The requests. -/

/-- The options of `CLIENT_FINDANONGAME` with the fields of theirs that are read here; a team is
what the lookups of its members give. -/
inductive Search
  | search (mapPrefs : UInt32) (type gametype : UInt8)
  | atInviterSearch (tid mapPrefs : UInt32) (type gametype : UInt8) (team : List (Option Conn))
  | atSearch (tid : UInt32) (team : List (Option Conn))

/-- `conn_create_anongame` -/
def newAnongame : Anongame :=
  ⟨0, 0, 0, 0xffffffff, 0, List.replicate (anongameMaxGamecount / 2) none⟩

def setAnongame (world : World) (c : Conn) (a : Option Anongame) : World :=
  { world with anongame := fun other => if other = c then a else world.anongame other }

/-- The places of `tc` that a team fills. -/
def fillTeam (old : List (Option Conn)) (team : List Conn) : List (Option Conn) :=
  team.map some ++ old.drop team.length

/-- One member gets the inviter's choices; whether all members so far sent the same `tid`. -/
def inviteMember (a : Anongame) (team : List Conn) (state : World × Bool) (member : Conn) :
    World × Bool :=
  let (world, set) := state
  let ta := (world.anongame member).getD newAnongame
  let joined : Anongame := { ta with
    type := a.type
    gametype := a.gametype
    queue := a.queue
    mapPrefs := a.mapPrefs
    tc := fillTeam ta.tc team }
  (setAnongame world member (some joined), set && ta.tid = a.tid)

def inviteTeam (a : Anongame) (team : List Conn) (world : World) : World × Bool :=
  team.foldl (inviteMember a team) (world, true)

/-- The connections of a team, when each was found and all fit `tc`; a team without a member leaves
`tc[0]` unset. -/
def lookupTeam (team : List (Option Conn)) : Option (Option (Conn × List Conn)) :=
  if (team.take (anongameMaxGamecount / 2)).any isNone then some none
  else if anongameMaxGamecount / 2 < team.length then none
  else match team.filterMap id with
    | [] => none
    | first :: rest => some (some (first, rest))

/-- Who is put in a queue, in which, and with which maps. -/
structure Ticket where
  target : Conn
  queue : Int
  mapPrefs : UInt32

/-- `_handle_anongame_search` up to its call of `_anongame_queue`. -/
def prepareSearch (world : World) (c : Conn) : Search → Option (World × Option Ticket)
  | .search mapPrefs type gametype =>
    let queue := gametypeToQueue type gametype
    let a : Anongame := { (world.anongame c).getD newAnongame with
      mapPrefs := mapPrefs
      type := type
      gametype := gametype
      queue := queue }
    if queue < 0 then some (setAnongame world c (some a), none)
    else some (setAnongame world c (some { a with tc := fillTeam a.tc [c] }),
      some ⟨c, queue, mapPrefs⟩)
  | .atInviterSearch tid mapPrefs type gametype team =>
    let queue := gametypeToQueue type gametype
    let a : Anongame := { (world.anongame c).getD newAnongame with
      tid := tid
      mapPrefs := mapPrefs
      type := type
      gametype := gametype
      queue := queue }
    let world := setAnongame world c (some a)
    if queue < 0 then some (world, none)
    else (lookupTeam team).map fun
      | none => (world, none)
      | some (first, rest) =>
        let (world, set) := inviteTeam a (first :: rest) world
        (world, if set then some ⟨first, queue, mapPrefs⟩ else none)
  | .atSearch tid team =>
    let a : Anongame := { (world.anongame c).getD newAnongame with tid := tid }
    let world := setAnongame world c (some a)
    (lookupTeam team).map fun
      | none => (world, none)
      | some (first, rest) =>
        let set := (first :: rest).all fun member =>
          (world.anongame member).any fun ta => ta.tid = tid
        (world, if set then some ⟨first, a.queue, a.mapPrefs⟩ else none)

/-- The rest of `_handle_anongame_search`. -/
def serveTicket (env : Environment) (world : World) (c : Conn) (ticket : Ticket) :
    Option World := do
  let (code, world) ← anongameQueue env world ticket.target ticket.queue ticket.mapPrefs
  if code < 0 then some world
  else
    let (_, world) ← anongameMatch env world c ticket.queue.toNat
    some world

def handleAnongameSearch (env : Environment) (world : World) (c : Conn) (request : Search) :
    Option World := do
  let (world, ticket) ← prepareSearch world c request
  ticket.elim (some world) fun ticket => serveTicket env world c ticket

/-- `conn_destroy_anongame` -/
def destroyAnongame (env : Environment) (world : World) (c : Conn) : World :=
  match world.anongame c with
  | none => world
  | some a =>
    let world :=
      if arranged env a.queue then
        (a.tc[0]?.join).elim world fun first => anongameUnqueue world first a.queue
      else anongameUnqueue world c a.queue
    setAnongame world c none

/-- `_client_anongame_cancel` -/
def anongameCancel (env : Environment) (world : World) (c : Conn) : World :=
  match world.anongame c with
  | none => world
  | some a => (a.tc.filterMap id).foldl (fun world c => destroyAnongame env world c) world

inductive Event
  | search (c : Conn) (request : Search)
  | cancel (c : Conn)
  | leave (c : Conn)

def step (env : Environment) (world : World) : Event → Option World
  | .search c request => handleAnongameSearch env world c request
  | .cancel c => some (anongameCancel env world c)
  | .leave c => some (destroyAnongame env world c)

/-- `anongame_matchlists_create` -/
def emptyWorld : World := ⟨fun _ _ => [], fun _ => none⟩

/-! Entries of one connection. -/

structure QueuedOnce (world : World) (queue : Nat) : Prop where
  level : ∀ level < maxLevel, ((world.matchlists queue level).map fun md => md.c).Nodup
  levels : ∀ first < maxLevel, ∀ second < maxLevel, first ≠ second →
    ∀ left ∈ world.matchlists queue first, ∀ right ∈ world.matchlists queue second, left.c ≠ right.c

variable (env : Environment) (world : World) (c : Conn) (queue level : Nat) (after : World)
  (list : List Matchdata)

@[simp] theorem setAnongame_matchlists (a : Option Anongame) :
    (setAnongame world c a).matchlists = world.matchlists := rfl

theorem setList_same : (setList world queue level list).matchlists queue level = list := by
  simp [setList]

theorem setList_other (otherQueue otherLevel : Nat)
    (differs : ¬ (otherQueue = queue ∧ otherLevel = level)) :
    (setList world queue level list).matchlists otherQueue otherLevel =
      world.matchlists otherQueue otherLevel := by
  simp [setList, differs]

theorem QueuedOnce.shrink {before after : World} {queue : Nat} (once : QueuedOnce before queue)
    (smaller : ∀ level, (after.matchlists queue level).Sublist (before.matchlists queue level)) :
    QueuedOnce after queue where
  level := fun level inside => (once.level level inside).sublist ((smaller level).map _)
  levels := fun first firstInside second secondInside differs left leftIn right rightIn =>
    once.levels first firstInside second secondInside differs left ((smaller first).subset leftIn)
      right ((smaller second).subset rightIn)

theorem anongameUnqueue_sublist (queue : Int) (other level : Nat) :
    ((anongameUnqueue world c queue).matchlists other level).Sublist
      (world.matchlists other level) := by
  unfold anongameUnqueue
  split
  · exact List.Sublist.refl _
  dsimp only
  split
  · exact List.Sublist.refl _
  rename_i found foundIs
  by_cases same : other = queue.toNat ∧ level = found
  · obtain ⟨rfl, rfl⟩ := same
    rw [setList_same]
    exact List.eraseP_sublist
  · rw [setList_other _ _ _ _ _ _ same]

theorem eraseP_eq_filter_of_nodup (nodup : (list.map fun md => md.c).Nodup) :
    list.eraseP (fun md => md.c = c) = list.filter fun md => md.c ≠ c := by
  induction list with
  | nil => rfl
  | cons md rest ih =>
    simp only [List.map_cons, List.nodup_cons] at nodup
    by_cases same : md.c = c
    · have rest_keeps : rest.filter (fun md => md.c ≠ c) = rest := by
        refine List.filter_eq_self.mpr fun other present => ?_
        have differs : other.c ≠ md.c := fun equal =>
          nodup.1 (equal ▸ List.mem_map_of_mem present)
        simpa [same] using differs
      simp only [same, decide_true, List.eraseP_cons_of_pos]
      rw [List.filter_cons_of_neg (by simp [same]), rest_keeps]
    · rw [List.eraseP_cons_of_neg (by simp [same]), List.filter_cons_of_pos (by simp [same]),
        ih nodup.2]

theorem anongameUnqueue_filter (known : queue < anongameTypes) (once : QueuedOnce world queue)
    (inside : level < maxLevel) :
    (anongameUnqueue world c queue).matchlists queue level =
      (world.matchlists queue level).filter fun md => md.c ≠ c := by
  have keeps_filter (absent : ∀ md ∈ world.matchlists queue level, md.c ≠ c) :
      (world.matchlists queue level).filter (fun md => md.c ≠ c) = world.matchlists queue level :=
    List.filter_eq_self.mpr fun md present => by simpa using absent md present
  unfold anongameUnqueue
  rw [if_neg (by omega)]
  simp only [Int.toNat_natCast]
  split
  · rename_i notFound
    rw [keeps_filter]
    intro md present same
    have missing := List.find?_eq_none.mp notFound level (List.mem_range.mpr inside)
    simp only [List.any_eq_true, decide_eq_true_eq, not_exists, not_and] at missing
    exact missing md present same
  rename_i found foundIs
  have foundInside : found < maxLevel := List.mem_range.mp (List.mem_of_find?_eq_some foundIs)
  have holder := List.find?_some foundIs
  simp only [List.any_eq_true, decide_eq_true_eq] at holder
  obtain ⟨entry, entryIn, entryOf⟩ := holder
  by_cases same : level = found
  · subst same
    rw [setList_same, eraseP_eq_filter_of_nodup c _ (once.level level inside)]
  rw [setList_other _ _ _ _ _ _ (by simp [same]), keeps_filter]
  intro md present equal
  exact once.levels level inside found foundInside same md present entry entryIn
    (equal.trans entryOf.symm)

theorem unqueueAll_sublist (queue : Int) (players : List Conn) (world : World) (other level : Nat) :
    ((players.foldl (fun world c => anongameUnqueue world c queue) world).matchlists other
      level).Sublist (world.matchlists other level) := by
  induction players generalizing world with
  | nil => exact List.Sublist.refl _
  | cons c rest ih => exact (ih _).trans (anongameUnqueue_sublist world c queue other level)

theorem unqueueAll_filter (known : queue < anongameTypes) (inside : level < maxLevel)
    (players : List Conn) (world : World) (once : QueuedOnce world queue) :
    (players.foldl (fun world c => anongameUnqueue world c queue) world).matchlists queue level =
      (world.matchlists queue level).filter fun md => md.c ∉ players := by
  induction players generalizing world with
  | nil => simp
  | cons c rest ih =>
    have shrunk := once.shrink fun level => anongameUnqueue_sublist world c queue queue level
    rw [List.foldl_cons, ih _ shrunk,
      anongameUnqueue_filter world c queue level known once inside, List.filter_filter]
    refine List.filter_congr fun md _ => ?_
    simp [Bool.and_comm]

theorem anongameQueue_cases (c : Conn) (queue code : Int) (mapPrefs : UInt32)
    (queued : anongameQueue env world c queue mapPrefs = some (code, after)) :
    (code = -1 ∧ after = world) ∨
      ∃ place level : Nat, queue = place ∧ place < anongameTypes ∧
        levelByQueue env c queue = level ∧ level < maxLevel ∧ code = 0 ∧
        after = setList world place level
          (world.matchlists place level ++ [⟨c, mapPrefs, env.versiontag c⟩]) := by
  unfold anongameQueue at queued
  by_cases tooLarge : (anongameTypes : Int) ≤ queue
  · rw [if_pos tooLarge] at queued
    simp only [some.injEq, mk.injEq] at queued
    exact .inl ⟨queued.1.symm, queued.2.symm⟩
  rw [if_neg tooLarge] at queued
  by_cases negative : queue < 0
  · simp [negative] at queued
  rw [if_neg negative] at queued
  simp only [bind_eq_bind, bind_eq_some_iff] at queued
  obtain ⟨list, listIs, resultIs⟩ := queued
  unfold listAt at listIs
  split at listIs
  · simp only [some.injEq, mk.injEq] at listIs resultIs
    refine .inr ⟨queue.toNat, (levelByQueue env c queue).toNat, by omega, by omega, by omega,
      by omega, resultIs.1.symm, ?_⟩
    rw [← resultIs.2, ← listIs]
  · cases listIs

theorem anongameQueue_once (c : Conn) (queue code : Int) (mapPrefs : UInt32)
    (queued : anongameQueue env world c queue mapPrefs = some (code, after)) (other : Nat)
    (once : QueuedOnce world other)
    (absent : queue = other → ∀ level < maxLevel, ∀ md ∈ world.matchlists other level, md.c ≠ c) :
    QueuedOnce after other := by
  obtain ⟨_, rfl⟩ | ⟨place, level, rfl, _, _, levelInside, _, rfl⟩ :=
    anongameQueue_cases env world after c queue code mapPrefs queued
  · exact once
  by_cases same : other = place
  · subst same
    have lists (at_level : Nat) :
        (setList world other level (world.matchlists other level ++
          [⟨c, mapPrefs, env.versiontag c⟩])).matchlists other at_level =
        world.matchlists other at_level ++
          if at_level = level then [⟨c, mapPrefs, env.versiontag c⟩] else [] := by
      by_cases here : at_level = level
      · rw [here, setList_same, if_pos rfl]
      · rw [setList_other _ _ _ _ _ _ (by simp [here]), if_neg here, List.append_nil]
    refine ⟨fun at_level inside => ?_, fun first firstInside second secondInside differs
      left leftIn right rightIn => ?_⟩
    · rw [lists, List.map_append, List.nodup_append]
      refine ⟨once.level at_level inside, by split <;> simp, ?_⟩
      intro old oldIn new newIn equal
      obtain ⟨md, present, rfl⟩ := List.mem_map.mp oldIn
      have newIs : new = c := by
        split at newIn
        · simpa using newIn
        · simp at newIn
      exact absent rfl at_level inside md present (equal.trans newIs)
    rw [lists, List.mem_append] at leftIn rightIn
    have isNew (at_level : Nat) (md : Matchdata) (present : md ∈ (if at_level = level then
        [(⟨c, mapPrefs, env.versiontag c⟩ : Matchdata)] else [])) :
        at_level = level ∧ md.c = c := by
      split at present
      · rename_i here
        simp only [List.mem_singleton] at present
        exact ⟨here, by rw [present]⟩
      · cases present
    rcases leftIn with leftOld | leftNew
    · rcases rightIn with rightOld | rightNew
      · exact once.levels first firstInside second secondInside differs left leftOld right
          rightOld
      · rw [(isNew second right rightNew).2]
        exact absent rfl first firstInside left leftOld
    · obtain ⟨firstIs, leftIs⟩ := isNew first left leftNew
      rcases rightIn with rightOld | rightNew
      · rw [leftIs]
        exact fun equal => absent rfl second secondInside right rightOld equal.symm
      · exact absurd (firstIs.trans (isNew second right rightNew).1.symm) differs
  · exact once.shrink fun at_level => by
      rw [setList_other _ _ _ _ _ _ (by simp [same])]

/-! What a search has chosen so far. -/

/-- The entries chosen so far are entries of the queue, of different connections, that suit each
other, and the window of levels and the maps that are left suit them all. -/
structure Gathered (env : Environment) (world : World) (c : Conn) (queue : Nat)
    (progress : Progress) : Prop where
  listed : ∀ entry ∈ progress.chosen, ∃ level : Nat, entry.1 = level ∧ level < maxLevel ∧
    entry.2 ∈ world.matchlists queue level
  tagged : ∀ entry ∈ progress.chosen, ∃ tag, env.versiontag c = some tag ∧
    entry.2.versiontag = some tag
  shared : ∀ entry ∈ progress.chosen, progress.curPrefs &&& entry.2.mapPrefs = progress.curPrefs
  mapLeft : progress.chosen ≠ [] → progress.curPrefs ≠ 0
  above : ∀ entry ∈ progress.chosen, progress.maxlevel ≤ entry.1 + env.maxleveldiff
  below : ∀ entry ∈ progress.chosen, entry.1 - env.maxleveldiff ≤ progress.minlevel
  near : ∀ left ∈ progress.chosen, ∀ right ∈ progress.chosen, left.1 - right.1 ≤ env.maxleveldiff
  distinct : (progress.chosen.map fun entry => entry.2.c).Nodup
  floor : 0 ≤ progress.minlevel
  ceiling : progress.maxlevel < maxLevel

theorem gathered_start (level : Int) (mapPrefs : UInt32)
    (levelInside : level + env.maxleveldiff < maxLevel) :
    Gathered env world c queue (startProgress env level mapPrefs) where
  listed := by simp [startProgress]
  tagged := by simp [startProgress]
  shared := by simp [startProgress]
  mapLeft := by simp [startProgress]
  above := by simp [startProgress]
  below := by simp [startProgress]
  near := by simp [startProgress]
  distinct := by simp [startProgress]
  floor := by
    unfold startProgress
    dsimp only
    split <;> omega
  ceiling := levelInside

variable (players : List Conn) {progress : Progress}

theorem Gathered.take {env : Environment} {world : World} {c : Conn} {queue : Nat}
    (gathered : Gathered env world c queue progress) (level : Nat) (md : Matchdata)
    (present : md ∈ world.matchlists queue level)
    (window : progress.minlevel ≤ level ∧ level ≤ progress.maxlevel) (wide : 0 ≤ env.maxleveldiff)
    (fresh : ∀ entry ∈ progress.chosen, entry.2.c ≠ md.c)
    (suited : suits env c progress.curPrefs md = true) :
    Gathered env world c queue {
      maxlevel := min (level + env.maxleveldiff) progress.maxlevel
      minlevel := max (level - env.maxleveldiff) progress.minlevel
      curPrefs := progress.curPrefs &&& md.mapPrefs
      chosen := progress.chosen ++ [((level : Int), md)] } := by
  have ceiling := gathered.ceiling
  have floor := gathered.floor
  have suitedTags : (∃ tag, env.versiontag c = some tag ∧ md.versiontag = some tag) ∧
      progress.curPrefs &&& md.mapPrefs ≠ 0 := by
    unfold suits at suited
    split at suited
    · rename_i leftTag rightTag leftIs rightIs
      simp only [Bool.and_eq_true, decide_eq_true_eq] at suited
      exact ⟨⟨rightTag, rightIs, by rw [leftIs, suited.1]⟩, suited.2⟩
    · cases suited
  constructor
  · intro entry entryIn
    rcases List.mem_append.mp entryIn with old | new
    · exact gathered.listed entry old
    · rw [List.mem_singleton.mp new]
      exact ⟨level, rfl, by omega, present⟩
  · intro entry entryIn
    rcases List.mem_append.mp entryIn with old | new
    · exact gathered.tagged entry old
    · rw [List.mem_singleton.mp new]
      exact suitedTags.1
  · intro entry entryIn
    rcases List.mem_append.mp entryIn with old | new
    · calc
        progress.curPrefs &&& md.mapPrefs &&& entry.2.mapPrefs
            = progress.curPrefs &&& entry.2.mapPrefs &&& md.mapPrefs := by
              rw [UInt32.and_assoc, UInt32.and_comm md.mapPrefs, ← UInt32.and_assoc]
        _ = progress.curPrefs &&& md.mapPrefs := by rw [gathered.shared entry old]
    · rw [List.mem_singleton.mp new, UInt32.and_assoc, UInt32.and_self]
  · exact fun _ => suitedTags.2
  · intro entry entryIn
    dsimp only
    rcases List.mem_append.mp entryIn with old | new
    · have := gathered.above entry old
      omega
    · rw [List.mem_singleton.mp new]
      omega
  · intro entry entryIn
    dsimp only
    rcases List.mem_append.mp entryIn with old | new
    · have := gathered.below entry old
      omega
    · rw [List.mem_singleton.mp new]
      omega
  · intro left leftIn right rightIn
    -- an old entry's level is within the difference of every level that was inside the window
    rcases List.mem_append.mp leftIn with leftOld | leftNew <;>
      rcases List.mem_append.mp rightIn with rightOld | rightNew
    · exact gathered.near left leftOld right rightOld
    · have := gathered.below left leftOld
      rw [List.mem_singleton.mp rightNew]
      omega
    · have := gathered.above right rightOld
      rw [List.mem_singleton.mp leftNew]
      omega
    · rw [List.mem_singleton.mp leftNew, List.mem_singleton.mp rightNew]
      omega
  · rw [List.map_append, List.nodup_append]
    refine ⟨gathered.distinct, by simp, ?_⟩
    intro old oldIn new newIn
    obtain ⟨entry, entryIn, rfl⟩ := List.mem_map.mp oldIn
    simp only [List.map_cons, List.map_nil, List.mem_singleton] at newIn
    exact newIn ▸ fresh entry entryIn
  · dsimp only
    omega
  · dsimp only
    omega

theorem traverse_gathers (single : arranged env queue = false)
    (room : totalplayers env queue ≤ anongameMaxGamecount) (once : QueuedOnce world queue)
    (wide : 0 ≤ env.maxleveldiff) (todo done : List Matchdata)
    (listIs : world.matchlists queue level = done ++ todo) (progress : Progress)
    (gathered : Gathered env world c queue progress)
    (few : progress.chosen.length < totalplayers env queue)
    (window : progress.minlevel ≤ level ∧ level ≤ progress.maxlevel)
    (here : ∀ entry ∈ progress.chosen, entry.1 = level → entry.2 ∈ done) :
    ∃ after enough, traverse env world c queue level todo progress = some (after, enough) ∧
      Gathered env world c queue after ∧
      (enough = true → after.chosen.length = totalplayers env queue) ∧
      (enough = false → after.chosen.length < totalplayers env queue) ∧
      ∀ entry ∈ after.chosen, entry ∈ progress.chosen ∨ entry.1 = level := by
  have inside : level < maxLevel := by
    have := gathered.ceiling
    omega
  induction todo generalizing done progress with
  | nil => exact ⟨progress, false, rfl, gathered, by simp, fun _ => few, fun entry old => .inl old⟩
  | cons md rest ih =>
    have present : md ∈ world.matchlists queue level := by simp [listIs]
    have listIs' : world.matchlists queue level = (done ++ [md]) ++ rest := by simp [listIs]
    unfold traverse
    by_cases suited : suits env c progress.curPrefs md = true
    · have takesIt : takes env world queue progress.chosen.length md = true := by
        simp only [takes, single, Bool.false_eq_true, if_false, decide_eq_true_eq]
        omega
      have fresh : ∀ entry ∈ progress.chosen, entry.2.c ≠ md.c := by
        intro entry old same
        obtain ⟨entryLevel, levelIs, entryInside, entryPresent⟩ := gathered.listed entry old
        by_cases sameLevel : entryLevel = level
        · have nodup := once.level level inside
          rw [listIs, List.map_append, List.nodup_append] at nodup
          exact nodup.2.2 entry.2.c
            (List.mem_map_of_mem (here entry old (by rw [levelIs, sameLevel]))) md.c
            (by simp) same
        · exact once.levels entryLevel entryInside level inside sameLevel entry.2 entryPresent md
            present same
      have taken := gathered.take level md present window wide fresh suited
      rw [if_pos suited, if_pos takesIt]
      by_cases enough : playersOf env queue (progress.chosen ++ [((level : Int), md)]).length =
          totalplayers env queue
      · rw [if_pos enough]
        refine ⟨_, true, rfl, taken, fun _ => ?_, by simp, fun entry present => ?_⟩
        · simpa [playersOf, single] using enough
        · rcases List.mem_append.mp present with old | new
          · exact .inl old
          · exact .inr (by rw [List.mem_singleton.mp new])
      rw [if_neg enough]
      have fewer : (progress.chosen ++ [((level : Int), md)]).length < totalplayers env queue := by
        simp only [playersOf, single, Bool.false_eq_true, if_false, List.length_append,
          List.length_singleton] at enough ⊢
        omega
      obtain ⟨after, finished, resultIs, afterGathered, whenEnough, whenFew, sources⟩ :=
        ih (done ++ [md]) listIs' _ taken fewer (by dsimp only; omega)
          fun entry entryIn at_level => by
          rcases List.mem_append.mp entryIn with old | new
          · exact List.mem_append_left _ (here entry old at_level)
          · rw [List.mem_singleton.mp new]
            simp
      refine ⟨after, finished, resultIs, afterGathered, whenEnough, whenFew, ?_⟩
      intro entry entryIn
      rcases sources entry entryIn with taken | at_level
      · rcases List.mem_append.mp taken with old | new
        · exact .inl old
        · exact .inr (by rw [List.mem_singleton.mp new])
      · exact .inr at_level
    · rw [if_neg suited]
      exact ih (done ++ [md]) listIs' progress gathered few window fun entry old at_level =>
        List.mem_append_left _ (here entry old at_level)

def rank (delta : Int) : Nat :=
  if 0 < delta then 2 * delta.natAbs - 1 else 2 * delta.natAbs

/-- No level is visited twice, and each next one is at most one further away. -/
theorem nextDelta_rank (level delta diff : Int) (small : (delta.natAbs : Int) < diff + 1)
    (levelInside : level + diff < maxLevel) :
    rank delta < rank (nextDelta level delta) ∧
      (nextDelta level delta).natAbs ≤ diff.toNat + 1 := by
  unfold nextDelta rank
  simp only [maxLevel] at levelInside ⊢
  constructor <;> split_ifs <;> omega

-- The levels around 10 in the order of the search.
example : [0, 1, -1, 2].map (nextDelta 10) = [1, -1, 2, -2] := by decide +kernel

section
variable (known : queue < anongameTypes) (single : arranged env queue = false)
  (room : totalplayers env queue ≤ anongameMaxGamecount) (once : QueuedOnce world queue)
include known single room once

theorem visit_gathers (wide : 0 ≤ env.maxleveldiff) (delta : Int) (progress : Progress)
    (gathered : Gathered env world c queue progress)
    (few : progress.chosen.length < totalplayers env queue)
    (visited : ∀ entry ∈ progress.chosen, rank (entry.1 - level) < rank delta) :
    ∃ after enough, visit env world c queue (level + delta) progress = some (after, enough) ∧
      Gathered env world c queue after ∧
      (enough = true → after.chosen.length = totalplayers env queue) ∧
      (enough = false → after.chosen.length < totalplayers env queue) ∧
      ∀ entry ∈ after.chosen, rank (entry.1 - level) ≤ rank delta := by
  unfold visit
  by_cases window : level + delta ≤ progress.maxlevel ∧ progress.minlevel ≤ level + delta
  · have ceiling := gathered.ceiling
    have floor := gathered.floor
    obtain ⟨here, hereIs⟩ := Int.eq_ofNat_of_zero_le (show 0 ≤ (level : Int) + delta by omega)
    have hereDelta : (here : Int) - level = delta := by omega
    have unvisited : ∀ entry ∈ progress.chosen, entry.1 = here → entry.2 ∈ [] := by
      intro entry old at_level
      have earlier := visited entry old
      rw [at_level, hereDelta] at earlier
      exact absurd earlier (lt_irrefl _)
    obtain ⟨after, enough, resultIs, afterGathered, whenEnough, whenFew, sources⟩ :=
      traverse_gathers env world c queue here single room once wide
        (world.matchlists queue here) [] rfl progress gathered few (by omega) unvisited
    refine ⟨after, enough, ?_, afterGathered, whenEnough, whenFew, ?_⟩
    · rw [if_pos window, hereIs, listAt, if_pos ⟨known, by omega, by omega⟩]
      exact resultIs
    intro entry present
    rcases sources entry present with old | at_level
    · exact (visited entry old).le
    · rw [at_level, hereDelta]
  · rw [if_neg window]
    exact ⟨progress, false, rfl, gathered, by simp, fun _ => few,
      fun entry old => (visited entry old).le⟩

theorem matchLoop_gathers (levelInside : level + env.maxleveldiff < maxLevel) (budget : Nat)
    (delta : Int) (progress : Progress) (gathered : Gathered env world c queue progress)
    (few : progress.chosen.length < totalplayers env queue)
    (visited : ∀ entry ∈ progress.chosen, rank (entry.1 - level) < rank delta)
    (enoughRounds : 2 * env.maxleveldiff.toNat + 3 ≤ budget + rank delta)
    (small : delta.natAbs ≤ env.maxleveldiff.toNat + 1) :
    ∃ after enough, matchLoop env world c queue level budget delta progress =
        some (after, enough) ∧ Gathered env world c queue after ∧
      (enough = true → after.chosen.length = totalplayers env queue) := by
  induction budget generalizing delta progress with
  | zero =>
    unfold rank at enoughRounds
    split at enoughRounds <;> omega
  | succ budget ih =>
    unfold matchLoop
    by_cases near : (delta.natAbs : Int) < env.maxleveldiff + 1
    · have wide : 0 ≤ env.maxleveldiff := by omega
      rw [if_pos near]
      obtain ⟨later, nextSmall⟩ := nextDelta_rank level delta env.maxleveldiff near levelInside
      obtain ⟨after, enough, roundIs, afterGathered, whenEnough, whenFew, sources⟩ :=
        visit_gathers env world c queue level known single room once wide delta progress gathered
          few visited
      simp only [bind_eq_bind, roundIs, bind_some]
      cases enough with
      | true => exact ⟨after, true, rfl, afterGathered, whenEnough⟩
      | false =>
        by_cases stop : (level : Int) + nextDelta level delta < 0
        · rw [if_pos stop]
          exact ⟨after, false, rfl, afterGathered, by simp⟩
        rw [if_neg stop]
        exact ih (nextDelta level delta) after afterGathered (whenFew rfl)
          (fun entry present => lt_of_le_of_lt (sources entry present) later)
          (by omega) nextSmall
    · rw [if_neg near]
      exact ⟨progress, false, rfl, gathered, by simp⟩

end

/-! The order of the players only exchanges them. -/

theorem teamOrders_perm (teams : Nat) (order : List (Nat × Nat) × List Nat)
    (known : order ∈ teamOrders teams) : order.2.Perm (List.range order.2.length) := by
  unfold teamOrders at known
  split at known
  · revert order
    decide
  · revert order
    decide
  · revert order
    decide
  · cases known

theorem filterMap_range_getElem (list : List Conn) (count : Nat) :
    ((List.range count).filterMap fun place => list[place]?) = list.take count := by
  induction count with
  | zero => rfl
  | succ count ih =>
    rw [List.range_succ, List.filterMap_append, ih, List.take_add_one]
    cases found : list[count]? with
    | none => simp [found]
    | some c => simp [found]

theorem rearrange_perm (base : Nat) (places : List Nat)
    (perm : places.Perm (List.range places.length)) :
    (rearrange players base places).Perm players := by
  have block_perm : (places.filterMap fun place =>
      ((players.drop base).take places.length)[place]?).Perm
      ((players.drop base).take places.length) := by
    have exchanged := perm.filterMap fun place =>
      ((players.drop base).take places.length)[place]?
    rwa [filterMap_range_getElem, List.take_take, min_self] at exchanged
  have exchanged := (block_perm.append_left (players.take base)).append_right
    (players.drop (base + places.length))
  rw [← List.drop_drop, List.append_assoc, List.append_assoc, List.take_append_drop,
    List.take_append_drop] at exchanged
  rwa [← List.append_assoc, List.drop_drop] at exchanged

theorem orderRound_perm (teams ppt round : Nat) (state : List Conn × (Nat → Int)) :
    (orderRound env queue teams ppt round state).1.Perm state.1 := by
  unfold orderRound
  dsimp only
  split
  · exact List.Perm.refl _
  · rename_i order orderIs
    exact rearrange_perm _ _ _ (teamOrders_perm teams _ (List.mem_of_find?_eq_some orderIs))

theorem orderQueue_perm : (orderQueue env queue players).Perm players := by
  have rounds (list : List Nat) (teams ppt : Nat) (state : List Conn × (Nat → Int)) :
      (list.foldl (fun state round => orderRound env queue teams ppt round state) state).1.Perm
        state.1 := by
    induction list generalizing state with
    | nil => exact List.Perm.refl _
    | cons round rest ih => exact (ih _).trans (orderRound_perm env queue teams ppt round state)
  unfold orderQueue
  dsimp only
  split
  · exact rounds _ _ _ _
  · exact List.Perm.refl _

theorem sortByLevel_perm : (sortByLevel env world players).Perm players :=
  List.perm_insertionSort _ _

/-! What a match promises. -/

structure FoundMatch (env : Environment) (before after : World) (queue : Nat)
    (players : List Conn) (entries : List (Int × Matchdata)) : Prop where
  chosen : players.Perm (entries.map fun entry => entry.2.c)
  enough : players.length = totalplayers env queue
  distinct : players.Nodup
  queued : ∀ entry ∈ entries, ∃ level : Nat, entry.1 = level ∧ level < maxLevel ∧
    entry.2 ∈ before.matchlists queue level
  sameTag : ∃ tag, ∀ entry ∈ entries, entry.2.versiontag = some tag
  sameMap : ∃ bit, ∀ entry ∈ entries, entry.2.mapPrefs.toNat.testBit bit = true
  near : ∀ left ∈ entries, ∀ right ∈ entries, left.1 - right.1 ≤ env.maxleveldiff
  gone : ∀ c ∈ players, ∀ level < maxLevel, ∀ md ∈ after.matchlists queue level, md.c ≠ c

/-- A search that stays inside the lists and finds such players, or leaves the lists alone. -/
def MatchSound (env : Environment) (before : World) (queue : Nat) :
    Option (Option (List (Option Conn)) × World) → Prop
  | none => False
  | some (none, after) => after.matchlists = before.matchlists
  | some (some players, after) => ∃ conns entries, players = conns.map some ∧
      FoundMatch env before after queue conns entries

section
variable {env : Environment} {world : World} {c : Conn} {queue : Nat}
  (gathered : Gathered env world c queue progress)
include gathered

theorem Gathered.common_tag :
    ∃ tag, ∀ entry ∈ progress.chosen, entry.2.versiontag = some tag := by
  refine ⟨(env.versiontag c).getD [], fun entry present => ?_⟩
  obtain ⟨tag, searching, queued⟩ := gathered.tagged entry present
  rw [queued, searching, getD_some]

theorem Gathered.common_map :
    ∃ bit, ∀ entry ∈ progress.chosen, entry.2.mapPrefs.toNat.testBit bit = true := by
  by_cases empty : progress.chosen = []
  · exact ⟨0, by simp [empty]⟩
  have nonzero : progress.curPrefs.toNat ≠ 0 := fun zero =>
    gathered.mapLeft empty (UInt32.toNat_inj.mp zero)
  obtain ⟨bit, bitSet⟩ := Nat.exists_testBit_of_ne_zero nonzero
  refine ⟨bit, fun entry present => ?_⟩
  have inBoth : (progress.curPrefs &&& entry.2.mapPrefs).toNat.testBit bit = true := by
    rw [gathered.shared entry present]
    exact bitSet
  rw [UInt32.toNat_and, Nat.testBit_and, Bool.and_eq_true] at inBoth
  exact inBoth.2

end

theorem anongameMatch_sound (known : queue < anongameTypes) (single : arranged env queue = false)
    (some_players : 0 < totalplayers env queue)
    (room : totalplayers env queue ≤ anongameMaxGamecount) (once : QueuedOnce world queue)
    (hasRecord : (world.anongame c).isSome = true) (levelIs : levelByQueue env c queue = level)
    (levelInside : level + env.maxleveldiff < maxLevel) :
    MatchSound env world queue (anongameMatch env world c queue) := by
  obtain ⟨a, aIs⟩ := isSome_iff_exists.mp hasRecord
  obtain ⟨progress, enough, resultIs, gathered, whenEnough⟩ :=
    matchLoop_gathers env world c queue level known single room once levelInside (matchBudget env) 0
      (startProgress env level a.mapPrefs)
      (gathered_start env world c queue level a.mapPrefs levelInside) some_players
      (by simp [startProgress]) (by simp [matchBudget, rank]) (by omega)
  unfold anongameMatch
  simp only [aIs, levelIs, resultIs, bind_eq_bind, bind_some]
  cases enough with
  | false => rfl
  | true =>
    have ordered := (orderQueue_perm env queue _).trans
      (sortByLevel_perm env world (progress.chosen.map fun entry => entry.2.c))
    simp only [not_true, single]
    refine ⟨_, progress.chosen, rfl, ordered, ?_, ordered.nodup_iff.mpr gathered.distinct,
      gathered.listed, gathered.common_tag, gathered.common_map, gathered.near, ?_⟩
    · rw [ordered.length_eq, List.length_map, whenEnough rfl]
    intro player chosen at_level inside md present
    rw [unqueueAll_filter queue at_level known inside _ world once, List.mem_filter] at present
    simp only [decide_eq_true_eq] at present
    exact fun same => present.2 (same ▸ chosen)

/-! The runs. -/

theorem anongameMatch_sublist (c : Conn) (queue : Nat) (found : Option (List (Option Conn)))
    (matched : anongameMatch env world c queue = some (found, after)) (other level : Nat) :
    (after.matchlists other level).Sublist (world.matchlists other level) := by
  unfold anongameMatch at matched
  simp only [bind_eq_bind, bind_eq_some_iff] at matched
  obtain ⟨a, _, ⟨progress, enough⟩, _, resultIs⟩ := matched
  split at resultIs
  · cases resultIs
    exact .refl _
  split at resultIs
  · cases resultIs
    exact unqueueAll_sublist queue _ world other level
  · cases resultIs
    exact unqueueAll_sublist queue _ world other level

theorem inviteTeam_keeps (a : Anongame) (all team : List Conn) (state : World × Bool) :
    (team.foldl (inviteMember a all) state).1.matchlists = state.1.matchlists ∧
      ∀ c, (state.1.anongame c).isSome = true →
        ((team.foldl (inviteMember a all) state).1.anongame c).isSome = true := by
  induction team generalizing state with
  | nil => exact ⟨rfl, fun _ has => has⟩
  | cons member rest ih =>
    obtain ⟨lists, records⟩ := ih (inviteMember a all state member)
    refine ⟨lists, fun c has => records c ?_⟩
    by_cases same : c = member
    · simp [inviteMember, setAnongame, same]
    · simpa [inviteMember, setAnongame, same] using has

theorem prepareSearch_keeps (prepared : World) (c : Conn) (request : Search)
    (ticket : Option Ticket) (prepares : prepareSearch world c request = some (prepared, ticket)) :
    prepared.matchlists = world.matchlists ∧ (prepared.anongame c).isSome = true := by
  have own (a : Anongame) : ((setAnongame world c (some a)).anongame c).isSome = true := by
    simp [setAnongame]
  cases request with
  | search mapPrefs type gametype =>
    unfold prepareSearch at prepares
    dsimp only at prepares
    split at prepares
    · cases prepares
      exact ⟨rfl, own _⟩
    · cases prepares
      exact ⟨rfl, own _⟩
  | atInviterSearch tid mapPrefs type gametype team =>
    unfold prepareSearch at prepares
    dsimp only at prepares
    split at prepares
    · cases prepares
      exact ⟨rfl, own _⟩
    obtain ⟨found, _, resultIs⟩ := map_eq_some_iff.mp prepares
    cases found with
    | none =>
      cases resultIs
      exact ⟨rfl, own _⟩
    | some members =>
      cases resultIs
      obtain ⟨lists, records⟩ := inviteTeam_keeps _ (members.1 :: members.2)
        (members.1 :: members.2) (setAnongame world c (some _), true)
      exact ⟨lists, records c (own _)⟩
  | atSearch tid team =>
    obtain ⟨found, _, resultIs⟩ := map_eq_some_iff.mp prepares
    cases found with
    | none =>
      cases resultIs
      exact ⟨rfl, own _⟩
    | some members =>
      cases resultIs
      exact ⟨rfl, own _⟩

theorem destroyAnongame_sublist (other level : Nat) :
    ((destroyAnongame env world c).matchlists other level).Sublist
      (world.matchlists other level) := by
  unfold destroyAnongame
  split
  · exact List.Sublist.refl _
  rename_i a aIs
  split
  · cases a.tc[0]?.join with
    | none => exact List.Sublist.refl _
    | some first => exact anongameUnqueue_sublist world first a.queue other level
  · exact anongameUnqueue_sublist world c a.queue other level

theorem anongameCancel_sublist (other level : Nat) :
    ((anongameCancel env world c).matchlists other level).Sublist
      (world.matchlists other level) := by
  have each (team : List Conn) (world : World) :
      ((team.foldl (fun world c => destroyAnongame env world c) world).matchlists other
        level).Sublist (world.matchlists other level) := by
    induction team generalizing world with
    | nil => exact List.Sublist.refl _
    | cons member rest ih =>
      exact (ih _).trans (destroyAnongame_sublist env world member other level)
  unfold anongameCancel
  split
  · exact List.Sublist.refl _
  · exact each _ world

/-- The queues in which every player is looked for alone, whatever the tournament is like. -/
def playerGame (queue : Nat) : Prop :=
  queue ≠ typeAt2v2 ∧ queue ≠ typeAt3v3 ∧ queue ≠ typeAt4v4 ∧ queue ≠ typeAt2v2v2

/-- What a search must meet: the connection that it puts in a player-game queue is not in it yet,
and the levels that it may visit are levels of the lists; a tournament game has a size. -/
def Meets (env : Environment) (world : World) : Event → Prop
  | .search c request => ∀ prepared ticket (queue : Nat),
      prepareSearch world c request = some (prepared, some ticket) → ticket.queue = queue →
      playerGame queue →
      (∀ level < maxLevel, ∀ md ∈ world.matchlists queue level, md.c ≠ ticket.target) ∧
      (arranged env queue = false →
        0 ≤ levelByQueue env c queue ∧ levelByQueue env c queue + env.maxleveldiff < maxLevel ∧
        (queue = typeTy → 0 < env.tournamentPlayers ∧ env.tournamentPlayers ≤ anongameMaxGamecount))
  | .cancel _ | .leave _ => True

inductive Reached : World → Prop
  | start : Reached emptyWorld
  | step {before after : World} (env : Environment) (event : Event) (reached : Reached before)
      (meets : Meets env before event) (steps : step env before event = some after) :
      Reached after

theorem step_once (before after : World) (event : Event) (meets : Meets env before event)
    (steps : step env before event = some after) (queue : Nat) (single : playerGame queue)
    (once : QueuedOnce before queue) : QueuedOnce after queue := by
  cases event with
  | search c request =>
    simp only [step, handleAnongameSearch, bind_eq_bind, bind_eq_some_iff] at steps
    obtain ⟨⟨prepared, ticket⟩, prepares, serves⟩ := steps
    have lists := (prepareSearch_keeps before prepared c request ticket prepares).1
    have preparedOnce : QueuedOnce prepared queue := once.shrink fun level => by rw [lists]
    cases ticket with
    | none =>
      cases serves
      exact preparedOnce
    | some ticket =>
      simp only [elim_some, serveTicket, bind_eq_bind, bind_eq_some_iff] at serves
      obtain ⟨⟨code, queued⟩, queues, rest⟩ := serves
      have queuedOnce : QueuedOnce queued queue :=
        anongameQueue_once env prepared queued ticket.target ticket.queue code ticket.mapPrefs
          queues queue preparedOnce fun same => by
            rw [lists]
            exact (meets prepared ticket queue prepares same single).1
      split at rest
      · cases rest
        exact queuedOnce
      rw [bind_eq_some_iff] at rest
      obtain ⟨⟨found, matched⟩, matches_, resultIs⟩ := rest
      cases resultIs
      exact queuedOnce.shrink fun level =>
        anongameMatch_sublist env queued matched c _ found matches_ queue level
  | cancel c =>
    cases steps
    exact once.shrink fun level => anongameCancel_sublist env before c queue level
  | leave c =>
    cases steps
    exact once.shrink fun level => destroyAnongame_sublist env before c queue level

theorem reached_once (reached : Reached world) (queue : Nat) (single : playerGame queue) :
    QueuedOnce world queue := by
  induction reached with
  | start => exact ⟨fun _ _ => by simp [emptyWorld], fun _ _ _ _ _ left leftIn => by
    simp [emptyWorld] at leftIn⟩
  | step env event _ meets steps ih => exact step_once env _ _ event meets steps queue single ih

theorem playerGame_of_single (single : arranged env queue = false) : playerGame queue := by
  unfold arranged at single
  unfold playerGame
  split at single
  · cases single
  · omega

theorem totalplayers_room (known : queue < anongameTypes) (tournament : queue = typeTy →
      0 < env.tournamentPlayers ∧ env.tournamentPlayers ≤ anongameMaxGamecount) :
    0 < totalplayers env queue ∧ totalplayers env queue ≤ anongameMaxGamecount := by
  have types (queues : Prop) [Decidable queues] (count rest : Nat)
      (small : queues → 0 < count ∧ count ≤ anongameMaxGamecount)
      (others : ¬ queues → 0 < rest ∧ rest ≤ anongameMaxGamecount) :
      0 < (if queues then count else rest) ∧
        (if queues then count else rest) ≤ anongameMaxGamecount := by
    split
    · exact small ‹_›
    · exact others ‹_›
  iterate 7
    refine types _ _ _ (fun _ => by decide) fun _ => ?_
  refine types _ _ _ tournament fun _ => ?_
  -- no other queue is there
  simp only [anongameTypes, typeTy, type1v1, type2v2, typeAt2v2, typeSmallFfa, type3v3, typeAt3v3,
    type2v2v2, typeAt2v2v2, type4v4, typeAt4v4, typeTeamFfa, type2v2v2v2, type3v3v3, type5v5,
    type6v6, type4v4v4, type3v3v3v3] at *
  omega

/-- In every run whose searches meet the condition, the match that a search makes in a player-game
queue finds different connections that were queued there and suit each other, and takes them all
out of the queue, or leaves the lists alone. -/
theorem matches_sound (world : World) (reached : Reached world) (env : Environment) (c : Conn)
    (request : Search) (meets : Meets env world (.search c request)) (prepared queued : World)
    (ticket : Ticket) (prepares : prepareSearch world c request = some (prepared, some ticket))
    (queues : anongameQueue env prepared ticket.target ticket.queue ticket.mapPrefs =
      some (0, queued)) (single : arranged env ticket.queue = false) :
    MatchSound env queued ticket.queue.toNat
      (anongameMatch env queued c ticket.queue.toNat) := by
  obtain ⟨impossible, _⟩ | ⟨queue, place, queueIs, known, _, _, _, queuedIs⟩ :=
    anongameQueue_cases env prepared queued ticket.target ticket.queue 0 ticket.mapPrefs queues
  · cases impossible
  rw [queueIs, Int.toNat_natCast]
  rw [queueIs] at single
  have alone := playerGame_of_single env queue single
  obtain ⟨absent, inside⟩ := meets prepared ticket queue prepares queueIs alone
  obtain ⟨levelNonneg, levelInside, tournament⟩ := inside single
  obtain ⟨lists, hasRecord⟩ := prepareSearch_keeps world prepared c request _ prepares
  have preparedOnce : QueuedOnce prepared queue :=
    (reached_once world reached queue alone).shrink fun level => by rw [lists]
  have once : QueuedOnce queued queue :=
    anongameQueue_once env prepared queued ticket.target ticket.queue 0 ticket.mapPrefs queues
      queue preparedOnce fun _ => by
        rw [lists]
        exact absent
  have stillRecord : (queued.anongame c).isSome = true := by
    rw [queuedIs]
    exact hasRecord
  obtain ⟨level, levelIs⟩ := Int.eq_ofNat_of_zero_le levelNonneg
  rw [levelIs] at levelInside
  obtain ⟨somePlayers, room⟩ := totalplayers_room env queue known tournament
  exact anongameMatch_sound env queued c queue level known single somePlayers room once
    stillRecord levelIs levelInside

def sampleEnvironment : Environment where
  level := fun _ _ => 10
  versiontag := fun _ => some [87, 51]
  maxleveldiff := 6
  tournamentArranged := false
  tournamentPlayers := 2
  stalePlayer := fun _ => 0
  staleLevel := fun _ => 0

def sampleSearch : Search := .search 3 0 0

/-- A connection that searches for a one against one game twice is matched with itself. -/
theorem second_search_finds_itself : ∃ first prepared queued after ticket,
    step sampleEnvironment emptyWorld (.search 7 sampleSearch) = some first ∧
    prepareSearch first 7 sampleSearch = some (prepared, some ticket) ∧
    anongameQueue sampleEnvironment prepared ticket.target ticket.queue ticket.mapPrefs =
      some (0, queued) ∧
    arranged sampleEnvironment ticket.queue = false ∧
    anongameMatch sampleEnvironment queued 7 ticket.queue.toNat =
      some (some [some 7, some 7], after) ∧
    ¬ MatchSound sampleEnvironment queued ticket.queue.toNat
      (anongameMatch sampleEnvironment queued 7 ticket.queue.toNat) := by
  refine ⟨_, _, _, _, _, rfl, rfl, rfl, rfl, rfl, ?_⟩
  rintro ⟨conns, entries, playersAre, found⟩
  have conns_eq : conns = [7, 7] := by
    refine List.map_injective_iff.mpr (some_injective Conn) ?_
    rw [← playersAre]
    rfl
  have distinct := found.distinct
  rw [conns_eq] at distinct
  revert distinct
  decide

/-- Two connections, each searching once, are matched with each other. -/
theorem matches_sound_sample : ∃ first prepared queued ticket,
    step sampleEnvironment emptyWorld (.search 1 sampleSearch) = some first ∧
    prepareSearch first 2 sampleSearch = some (prepared, some ticket) ∧
    anongameQueue sampleEnvironment prepared ticket.target ticket.queue ticket.mapPrefs =
      some (0, queued) ∧
    (anongameMatch sampleEnvironment queued 2 ticket.queue.toNat).map (fun result => result.1) =
      some (some [some 1, some 2]) ∧
    MatchSound sampleEnvironment queued ticket.queue.toNat
      (anongameMatch sampleEnvironment queued 2 ticket.queue.toNat) := by
  have meets (world : World) (c : Conn) (absent : ∀ level < maxLevel,
      ∀ md ∈ world.matchlists 0 level, md.c ≠ c) :
      Meets sampleEnvironment world (.search c sampleSearch) := by
    intro prepared ticket queue prepares queueIs _
    have ticketIs : some (some (⟨c, 0, 3⟩ : Ticket)) = some (some ticket) :=
      congrArg (Option.map snd) prepares
    cases ticketIs
    obtain rfl : queue = 0 := by simpa using queueIs.symm
    exact ⟨absent, fun _ => ⟨show (0 : Int) ≤ 10 by decide, show (10 : Int) + 6 < 100 by decide,
      fun tournament => absurd tournament (by decide)⟩⟩
  refine ⟨_, _, _, _, rfl, rfl, rfl, rfl, ?_⟩
  exact matches_sound _ (.step sampleEnvironment _ .start (meets _ 1 (by simp [emptyWorld])) rfl)
    sampleEnvironment 2 sampleSearch (meets _ 2 (by decide)) _ _ _ rfl rfl rfl

end Pvpgn.AnongameMatch
