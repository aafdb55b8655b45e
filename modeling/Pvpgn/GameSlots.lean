import Pvpgn.CheckedArray
import Pvpgn.Stdio
import Mathlib.Data.List.ReduceOption

/-!
The player slots of a game (`game.cpp`): six parallel arrays that grow together, whose vacated
entries are used again. Joins and leaves change them one slot at a time and choose the host anew.
An access outside an array is `none`.
-/

namespace Pvpgn.GameSlots
open Stdio CheckedArray List Option Function Prod

inductive GameType
  | none | all | topvbot | melee | ffa | oneonone | ctf | greed | slaughter | sdeath | ladder
  | ironman | mapset | teammelee | teamffa | teamctf | pgl | diablo | diablo2open | diablo2closed
  | anongame
  deriving DecidableEq

inductive GameStatus
  | started | full | opened | loaded | done
  deriving DecidableEq

/-- `unknown` is a number that is no result. -/
inductive GameResult
  | none | win | loss | draw | disconnect | observer | playing | unknown
  deriving DecidableEq

structure Connection where
  account : Nat
  gameAddr : UInt32
  gamePort : UInt16
  wol : Bool

/-- The arrays are `none` before the first player. An entry of `connections` is `none` when its
player has left, and then the other arrays keep what they had. -/
structure Game where
  name : Text
  pass : Text
  info : Text
  type : GameType
  status : GameStatus
  clienttag : UInt32
  id : UInt32
  ref : Nat
  count : Nat
  owner : Option Nat
  addr : UInt32
  port : UInt16
  connections : Option (List (Option Nat))
  players : Option (List (Option Nat))
  results : Option (List GameResult)
  reportedResults : Option (List (Option (List GameResult)))
  reportHeads : Option (List (Option Text))
  reportBodies : Option (List (Option Text))

def startverUnknown : Int := 0
def startverGw1 : Int := 1
def startverGw3 : Int := 3
def startverGw4 : Int := 4
def startverRealm1 : Int := 104

/-- The first connected slot of the last `left` ones. -/
def findHost (connections : List (Option Nat)) : Nat → Nat → Option (Option Nat)
  | 0, _ => some none
  | left + 1, i => do
    let entry ← readAt connections i
    match entry with
    | some c => some (some c)
    | none => findHost connections left (i + 1)

def gameChooseHost (connection : Nat → Connection) (game : Game) : Option Game :=
  if game.count < 1 then some game
  else match game.connections with
    | none => some game
    | some connections => do
      let host ← findHost connections game.count 0
      match host with
      | none => some game
      | some c => some { game with
          owner := some c
          addr := (connection c).gameAddr
          port := (connection c).gamePort }

def findFree (connections : List (Option Nat)) : Nat → Nat → Option Nat
  | 0, i => some i
  | left + 1, i => do
    let entry ← readAt connections i
    match entry with
    | none => some i
    | some _ => findFree connections left (i + 1)

/-- An array after `xmalloc` or `xrealloc` for one more entry. A first block for more than one entry
would leave some of them without a value. -/
def extend {Cell : Type} (array : Option (List Cell)) (count : Nat) (value : Cell) :
    Option (List Cell) :=
  match array with
  | none => if count = 0 then some [value] else none
  | some cells => if count ≤ cells.length then some (cells.take count ++ [value]) else none

def setSlot {Cell : Type} (array : Option (List Cell)) (i : Nat) (value : Cell) :
    Option (List Cell) :=
  array.bind fun cells => writeAt cells i value

def readSlot {Cell : Type} (array : Option (List Cell)) (i : Nat) : Option Cell :=
  array.bind fun cells => readAt cells i

def refillSlot (connection : Nat → Connection) (game : Game) (i : Nat) (c : Nat) : Option Game := do
  let connections ← setSlot game.connections i (some c)
  let players ← setSlot game.players i (some (connection c).account)
  let results ← setSlot game.results i GameResult.none
  let reportedResults ← setSlot game.reportedResults i none
  let reportHeads ← setSlot game.reportHeads i none
  let reportBodies ← setSlot game.reportBodies i none
  some { game with
    connections := some connections
    players := some players
    results := some results
    reportedResults := some reportedResults
    reportHeads := some reportHeads
    reportBodies := some reportBodies
    ref := game.ref + 1 }

def addSlot (connection : Nat → Connection) (game : Game) (c : Nat) : Option Game := do
  let connections ← extend game.connections game.count (some c)
  let players ← extend game.players game.count (some (connection c).account)
  let results ← extend game.results game.count GameResult.none
  let reportedResults ← extend game.reportedResults game.count none
  let reportHeads ← extend game.reportHeads game.count none
  let reportBodies ← extend game.reportBodies game.count none
  some { game with
    connections := some connections
    players := some players
    results := some results
    reportedResults := some reportedResults
    reportHeads := some reportHeads
    reportBodies := some reportBodies
    count := game.count + 1
    ref := game.ref + 1 }

/-- The checks of `game_add_player` before it looks for a slot. `normalWins` is the player's record
in normal games. -/
def refused (connection : Nat → Connection) (normalWins : Nat) (game : Game) (pass : Option Text)
    (startver : Int) (c : Nat) : Bool :=
  match pass with
  | none => true
  | some pass =>
    (startver ≠ startverUnknown && startver ≠ startverGw1 && startver ≠ startverGw3 &&
      startver ≠ startverGw4 && startver ≠ startverRealm1) ||
    (game.type = GameType.ladder && (normalWins < 10 && !(connection c).wol)) ||
    game.clienttag = 0 ||
    (game.pass ≠ [] && !sameCaseless game.pass pass)

/-- Where the search for a slot without a connection ends. -/
def freeSlot (game : Game) : Option Nat :=
  match game.connections with
  | none => some 0
  | some connections => if 0 < game.count then findFree connections game.count 0 else some 0

def takeSlot (connection : Nat → Connection) (game : Game) (i c : Nat) : Option Game :=
  if i = game.count ∨ game.count = 0 then addSlot connection game c
  else if game.connections.isSome then refillSlot connection game i c
  else some game

def gameAddPlayer (connection : Nat → Connection) (normalWins : Nat) (game : Game)
    (pass : Option Text) (startver : Int) (c : Nat) : Option (Int × Game) :=
  if refused connection normalWins game pass startver c then some (-1, game)
  else do
    let i ← freeSlot game
    let game ← takeSlot connection game i c
    let game ← gameChooseHost connection game
    some (0, game)

/-- A game that is left behind, or that was reported and destroyed. -/
inductive Left
  | kept (game : Game)
  | gone (game : Game)

def findPlayer (account : Nat) (players : List (Option Nat))
    (connections : Option (List (Option Nat))) :
    Nat → Nat → Option (Option Nat)
  | 0, _ => some none
  | left + 1, i => do
    let player ← readAt players i
    if player = some account then
      let entry ← readSlot connections i
      if entry.isSome then some (some i) else findPlayer account players connections left (i + 1)
    else findPlayer account players connections left (i + 1)

def gameDelPlayer (connection : Nat → Connection) (game : Game) (c : Nat) : Option (Int × Left) :=
  match game.players, game.reportedResults with
  | none, _ => some (-1, .kept game)
  | some _, none => some (-1, .kept game)
  | some players, some reportedResults => do
    let found ← findPlayer (connection c).account players game.connections game.count 0
    match found with
    | none => some (-1, .kept game)
    | some i => do
      let connections ← setSlot game.connections i none
      let game := { game with connections := some connections }
      let _ ← readAt reportedResults i
      if game.ref < 2 then some (0, .gone game)
      else do
        let game ← gameChooseHost connection { game with ref := game.ref - 1 }
        some (0, .kept game)

/-- The games with their addresses, and the addresses of the games reported so far. -/
structure World where
  gamelist : List (Nat × Game)
  totalcount : UInt32
  reported : List Nat

def gamelistFindGameAvailable (gamelist : List (Nat × Game)) (name : Text) (ctag : UInt32)
    (type : GameType) : Option Nat :=
  (gamelist.find? fun entry =>
    (type = GameType.all || entry.2.type = type) && ctag = entry.2.clienttag &&
      sameCaseless name entry.2.name && entry.2.status ≠ GameStatus.started &&
      entry.2.status ≠ GameStatus.done).map fst

/-- `address` is where `xmalloc` puts the game. -/
def gameCreate (world : World) (address : Nat) (name pass info : Option Text) (type : GameType)
    (clienttag : UInt32) : Option Nat × World :=
  match name, pass, info with
  | some name, some pass, some info =>
    if (gamelistFindGameAvailable world.gamelist name clienttag GameType.all).isSome then
      (none, world)
    else if clienttag = 0 then (none, world)
    else
      let game : Game := {
        name, pass, info, type, status := GameStatus.opened, clienttag
        id := world.totalcount + 1
        ref := 0, count := 0, owner := none, addr := 0, port := 0
        connections := none, players := none, results := none, reportedResults := none
        reportHeads := none, reportBodies := none }
      (some address, { world with
        gamelist := (address, game) :: world.gamelist
        totalcount := world.totalcount + 1 })
  | _, _, _ => (none, world)

def gameAt (world : World) (address : Nat) : Option Game :=
  (world.gamelist.find? fun entry => entry.1 = address).map snd

def putGame (world : World) (address : Nat) (game : Game) : World :=
  { world with gamelist := world.gamelist.map fun entry =>
      if entry.1 = address then (address, game) else entry }

/-- `game_report` and `game_destroy` -/
def dropGame (world : World) (address : Nat) : World :=
  { world with
    gamelist := world.gamelist.filter fun entry => entry.1 ≠ address
    reported := world.reported ++ [address] }

inductive Call
  | create (address : Nat) (name pass info : Option Text) (type : GameType) (clienttag : UInt32)
  | add (address normalWins : Nat) (pass : Option Text) (startver : Int) (c : Nat)
  | del (address c : Nat)

/-- `none` is an access to a game that is not there or outside an array. -/
def step (connection : Nat → Connection) (world : World) : Call → Option (Int × World)
  | .create address name pass info type clienttag =>
    let (created, world) := gameCreate world address name pass info type clienttag
    some (if created.isSome then 0 else -1, world)
  | .add address normalWins pass startver c => do
    let game ← gameAt world address
    let (code, game) ← gameAddPlayer connection normalWins game pass startver c
    some (code, putGame world address game)
  | .del address c => do
    let game ← gameAt world address
    let (code, left) ← gameDelPlayer connection game c
    match left with
    | .kept game => some (code, putGame world address game)
    | .gone _ => some (code, dropGame world address)

section Loops

variable (front back : List (Option Nat))

theorem find_host_spec :
    findHost (front ++ back) back.length front.length = some back.reduceOption.head? := by
  induction back generalizing front with
  | nil => rfl
  | cons entry rest ih =>
    have read : readAt (front ++ entry :: rest) front.length = some entry := by simp [readAt]
    rw [length_cons, findHost, read]
    cases entry with
    | some c => simp
    | none =>
      have next := ih (front ++ [none])
      simpa using next

structure Free (slots full rest : List (Option Nat)) : Prop where
  filled : ∀ entry ∈ full, entry ≠ none
  split : slots = full ++ none :: rest ∨ (slots = full ∧ rest = [])

theorem find_free_spec :
    ∃ full rest, Free back full rest ∧
      findFree (front ++ back) back.length front.length = some (front.length + full.length) := by
  induction back generalizing front with
  | nil => exact ⟨[], [], ⟨by simp, .inr ⟨rfl, rfl⟩⟩, rfl⟩
  | cons entry tail ih =>
    have read : readAt (front ++ entry :: tail) front.length = some entry := by simp [readAt]
    cases entry with
    | none =>
      refine ⟨[], tail, ⟨by simp, .inl rfl⟩, ?_⟩
      rw [length_cons, findFree, read]
      rfl
    | some c =>
      obtain ⟨full, rest, free, found⟩ := ih (front ++ [some c])
      refine ⟨some c :: full, rest, ⟨?_, ?_⟩, ?_⟩
      · intro entry member
        rcases mem_cons.mp member with rfl | inside
        · simp
        · exact free.filled entry inside
      · rcases free.split with split | ⟨whole, none_⟩
        · exact .inl (by rw [split]; rfl)
        · exact .inr ⟨by rw [whole], none_⟩
      · rw [append_assoc, singleton_append, length_append, length_singleton] at found
        rw [length_cons, findFree, read, length_cons, add_comm full.length 1, ← add_assoc]
        exact found

def Occupied (account : Nat) (players slots : List (Option Nat)) (i : Nat) : Prop :=
  players[i]? = some (some account) ∧ ∃ c, slots[i]? = some (some c)

theorem find_player_spec (account : Nat) (players slots : List (Option Nat)) (left i : Nat)
    (ends : i + left = players.length) (same : slots.length = players.length) :
    ∃ found, findPlayer account players (some slots) left i = some found ∧
      (found = none → ∀ j, i ≤ j → ¬Occupied account players slots j) ∧
      ∀ j ∈ found, Occupied account players slots j := by
  induction left generalizing i with
  | zero =>
    refine ⟨none, rfl, ?_, by simp⟩
    intro _ j later occupied
    have inside := (List.getElem?_eq_some_iff.mp occupied.1).1
    omega
  | succ left ih =>
    obtain ⟨found, next, none_, some_⟩ := ih (i + 1) (by omega)
    have player : players[i]? = some players[i] := getElem?_eq_getElem (by omega)
    have slot : slots[i]? = some slots[i] := getElem?_eq_getElem (by omega)
    have skip : ¬Occupied account players slots i →
        found = none → ∀ j, i ≤ j → ¬Occupied account players slots j := by
      intro here missed j later
      rcases eq_or_lt_of_le later with rfl | after
      · exact here
      · exact none_ missed j after
    rw [findPlayer]
    simp only [readAt, readSlot, player, slot, bind_some]
    by_cases own : players[i] = some account
    · cases entry : slots[i] with
      | none =>
        refine ⟨found, by simpa using next, skip ?_, some_⟩
        rintro ⟨_, c, taken⟩
        rw [slot, entry] at taken
        cases taken
      | some c =>
        refine ⟨some i, by simp [own], by simp, ?_⟩
        rintro j hit
        obtain rfl : i = j := some.inj hit
        exact ⟨by rw [player, own], c, by rw [slot, entry]⟩
    · refine ⟨found, by simpa [own] using next, skip ?_, some_⟩
      rintro ⟨taken, _⟩
      rw [player, some.injEq] at taken
      exact own taken

end Loops

def Sized {Cell : Type} (array : Option (List Cell)) (count : Nat) : Prop :=
  (array.getD []).length = count

def Game.slots (game : Game) : List (Option Nat) := game.connections.getD []

def Game.accounts (game : Game) : List (Option Nat) := game.players.getD []

def Game.connected (game : Game) : List Nat := game.slots.reduceOption

def Hosts (connection : Nat → Connection) (game : Game) (c : Nat) : Prop :=
  game.owner = some c ∧ game.addr = (connection c).gameAddr ∧ game.port = (connection c).gamePort

structure Seated (connection : Nat → Connection) (game : Game) : Prop where
  connections : Sized game.connections game.count
  players : Sized game.players game.count
  results : Sized game.results game.count
  reportedResults : Sized game.reportedResults game.count
  reportHeads : Sized game.reportHeads game.count
  reportBodies : Sized game.reportBodies game.count
  ref : game.ref = game.connected.length
  agree : ∀ i c : Nat, game.slots[i]? = some (some c) →
    game.accounts[i]? = some (some (connection c).account)
  host : ∀ c ∈ game.connected.head?, Hosts connection game c

def seat {Cell : Type} (cells : List Cell) (i : Nat) (value : Cell) : List Cell :=
  cells.take i ++ value :: cells.drop (i + 1)

variable {pass : Option Text} {startver : Int}

section Slots
variable {connection : Nat → Connection} {game : Game} {slots accounts : List (Option Nat)}
  {c : Nat}

variable {i : Nat} {Cell : Type} (value : Cell) {full rest : List (Option Nat)} {cells : List Cell}
  {array : Option (List Cell)} {count : Nat}

theorem seat_set (inside : i < cells.length) : cells.set i value = seat cells i value := by
  rw [set_eq_take_append_cons_drop, if_pos inside, seat]

theorem seat_end (cells : List Cell) (value : Cell) :
    seat cells cells.length value = cells ++ [value] := by
  simp [seat]

theorem seat_length (inside : i ≤ cells.length) :
    (seat cells i value).length = max cells.length (i + 1) := by
  simp only [seat, length_append, length_take, length_cons, length_drop]
  omega

theorem seat_same (inside : i ≤ cells.length) : (seat cells i value)[i]? = some value := by
  have taken : (cells.take i).length = i := by simpa using inside
  rw [seat, getElem?_append_right (by omega), taken, Nat.sub_self, getElem?_cons_zero]

theorem seat_other {j : Nat} (inside : i ≤ cells.length) (apart : j ≠ i) :
    (seat cells i value)[j]? = cells[j]? := by
  have taken : (cells.take i).length = i := by simpa using inside
  rcases lt_or_gt_of_ne apart with before | after
  · rw [seat, getElem?_append_left (by omega), getElem?_take_of_lt before]
  · obtain ⟨more, rfl⟩ : ∃ more, j = i + 1 + more := ⟨j - (i + 1), by omega⟩
    rw [seat, getElem?_append_right (by omega), taken,
      show i + 1 + more - i = more + 1 by omega, getElem?_cons_succ, getElem?_drop]

theorem set_slot_sized (sized : Sized array count) (inside : i < count) :
    setSlot array i value = some (seat (array.getD []) i value) := by
  cases array with
  | none =>
    rw [Sized] at sized
    simp at sized
    omega
  | some cells =>
    have length : cells.length = count := sized
    rw [setSlot, bind_some, write_inside _ _ _ (by omega), seat_set value (by omega)]
    rfl

theorem extend_sized (sized : Sized array count) :
    extend array count value = some (seat (array.getD []) count value) := by
  cases array with
  | none =>
    obtain rfl : 0 = count := sized
    rfl
  | some cells =>
    obtain rfl : cells.length = count := sized
    rw [extend, if_pos (le_refl _), take_length, getD_some, seat_end]

theorem seat_sized (sized : Sized array count) (inside : i ≤ count) :
    Sized (some (seat (array.getD []) i value)) (max count (i + 1)) := by
  have length : (array.getD []).length = count := sized
  rw [Sized, getD_some, seat_length value (by omega), length]

def joined (connection : Nat → Connection) (game : Game) (i c : Nat) : Game :=
  { game with
    connections := some (seat (game.connections.getD []) i (some c))
    players := some (seat (game.players.getD []) i (some (connection c).account))
    results := some (seat (game.results.getD []) i GameResult.none)
    reportedResults := some (seat (game.reportedResults.getD []) i none)
    reportHeads := some (seat (game.reportHeads.getD []) i none)
    reportBodies := some (seat (game.reportBodies.getD []) i none)
    count := max game.count (i + 1)
    ref := game.ref + 1 }

def hosted (connection : Nat → Connection) (game : Game) : Game :=
  match game.connected.head? with
  | none => game
  | some c => { game with
      owner := some c
      addr := (connection c).gameAddr
      port := (connection c).gamePort }

theorem choose_host_spec (connection : Nat → Connection)
    (sized : Sized game.connections game.count) :
    gameChooseHost connection game = some (hosted connection game) := by
  rw [gameChooseHost, hosted, Game.connected, Game.slots]
  by_cases empty : game.count < 1
  · have none_ : game.connections.getD [] = [] := by
      rw [Sized] at sized
      exact length_eq_zero_iff.mp (by omega)
    rw [if_pos empty, none_]
    rfl
  rw [if_neg empty]
  cases slots : game.connections with
  | none => rfl
  | some cells =>
    have length : cells.length = game.count := by
      rw [slots] at sized
      exact sized
    have found := find_host_spec [] cells
    rw [nil_append, length_nil] at found
    simp only [← length, found, getD_some]
    cases cells.reduceOption.head? <;> rfl

theorem add_slot_spec (seated : Seated connection game) :
    addSlot connection game c = some (joined connection game game.count c) := by
  rw [addSlot, extend_sized _ seated.connections, extend_sized _ seated.players,
    extend_sized _ seated.results, extend_sized _ seated.reportedResults,
    extend_sized _ seated.reportHeads, extend_sized _ seated.reportBodies, joined,
    max_eq_right (Nat.le_succ game.count)]
  rfl

theorem refill_slot_spec (seated : Seated connection game) (inside : i < game.count) :
    refillSlot connection game i c = some (joined connection game i c) := by
  rw [refillSlot, set_slot_sized _ seated.connections inside,
    set_slot_sized _ seated.players inside, set_slot_sized _ seated.results inside,
    set_slot_sized _ seated.reportedResults inside, set_slot_sized _ seated.reportHeads inside,
    set_slot_sized _ seated.reportBodies inside, joined, max_eq_left inside]
  rfl

theorem free_slot_spec (seated : Seated connection game) :
    ∃ full rest, Free game.slots full rest ∧ freeSlot game = some full.length := by
  obtain ⟨full, rest, free, found⟩ := find_free_spec [] game.slots
  have length : game.slots.length = game.count := seated.connections
  refine ⟨full, rest, free, ?_⟩
  rw [nil_append, length_nil, zero_add, length] at found
  rw [freeSlot]
  by_cases empty : game.count = 0
  · rw [empty] at found
    cases slots : game.connections with
    | none => simpa [findFree] using found
    | some cells => simpa [findFree, empty] using found
  cases slots : game.connections with
  | none =>
    rw [Game.slots, slots] at length
    exact absurd length.symm empty
  | some cells =>
    have whole : game.slots = cells := by rw [Game.slots, slots]; rfl
    rw [whole] at found
    simpa [Nat.pos_of_ne_zero empty] using found

theorem free_inside (free : Free slots full rest) : full.length ≤ slots.length := by
  rcases free.split with split | ⟨whole, _⟩
  · rw [split, length_append]
    omega
  · rw [whole]

theorem take_slot_spec (seated : Seated connection game) (inside : i ≤ game.count) :
    takeSlot connection game i c = some (joined connection game i c) := by
  rw [takeSlot]
  by_cases last : i = game.count ∨ game.count = 0
  · obtain rfl : i = game.count := by omega
    rw [if_pos last, add_slot_spec seated]
  have some_ : game.connections.isSome = true := by
    cases slots : game.connections with
    | none =>
      have length : game.slots.length = game.count := seated.connections
      rw [Game.slots, slots] at length
      exact absurd (.inr length.symm) last
    | some cells => rfl
  rw [if_neg last, if_pos some_, refill_slot_spec seated (by omega)]

theorem add_accepted (seated : Seated connection game) {normalWins : Nat}
    (accepted : refused connection normalWins game pass startver c = false) :
    ∃ full rest, Free game.slots full rest ∧ freeSlot game = some full.length ∧
      gameAddPlayer connection normalWins game pass startver c =
        some (0, hosted connection (joined connection game full.length c)) := by
  obtain ⟨full, rest, free, found⟩ := free_slot_spec seated
  have inside : full.length ≤ game.count := by
    rw [← show game.slots.length = game.count from seated.connections]
    exact free_inside free
  have sized : Sized (joined connection game full.length c).connections
      (joined connection game full.length c).count := seat_sized _ seated.connections inside
  refine ⟨full, rest, free, found, ?_⟩
  rw [gameAddPlayer, accepted, found]
  simp [take_slot_spec seated inside, choose_host_spec connection sized]

def emptied (game : Game) (i : Nat) : Game :=
  { game with connections := some (game.slots.set i none) }

def vacated (game : Game) (i : Nat) : Game :=
  { game with connections := some (game.slots.set i none), ref := game.ref - 1 }

theorem occupied_inside (seated : Seated connection game) {account : Nat}
    (occupied : Occupied account game.accounts game.slots i) : i < game.count := by
  obtain ⟨_, c, taken⟩ := occupied
  rw [← show game.slots.length = game.count from seated.connections]
  exact (List.getElem?_eq_some_iff.mp taken).1

theorem del_cases (seated : Seated connection game) :
    ((∀ i, ¬Occupied (connection c).account game.accounts game.slots i) ∧
      gameDelPlayer connection game c = some (-1, .kept game)) ∨
    ∃ i, Occupied (connection c).account game.accounts game.slots i ∧
      gameDelPlayer connection game c = some (0,
        if game.ref < 2 then .gone (emptied game i)
        else .kept (hosted connection (vacated game i))) := by
  have none_ : game.count = 0 →
    ∀ i, ¬Occupied (connection c).account game.accounts game.slots i := by
    intro empty i occupied
    have inside := occupied_inside seated occupied
    omega
  rw [gameDelPlayer]
  cases players : game.players with
  | none =>
    have sized := seated.players
    rw [players] at sized
    exact .inl ⟨none_ sized.symm, rfl⟩
  | some accounts =>
    cases reported : game.reportedResults with
    | none =>
      have sized := seated.reportedResults
      rw [reported] at sized
      exact .inl ⟨none_ sized.symm, rfl⟩
    | some reports =>
      have reportCount : reports.length = game.count := by
        have sized := seated.reportedResults
        rwa [reported] at sized
      have accountCount : accounts.length = game.count := by
        have sized := seated.players
        rwa [players] at sized
      have slotCount : game.slots.length = game.count := seated.connections
      have own : game.accounts = accounts := by rw [Game.accounts, players]; rfl
      rw [own]
      cases slots : game.connections with
      | none =>
        have empty : game.count = 0 := by
          rw [← slotCount, Game.slots, slots]
          rfl
        refine .inl ⟨own ▸ none_ empty, ?_⟩
        simp [empty, findPlayer]
      | some cells =>
        have whole : game.slots = cells := by rw [Game.slots, slots]; rfl
        rw [whole] at slotCount ⊢
        obtain ⟨found, search, missed, hit⟩ := find_player_spec (connection c).account accounts
          cells game.count 0 (by omega) (by omega)
        cases found with
        | none =>
          refine .inl ⟨fun i => missed rfl i (Nat.zero_le i), ?_⟩
          simp [search]
        | some i =>
          right
          have occupied := hit i rfl
          obtain ⟨d, taken⟩ := occupied.2
          have inside : i < cells.length := (List.getElem?_eq_some_iff.mp taken).1
          refine ⟨i, occupied, ?_⟩
          have sized : Sized (vacated game i).connections (vacated game i).count := by
            rw [Sized, vacated, getD_some, whole, length_set, slotCount]
          have chosen := choose_host_spec connection sized
          rw [vacated, whole, players, reported] at chosen
          have write : setSlot (some cells) i none = some (cells.set i none) := by
            rw [setSlot, bind_some, write_inside _ _ _ inside]
          have read : readAt reports i = some reports[i] := read_inside _ _ (by omega)
          simp only [search, bind_eq_bind, bind_some, write, read]
          by_cases last : game.ref < 2
          · simp only [if_pos last, emptied, whole, players, reported]
          · simp only [if_neg last, vacated, whole, players, reported, chosen, bind_some]

theorem free_seat (free : Free slots full rest) :
    seat slots full.length (some c) = full ++ some c :: rest := by
  rcases free.split with split | ⟨whole, none_⟩
  · simp [split, seat]
  · rw [whole, none_, seat_end]

theorem free_connected (free : Free slots full rest) :
    slots.reduceOption = full.reduceOption ++ rest.reduceOption := by
  rcases free.split with split | ⟨whole, none_⟩
  · rw [split, reduceOption_append, reduceOption_cons_of_none]
  · rw [whole, none_, reduceOption_nil, append_nil]

theorem joined_connected (free : Free game.slots full rest) :
    (joined connection game full.length c).connected =
      full.reduceOption ++ c :: rest.reduceOption := by
  have seats : (joined connection game full.length c).slots = full ++ some c :: rest :=
    free_seat free
  rw [Game.connected, seats, reduceOption_append, reduceOption_cons_of_some]

theorem hosted_connected (connection : Nat → Connection) (game : Game) :
    (hosted connection game).connected = game.connected := by
  rw [hosted]
  split <;> rfl

theorem hosted_host (connection : Nat → Connection) (game : Game) :
    ∀ c ∈ game.connected.head?, Hosts connection (hosted connection game) c := by
  intro c first
  rw [hosted, first]
  exact ⟨rfl, rfl, rfl⟩

theorem hosted_seated (connections : Sized game.connections game.count)
    (players : Sized game.players game.count) (results : Sized game.results game.count)
    (reportedResults : Sized game.reportedResults game.count)
    (reportHeads : Sized game.reportHeads game.count)
    (reportBodies : Sized game.reportBodies game.count) (ref : game.ref = game.connected.length)
    (agree : ∀ i c : Nat, game.slots[i]? = some (some c) →
      game.accounts[i]? = some (some (connection c).account)) :
    Seated connection (hosted connection game) := by
  have host := hosted_host connection game
  have same := hosted_connected connection game
  refine ⟨?_, ?_, ?_, ?_, ?_, ?_, ?_, ?_, by rwa [same]⟩
  all_goals
    rw [hosted]
    split <;> assumption

theorem joined_seated (seated : Seated connection game) (free : Free game.slots full rest) :
    Seated connection (hosted connection (joined connection game full.length c)) := by
  have inside : full.length ≤ game.count := by
    rw [← show game.slots.length = game.count from seated.connections]
    exact free_inside free
  have slotInside : full.length ≤ game.slots.length := free_inside free
  have accountInside : full.length ≤ game.accounts.length := by
    rw [show game.accounts.length = game.count from seated.players]
    exact inside
  apply hosted_seated
  · exact seat_sized _ seated.connections inside
  · exact seat_sized _ seated.players inside
  · exact seat_sized _ seated.results inside
  · exact seat_sized _ seated.reportedResults inside
  · exact seat_sized _ seated.reportHeads inside
  · exact seat_sized _ seated.reportBodies inside
  · have before := free_connected free
    have total := seated.ref
    rw [Game.connected, before, length_append] at total
    rw [joined_connected free, length_append, length_cons]
    change game.ref + 1 = _
    omega
  · intro i d taken
    have slots : (joined connection game full.length c).slots =
        seat game.slots full.length (some c) := rfl
    have accounts : (joined connection game full.length c).accounts =
        seat game.accounts full.length (some (connection c).account) := rfl
    rw [slots] at taken
    rw [accounts]
    by_cases same : i = full.length
    · subst same
      rw [seat_same _ slotInside, some.injEq, some.injEq] at taken
      rw [seat_same _ accountInside, taken]
    · rw [seat_other _ slotInside same] at taken
      rw [seat_other _ accountInside same]
      exact seated.agree i d taken

theorem split_at {entry : Option Nat} (taken : slots[i]? = some entry) :
    ∃ front back, slots = front ++ entry :: back ∧
      ∀ value, slots.set i value = front ++ value :: back := by
  obtain ⟨inside, value⟩ := List.getElem?_eq_some_iff.mp taken
  have parts := take_append_drop i slots
  rw [drop_eq_getElem_cons inside, value] at parts
  exact ⟨_, _, parts.symm, fun value => by rw [set_eq_take_append_cons_drop, if_pos inside]⟩

theorem vacated_connected {d : Nat} (taken : game.slots[i]? = some (some d)) :
    ∃ before after, game.connected = before ++ d :: after ∧
      (vacated game i).connected = before ++ after := by
  obtain ⟨front, back, split, set⟩ := split_at taken
  have slots : (vacated game i).slots = front ++ none :: back := set none
  refine ⟨front.reduceOption, back.reduceOption, ?_, ?_⟩
  · rw [Game.connected, split, reduceOption_append, reduceOption_cons_of_some]
  · rw [Game.connected, slots, reduceOption_append, reduceOption_cons_of_none]

theorem vacated_seated (seated : Seated connection game) {d : Nat}
    (taken : game.slots[i]? = some (some d)) :
    Seated connection (hosted connection (vacated game i)) := by
  have slotCount : game.slots.length = game.count := seated.connections
  apply hosted_seated
  · change (game.slots.set i none).length = game.count
    rw [length_set, slotCount]
  · exact seated.players
  · exact seated.results
  · exact seated.reportedResults
  · exact seated.reportHeads
  · exact seated.reportBodies
  · obtain ⟨before, after, whole, left⟩ := vacated_connected taken
    have total := seated.ref
    rw [whole, length_append, length_cons] at total
    rw [left, length_append]
    change game.ref - 1 = _
    omega
  · intro j e occupied
    have slots : (vacated game i).slots = game.slots.set i none := rfl
    rw [slots] at occupied
    by_cases same : i = j
    · subst same
      rw [getElem?_set_self (List.getElem?_eq_some_iff.mp taken).1] at occupied
      cases occupied
    · rw [getElem?_set_ne same] at occupied
      exact seated.agree j e occupied

end Slots

/-- The connections that have joined each game and not left it. -/
abbrev Roster := Nat → List Nat

/-- What a call changes in the roster, by its return code. -/
def follow (roster : Roster) (code : Int) : Call → Roster
  | .create .. => roster
  | .add address _ _ _ c =>
    if code = 0 then update roster address (roster address ++ [c]) else roster
  | .del address c =>
    if code = 0 then update roster address ((roster address).erase c) else roster

/-- The allocator gives an address that is not in use. A call is for a listed game. A connection
joins when it is in no game, and an account has one connection. -/
def Permitted (connection : Nat → Connection) (world : World) (roster : Roster) : Call → Prop
  | .create address .. => address ∉ world.gamelist.map fst
  | .add address _ _ _ c => address ∈ world.gamelist.map fst ∧
      ∀ other, ∀ d ∈ roster other, (connection d).account ≠ (connection c).account
  | .del address c => address ∈ world.gamelist.map fst ∧
      ∀ other, ∀ d ∈ roster other, (connection d).account = (connection c).account → d = c

inductive Reached (connection : Nat → Connection) : World → Roster → Prop
  | start : Reached connection ⟨[], 0, []⟩ fun _ => []
  | call {world after : World} {roster : Roster} {call : Call} {code : Int}
      (before : Reached connection world roster)
        (permitted : Permitted connection world roster call)
      (ran : step connection world call = some (code, after)) :
      Reached connection after (follow roster code call)

structure Consistent (connection : Nat → Connection) (world : World) (roster : Roster) : Prop where
  addresses : (world.gamelist.map fst).Nodup
  seated : ∀ entry ∈ world.gamelist, Seated connection entry.2
  players : ∀ entry ∈ world.gamelist, entry.2.count = 0 ∨ 0 < entry.2.ref
  members : ∀ entry ∈ world.gamelist, entry.2.connected.Perm (roster entry.1)
  absent : ∀ address, address ∉ world.gamelist.map fst → roster address = []
  once : ∀ address, (roster address).Nodup
  single : ∀ first second c, c ∈ roster first → c ∈ roster second → first = second
  accounts : ∀ first second c d, c ∈ roster first → d ∈ roster second →
    (connection c).account = (connection d).account → c = d

variable {game : Game} {c : Nat}

section Worlds
variable {connection : Nat → Connection} {world : World} {roster : Roster}

variable {address : Nat}

theorem game_at_mem (nodup : (world.gamelist.map fst).Nodup)
    (member : (address, game) ∈ world.gamelist) : gameAt world address = some game := by
  rw [gameAt]
  generalize world.gamelist = list at nodup member
  induction list with
  | nil => cases member
  | cons first rest ih =>
    rw [map_cons, nodup_cons] at nodup
    rcases mem_cons.mp member with rfl | inside
    · simp
    have apart : first.1 ≠ address := by
      rintro rfl
      exact nodup.1 (mem_map.mpr ⟨_, inside, rfl⟩)
    rw [find?_cons_of_neg (by simpa using apart)]
    exact ih nodup.2 inside

theorem put_addresses (address : Nat) (game : Game) :
    (putGame world address game).gamelist.map fst = world.gamelist.map fst := by
  simp only [putGame, List.map_map, map_inj_left]
  intro entry _
  by_cases hit : entry.1 = address <;> simp [hit]

theorem put_mem {entry : Nat × Game} (member : entry ∈ (putGame world address game).gamelist) :
    entry = (address, game) ∨ (entry.1 ≠ address ∧ entry ∈ world.gamelist) := by
  simp only [putGame, List.mem_map] at member
  obtain ⟨old, inside, result⟩ := member
  by_cases hit : old.1 = address
  · rw [if_pos hit] at result
    exact .inl result.symm
  · rw [if_neg hit] at result
    subst result
    exact .inr ⟨hit, inside⟩

theorem put_consistent (consistent : Consistent connection world roster)
    {members : List Nat} (seated : Seated connection game) (players : game.count = 0 ∨ 0 < game.ref)
    (perm : game.connected.Perm members) (listed : address ∈ world.gamelist.map fst)
    (nodup : members.Nodup) (single : ∀ c ∈ members, ∀ other, c ∈ roster other → other = address)
    (accounts : ∀ c ∈ members, ∀ d, (d ∈ members ∨ ∃ other, d ∈ roster other) →
      (connection c).account = (connection d).account → c = d) :
    Consistent connection (putGame world address game)
      (update roster address members) := by
  have split : ∀ {property : Nat × Game → Prop}, property (address, game) →
      (∀ entry ∈ world.gamelist, entry.1 ≠ address → property entry) →
      ∀ entry ∈ (putGame world address game).gamelist, property entry := by
    intro property own others entry member
    rcases put_mem member with rfl | ⟨apart, inside⟩
    · exact own
    · exact others entry inside apart
  have at_ : ∀ other, update roster address members other =
      if other = address then members else roster other := fun other => by
    simp [update_apply]
  constructor
  · rw [put_addresses]
    exact consistent.addresses
  · exact split seated fun entry member _ => consistent.seated entry member
  · exact split players fun entry member _ => consistent.players entry member
  · refine split (by simpa using perm) fun entry member apart => ?_
    rw [at_, if_neg apart]
    exact consistent.members entry member
  · intro other unlisted
    rw [put_addresses] at unlisted
    rw [at_, if_neg fun same : other = address => unlisted (same ▸ listed)]
    exact consistent.absent other unlisted
  · intro other
    rw [at_]
    split
    · exact nodup
    · exact consistent.once other
  · intro first second c inFirst inSecond
    rw [at_] at inFirst inSecond
    by_cases one : first = address <;> by_cases two : second = address
    · rw [one, two]
    · rw [if_pos one] at inFirst
      rw [if_neg two] at inSecond
      rw [one, single c inFirst second inSecond]
    · rw [if_neg one] at inFirst
      rw [if_pos two] at inSecond
      rw [two, single c inSecond first inFirst]
    · rw [if_neg one] at inFirst
      rw [if_neg two] at inSecond
      exact consistent.single first second c inFirst inSecond
  · intro first second c d inFirst inSecond same
    rw [at_] at inFirst inSecond
    by_cases one : first = address <;> by_cases two : second = address
    · rw [if_pos one] at inFirst
      rw [if_pos two] at inSecond
      exact accounts c inFirst d (.inl inSecond) same
    · rw [if_pos one] at inFirst
      rw [if_neg two] at inSecond
      exact accounts c inFirst d (.inr ⟨second, inSecond⟩) same
    · rw [if_neg one] at inFirst
      rw [if_pos two] at inSecond
      exact (accounts d inSecond c (.inr ⟨first, inFirst⟩) same.symm).symm
    · rw [if_neg one] at inFirst
      rw [if_neg two] at inSecond
      exact consistent.accounts first second c d inFirst inSecond same

theorem drop_consistent (consistent : Consistent connection world roster) (address : Nat) :
    Consistent connection (dropGame world address) (update roster address []) := by
  have sub : (dropGame world address).gamelist.Sublist world.gamelist := filter_sublist
  have at_ : ∀ other, update roster address [] other =
      if other = address then [] else roster other := fun other => by
    simp [update_apply]
  have apart : ∀ entry ∈ (dropGame world address).gamelist, entry.1 ≠ address := by
    intro entry member
    simpa using (mem_filter.mp member).2
  constructor
  · exact consistent.addresses.sublist (sub.map fst)
  · exact fun entry member => consistent.seated entry (sub.subset member)
  · exact fun entry member => consistent.players entry (sub.subset member)
  · intro entry member
    rw [at_, if_neg (apart entry member)]
    exact consistent.members entry (sub.subset member)
  · intro other unlisted
    rw [at_]
    split
    · rfl
    rename_i different
    refine consistent.absent other fun listed => unlisted ?_
    obtain ⟨entry, member, rfl⟩ := mem_map.mp listed
    exact mem_map_of_mem (mem_filter.mpr ⟨member, by simpa using different⟩)
  · intro other
    rw [at_]
    split
    · exact nodup_nil
    · exact consistent.once other
  · intro first second c inFirst inSecond
    rw [at_] at inFirst inSecond
    split at inFirst
    · cases inFirst
    · split at inSecond
      · cases inSecond
      · exact consistent.single first second c inFirst inSecond
  · intro first second c d inFirst inSecond same
    rw [at_] at inFirst inSecond
    split at inFirst
    · cases inFirst
    · split at inSecond
      · cases inSecond
      · exact consistent.accounts first second c d inFirst inSecond same

theorem create_consistent (consistent : Consistent connection world roster)
    (unused : address ∉ world.gamelist.map fst) (name pass info : Option Text)
    (type : GameType) (clienttag : UInt32) :
    Consistent connection (gameCreate world address name pass info type clienttag).2 roster ∧
      (gameCreate world address name pass info type clienttag).2.reported = world.reported ∧
      (world.gamelist.map fst).Sublist
        ((gameCreate world address name pass info type clienttag).2.gamelist.map fst) := by
  unfold gameCreate
  split
  · split
    · exact ⟨consistent, rfl, Sublist.refl _⟩
    split
    · exact ⟨consistent, rfl, Sublist.refl _⟩
    refine ⟨?_, rfl, sublist_cons_self _ _⟩
    have none_ : roster address = [] := consistent.absent address unused
    constructor
    · exact nodup_cons.mpr ⟨unused, consistent.addresses⟩
    · intro entry member
      rcases mem_cons.mp member with rfl | inside
      · constructor <;> first | rfl | simp [Game.slots, Game.connected]
      · exact consistent.seated entry inside
    · intro entry member
      rcases mem_cons.mp member with rfl | inside
      · exact .inl rfl
      · exact consistent.players entry inside
    · intro entry member
      rcases mem_cons.mp member with rfl | inside
      · rw [none_]
        exact Perm.refl []
      · exact consistent.members entry inside
    · intro other unlisted
      exact consistent.absent other fun listed => unlisted (mem_cons_of_mem _ listed)
    · exact consistent.once
    · exact consistent.single
    · exact consistent.accounts
  · exact ⟨consistent, rfl, Sublist.refl _⟩

theorem listed_game (consistent : Consistent connection world roster)
    (listed : address ∈ world.gamelist.map fst) :
    ∃ game, (address, game) ∈ world.gamelist ∧ gameAt world address = some game := by
  obtain ⟨⟨_, game⟩, member, rfl⟩ := mem_map.mp listed
  exact ⟨game, member, game_at_mem consistent.addresses member⟩

theorem put_same (consistent : Consistent connection world roster)
    (member : (address, game) ∈ world.gamelist) : putGame world address game = world := by
  have same : (world.gamelist.map fun entry =>
      if entry.1 = address then (address, game) else entry) = world.gamelist := by
    conv_rhs => rw [← map_id world.gamelist]
    refine map_congr_left fun entry inside => ?_
    by_cases hit : entry.1 = address
    · have found := game_at_mem consistent.addresses (show (entry.1, entry.2) ∈ _ from inside)
      rw [hit, game_at_mem consistent.addresses member] at found
      rw [if_pos hit, some.inj found, ← hit]
      rfl
    · rw [if_neg hit]
      rfl
  rw [putGame, same]

/-- The game that a call closes: the last connected player leaves it. -/
def closes (roster : Roster) : Call → Option Nat
  | .del address c => if roster address = [c] then some address else none
  | _ => none

@[simp]
theorem closes_create (address : Nat) (name pass info : Option Text) (type : GameType)
    (clienttag : UInt32) :
    closes roster (.create address name pass info type clienttag) = none := rfl

@[simp]
theorem closes_add (address normalWins : Nat) (pass : Option Text) (startver : Int) (c : Nat) :
    closes roster (.add address normalWins pass startver c) = none := rfl

structure StepsTo (connection : Nat → Connection) (world : World) (roster : Roster) (call : Call)
    (code : Int) (after : World) : Prop where
  consistent : Consistent connection after (follow roster code call)
  reported : after.reported = world.reported ++ (closes roster call).toList
  listed : ∀ address ∈ world.gamelist.map fst,
    (address ∈ after.gamelist.map fst ↔ closes roster call ≠ some address)

section
variable (consistent : Consistent connection world roster)
include consistent

theorem create_steps (unused : address ∉ world.gamelist.map fst) (name pass info : Option Text)
    (type : GameType) (clienttag : UInt32) :
    ∃ code after,
      step connection world (.create address name pass info type clienttag) = some (code, after) ∧
        StepsTo connection world roster (.create address name pass info type clienttag) code
          after := by
  obtain ⟨created, reported, kept⟩ :=
    create_consistent consistent unused name pass info type clienttag
  refine ⟨_, _, rfl, created, ?_, ?_⟩
  · rw [closes_create, toList_none, append_nil]
    exact reported
  · intro other listed
    exact iff_of_true (kept.subset listed) (by simp)

theorem add_steps {normalWins c : Nat}
    (permitted : Permitted connection world roster (.add address normalWins pass startver c)) :
    ∃ code after,
      step connection world (.add address normalWins pass startver c) = some (code, after) ∧
        StepsTo connection world roster (.add address normalWins pass startver c) code after := by
  obtain ⟨listed, apart⟩ := permitted
  obtain ⟨game, member, found⟩ := listed_game consistent listed
  have seated : Seated connection game := consistent.seated _ member
  have kept : ∀ (code : Int) (after : Game) (roster' : Roster),
      Consistent connection (putGame world address after) roster' →
      follow roster code (.add address normalWins pass startver c) = roster' →
      StepsTo connection world roster (.add address normalWins pass startver c) code
        (putGame world address after) := by
    intro code after roster' consistent' follows
    refine ⟨follows ▸ consistent', by simp [putGame], fun other inside => ?_⟩
    rw [put_addresses]
    exact iff_of_true inside (by simp)
  rw [step, found]
  cases accepted : refused connection normalWins game pass startver c with
  | true =>
    have answer : gameAddPlayer connection normalWins game pass startver c = some (-1, game) := by
      rw [gameAddPlayer, accepted]
      rfl
    refine ⟨-1, putGame world address game, by simp [answer], kept _ _ roster ?_ rfl⟩
    rw [put_same consistent member]
    exact consistent
  | false =>
    obtain ⟨full, rest, free, -, answer⟩ := add_accepted seated accepted
    refine ⟨0, putGame world address (hosted connection (joined connection game full.length c)),
      by simp [answer], kept _ _ _ ?_ rfl⟩
    have outside : ∀ other, c ∉ roster other := fun other inside => apart other c inside rfl
    have perm := consistent.members _ member
    have positive : 0 < (hosted connection (joined connection game full.length c)).ref := by
      rw [(joined_seated seated free).ref, hosted_connected, joined_connected free,
        length_append, length_cons]
      omega
    refine put_consistent consistent (joined_seated seated free) (.inr positive) ?_ listed ?_ ?_
      ?_
    · rw [hosted_connected, joined_connected free]
      have before : game.connected = full.reduceOption ++ rest.reduceOption := free_connected free
      rw [before] at perm
      exact (perm_middle.trans (perm.cons c)).trans (perm_append_singleton c _).symm
    · exact nodup_append.mpr ⟨consistent.once address, by simp,
        fun d inside e last => by
          rw [mem_singleton.mp last]
          rintro rfl
          exact outside address inside⟩
    · intro d inside other elsewhere
      rcases mem_append.mp inside with old | new
      · exact consistent.single other address d elsewhere old
      · rw [mem_singleton.mp new] at elsewhere
        exact absurd elsewhere (outside other)
    · have others : ∀ d, (d ∈ roster address ++ [c] ∨ ∃ other, d ∈ roster other) →
          d = c ∨ ∃ other, d ∈ roster other := by
        rintro d (inside | elsewhere)
        · rcases mem_append.mp inside with old | new
          · exact .inr ⟨address, old⟩
          · exact .inl (mem_singleton.mp new)
        · exact .inr elsewhere
      intro d inside e elsewhere same
      rcases others d (.inl inside) with rfl | ⟨first, dIn⟩ <;>
        rcases others e elsewhere with rfl | ⟨second, eIn⟩
      · rfl
      · exact absurd same.symm (apart second e eIn)
      · exact absurd same (apart first d dIn)
      · exact consistent.accounts first second d e dIn eIn same

theorem occupied_own {c i : Nat} (member : (address, game) ∈ world.gamelist)
    (alone : ∀ other, ∀ d ∈ roster other, (connection d).account = (connection c).account → d = c)
    (occupied : Occupied (connection c).account game.accounts game.slots i) :
    game.slots[i]? = some (some c) := by
  obtain ⟨player, d, taken⟩ := occupied
  have seated : Seated connection game := consistent.seated _ member
  have account := seated.agree i d taken
  rw [player, some.injEq, some.injEq] at account
  have connected : d ∈ game.connected := reduceOption_mem_iff.mpr (mem_of_getElem? taken)
  have inside : d ∈ roster address := (consistent.members _ member).subset connected
  rw [taken, alone address d inside account.symm]

theorem del_steps (permitted : Permitted connection world roster (.del address c)) :
    ∃ code after, step connection world (.del address c) = some (code, after) ∧
      StepsTo connection world roster (.del address c) code after := by
  obtain ⟨listed, alone⟩ := permitted
  obtain ⟨game, member, found⟩ := listed_game consistent listed
  have seated : Seated connection game := consistent.seated _ member
  have perm : game.connected.Perm (roster address) := consistent.members _ member
  rw [step, found]
  rcases del_cases (c := c) seated with ⟨none_, answer⟩ | ⟨i, occupied, answer⟩
  · have outside : roster address ≠ [c] := by
      intro whole
      have inside : c ∈ game.connected := perm.symm.subset (by simp [whole])
      obtain ⟨i, taken⟩ := getElem?_of_mem (reduceOption_mem_iff.mp inside)
      exact none_ i ⟨seated.agree i c taken, c, taken⟩
    refine ⟨-1, putGame world address game, by simp [answer], ?_⟩
    rw [put_same consistent member]
    refine ⟨consistent, by simp [closes, outside], fun other inside => ?_⟩
    exact iff_of_true inside (by simp [closes, outside])
  have taken := occupied_own consistent member alone occupied
  obtain ⟨before, later, whole, left⟩ := vacated_connected taken
  by_cases last : game.ref < 2
  · have alone_ : roster address = [c] := by
      have total := seated.ref
      rw [whole, length_append, length_cons] at total
      have first : before = [] := length_eq_zero_iff.mp (by omega)
      have second : later = [] := length_eq_zero_iff.mp (by omega)
      rw [whole, first, second] at perm
      exact (singleton_perm.mp perm).symm
    refine ⟨0, dropGame world address, by simp [answer, last], ?_⟩
    refine ⟨?_, by simp [closes, alone_, dropGame], fun other inside => ?_⟩
    · rw [follow, if_pos rfl, alone_, erase_cons_head]
      exact drop_consistent consistent address
    have kept : other ∈ (dropGame world address).gamelist.map fst ↔ other ≠ address := by
      constructor
      · intro stays same
        obtain ⟨entry, entryIn, rfl⟩ := mem_map.mp stays
        have apart := (mem_filter.mp entryIn).2
        exact absurd same (by simpa using apart)
      · intro apart
        obtain ⟨entry, entryIn, rfl⟩ := mem_map.mp inside
        exact mem_map_of_mem (mem_filter.mpr ⟨entryIn, by simpa using apart⟩)
    rw [kept, closes, if_pos alone_]
    exact ⟨fun apart same => apart (some.inj same).symm,
      fun apart same => apart (congrArg some same.symm)⟩
  · have more : roster address ≠ [c] := by
      intro single
      have total := seated.ref
      rw [perm.length_eq, single, length_singleton] at total
      omega
    refine ⟨0, putGame world address (hosted connection (vacated game i)),
      by simp [answer, last], ?_⟩
    refine ⟨?_, by simp [closes, more, putGame], fun other member => ?_⟩
    · have rest : (before ++ later).Perm ((roster address).erase c) := by
        rw [whole] at perm
        have erased := (perm_middle.symm.trans perm).erase c
        rwa [erase_cons_head] at erased
      have positive : 0 < (hosted connection (vacated game i)).ref := by
        have total := seated.ref
        rw [whole, length_append, length_cons] at total
        rw [(vacated_seated seated taken).ref, hosted_connected, left, length_append]
        omega
      refine put_consistent consistent (vacated_seated seated taken) (.inr positive) ?_ listed
        ((consistent.once address).erase c) ?_ ?_
      · rw [hosted_connected, left]
        exact rest
      · intro d remaining other elsewhere
        exact consistent.single other address d elsewhere (mem_of_mem_erase remaining)
      · rintro d remaining e (inside | ⟨other, elsewhere⟩) same
        · exact consistent.accounts address address d e (mem_of_mem_erase remaining)
            (mem_of_mem_erase inside) same
        · exact consistent.accounts address other d e (mem_of_mem_erase remaining) elsewhere
            same
    · rw [put_addresses]
      exact iff_of_true member (by simp [closes, more])

theorem steps_to {call : Call} (permitted : Permitted connection world roster call) :
    ∃ code after, step connection world call = some (code, after) ∧
      StepsTo connection world roster call code after := by
  cases call with
  | create address name pass info type clienttag =>
    exact create_steps consistent permitted name pass info type clienttag
  | add address normalWins pass startver c => exact add_steps consistent permitted
  | del address c => exact del_steps consistent permitted

end

theorem start_consistent : Consistent connection ⟨[], 0, []⟩ fun _ => [] := by
  constructor <;> simp

theorem reached_consistent (reached : Reached connection world roster) :
    Consistent connection world roster := by
  induction reached with
  | start => exact start_consistent
  | call before permitted ran ih =>
    obtain ⟨code, after, same, steps⟩ := steps_to ih permitted
    rw [ran, some.injEq, mk.injEq] at same
    obtain ⟨rfl, rfl⟩ := same
    exact steps.consistent

def Filled {Cell : Type} (array : Option (List Cell)) (count : Nat) : Prop :=
  ∃ cells, array = some cells ∧ cells.length = count

/-- What a game with these players satisfies. -/
structure InOrder (connection : Nat → Connection) (game : Game) (members : List Nat) : Prop where
  connections : Filled game.connections game.count
  players : Filled game.players game.count
  results : Filled game.results game.count
  reportedResults : Filled game.reportedResults game.count
  reportHeads : Filled game.reportHeads game.count
  reportBodies : Filled game.reportBodies game.count
  ref : game.ref = (game.slots.filter isSome).length
  owner : ∃ c, some c ∈ game.slots ∧ Hosts connection game c
  member : ∀ c, c ∈ members ↔ some c ∈ game.slots
  slot : ∀ c ∈ members, ∃! i : Nat, game.slots[i]? = some (some c)
  found : ∀ c ∈ members, ∀ i : Nat, Occupied (connection c).account game.accounts game.slots i ↔
    game.slots[i]? = some (some c)

theorem sized_filled {Cell : Type} {array : Option (List Cell)} {count : Nat}
    (sized : Sized array count) (positive : 0 < count) : Filled array count := by
  cases array with
  | none =>
    have zero : 0 = count := sized
    omega
  | some cells => exact ⟨cells, rfl, sized⟩

theorem reduce_length (slots : List (Option Nat)) :
    slots.reduceOption.length = (slots.filter isSome).length := by
  induction slots with
  | nil => rfl
  | cons entry rest ih => cases entry <;> simp [ih]

theorem reduce_slot {slots : List (Option Nat)} (nodup : slots.reduceOption.Nodup) {i j c : Nat}
    (first : slots[i]? = some (some c)) (second : slots[j]? = some (some c)) : i = j := by
  induction slots generalizing i j with
  | nil => cases first
  | cons entry rest ih =>
    have later : ∀ k : Nat, rest[k]? = some (some c) → c ∈ rest.reduceOption := fun k taken =>
      reduceOption_mem_iff.mpr (mem_of_getElem? taken)
    cases entry with
    | none =>
      cases i <;> cases j
      · rfl
      · cases first
      · cases second
      · exact congrArg _ (ih nodup first second)
    | some d =>
      rw [reduceOption_cons_of_some, nodup_cons] at nodup
      cases i <;> cases j
      · rfl
      · obtain rfl : d = c := by simpa using first
        exact absurd (later _ second) nodup.1
      · obtain rfl : d = c := by simpa using second
        exact absurd (later _ first) nodup.1
      · exact congrArg _ (ih nodup.2 first second)

theorem consistent_order (consistent : Consistent connection world roster)
    (member : (address, game) ∈ world.gamelist) (playing : 0 < game.ref) :
    InOrder connection game (roster address) := by
  have seated : Seated connection game := consistent.seated _ member
  have perm : game.connected.Perm (roster address) := consistent.members _ member
  have inside : ∀ c, c ∈ roster address ↔ some c ∈ game.slots := fun c => by
    rw [← perm.mem_iff, Game.connected, reduceOption_mem_iff]
  have positive : 0 < game.count := by
    have total := seated.ref
    have below := reduceOption_length_le game.slots
    rw [show game.slots.length = game.count from seated.connections] at below
    rw [Game.connected] at total
    omega
  have owner : ∃ c, some c ∈ game.slots ∧ Hosts connection game c := by
    have some_ : game.connected ≠ [] := by
      intro empty
      have total := seated.ref
      rw [empty, length_nil] at total
      omega
    obtain ⟨c, rest, whole⟩ := exists_cons_of_ne_nil some_
    refine ⟨c, reduceOption_mem_iff.mp ?_, seated.host c (by simp [whole])⟩
    rw [← Game.connected, whole]
    exact mem_cons_self
  have nodup : game.connected.Nodup := perm.nodup_iff.mpr (consistent.once address)
  refine ⟨sized_filled seated.connections positive, sized_filled seated.players positive,
    sized_filled seated.results positive, sized_filled seated.reportedResults positive,
    sized_filled seated.reportHeads positive, sized_filled seated.reportBodies positive, ?_, owner,
    inside, ?_, ?_⟩
  · rw [seated.ref, Game.connected, reduce_length]
  · intro c joined
    obtain ⟨i, taken⟩ := getElem?_of_mem ((inside c).mp joined)
    exact ⟨i, taken, fun j other => reduce_slot nodup other taken⟩
  · intro c joined i
    constructor
    · intro occupied
      refine occupied_own consistent member (fun other d elsewhere same => ?_) occupied
      exact consistent.accounts other address d c elsewhere joined same
    · exact fun taken => ⟨seated.agree i c taken, c, taken⟩

/-- In every reachable world the games with players are in order. Every permitted call returns, and
a game is reported and leaves the list exactly when its last player leaves. -/
theorem games_consistent (reached : Reached connection world roster) :
    (∀ address game, (address, game) ∈ world.gamelist → 0 < game.ref →
      InOrder connection game (roster address)) ∧
    ∀ call, Permitted connection world roster call →
      ∃ code after, step connection world call = some (code, after) ∧
        after.reported = world.reported ++ (closes roster call).toList ∧
        ∀ address ∈ world.gamelist.map fst,
          (address ∉ after.gamelist.map fst ↔ closes roster call = some address) := by
  have consistent := reached_consistent reached
  refine ⟨fun address game member playing => consistent_order consistent member playing, ?_⟩
  intro call permitted
  obtain ⟨code, after, ran, steps⟩ := steps_to consistent permitted
  refine ⟨code, after, ran, steps.reported, fun address listed => ?_⟩
  rw [steps.listed address listed, not_not]

end Worlds

section Lobby

def guest (c : Nat) : Connection := ⟨c, 0, 6112, false⟩

def openGame : Call := .create 7 (some [97]) (some []) (some []) .melee 1

def emptyGame : Game := {
  name := [97], pass := [], info := [], type := .melee, status := .opened, clienttag := 1, id := 1
  ref := 0, count := 0, owner := none, addr := 0, port := 0
  connections := none, players := none, results := none, reportedResults := none
  reportHeads := none, reportBodies := none }

def gameOf (slots : List (Option Nat)) (players : List Nat) (owner : Nat) : Game :=
  { emptyGame with
    ref := slots.reduceOption.length, count := slots.length, owner := some owner, port := 6112
    connections := some slots, players := some (players.map some)
    results := some (slots.map fun _ => GameResult.none)
    reportedResults := some (slots.map fun _ => none)
    reportHeads := some (slots.map fun _ => none), reportBodies := some (slots.map fun _ => none) }

def lobby (game : Game) : World := ⟨[(7, game)], 1, []⟩

theorem lobby_open : Reached guest (lobby emptyGame) fun _ => [] :=
  Reached.call Reached.start (by simp [Permitted, openGame])
    (show step guest ⟨[], 0, []⟩ openGame = some (0, _) from rfl)

theorem lobby_joined :
    Reached guest (lobby (gameOf [some 1] [1] 1))
      (follow (fun _ => []) 0 (.add 7 0 (some []) 0 1)) :=
  Reached.call lobby_open ⟨by decide, by simp⟩
    (show step guest (lobby emptyGame) (.add 7 0 (some []) 0 1) = some (0, _) from rfl)

/-- A game that one player has created and joined, and nobody else. -/
theorem lobby_consistent :
    InOrder guest (gameOf [some 1] [1] 1) [1] ∧
      ∃ code after, step guest (lobby (gameOf [some 1] [1] 1)) (.del 7 1) = some (code, after) ∧
        after.reported = [7] := by
  have leaves : Permitted guest (lobby (gameOf [some 1] [1] 1))
      (follow (fun _ => []) 0 (.add 7 0 (some []) 0 1)) (.del 7 1) :=
    ⟨by decide, fun _ _ _ same => same⟩
  obtain ⟨ordered, steps⟩ := games_consistent lobby_joined
  obtain ⟨code, after, ran, reported, -⟩ := steps (.del 7 1) leaves
  exact ⟨ordered 7 _ mem_cons_self (by decide), code, after, ran, reported⟩

end Lobby

structure Transition where
  before : World
  call : Call
  after : World

inductive Course (connection : Nat → Connection) : List Transition → World → Roster → Prop
  | start : Course connection [] ⟨[], 0, []⟩ fun _ => []
  | call {trace : List Transition} {world after : World} {roster : Roster} {call : Call}
      {code : Int}
      (before : Course connection trace world roster)
      (permitted : Permitted connection world roster call)
      (ran : step connection world call = some (code, after)) :
      Course connection (trace ++ [⟨world, call, after⟩]) after (follow roster code call)

/-- A game with players keeps its host, unless the call is the leave of its owner. -/
def HostStays (transition : Transition) : Prop :=
  ∀ address game later, (address, game) ∈ transition.before.gamelist → 0 < game.ref →
    (address, later) ∈ transition.after.gamelist →
    (∀ c ∈ game.owner, transition.call ≠ .del address c) →
      later.owner = game.owner ∧ later.addr = game.addr ∧ later.port = game.port

/-- Whoever joins a game with players finds its first slot taken. -/
def FirstSlotTaken (connection : Nat → Connection) (world : World) : Call → Prop
  | .add address normalWins pass startver c => ∀ game, (address, game) ∈ world.gamelist →
      0 < game.ref → refused connection normalWins game pass startver c = false →
        game.slots[0]? ≠ some none
  | _ => True

section Hosting
variable {connection : Nat → Connection} {world after : World} {roster : Roster}

theorem course_reached {trace : List Transition} (course : Course connection trace world roster) :
    Reached connection world roster := by
  induction course with
  | start => exact Reached.start
  | call before permitted ran ih => exact Reached.call ih permitted ran

variable {address : Nat} {code : Int}

theorem same_entry (consistent : Consistent connection world roster) {first second : Game}
    (one : (address, first) ∈ world.gamelist) (two : (address, second) ∈ world.gamelist) :
    second = first := by
  have found := game_at_mem consistent.addresses one
  rw [game_at_mem consistent.addresses two] at found
  exact some.inj found

theorem connected_some (seated : Seated connection game) (playing : 0 < game.ref) :
    ∃ c rest, game.connected = c :: rest := by
  refine exists_cons_of_ne_nil fun empty => ?_
  rw [seated.ref, empty] at playing
  exact absurd playing (by simp)

theorem same_host {game later : Game} {rest others : List Nat} (seated : Seated connection game)
    (laterSeated : Seated connection later) (first : game.connected = c :: rest)
    (second : later.connected = c :: others) :
    later.owner = game.owner ∧ later.addr = game.addr ∧ later.port = game.port := by
  obtain ⟨owner, addr, port⟩ := seated.host c (by simp [first])
  obtain ⟨laterOwner, laterAddr, laterPort⟩ := laterSeated.host c (by simp [second])
  exact ⟨by rw [laterOwner, owner], by rw [laterAddr, addr], by rw [laterPort, port]⟩

variable {call : Call}

theorem put_host {game changed : Game} (consistent : Consistent connection world roster)
    (member : (address, game) ∈ world.gamelist) :
    HostStays ⟨world, call, putGame world address changed⟩ ↔
      (0 < game.ref → (∀ c ∈ game.owner, call ≠ .del address c) →
        changed.owner = game.owner ∧ changed.addr = game.addr ∧ changed.port = game.port) := by
  constructor
  · intro stays playing other
    refine stays address game changed member playing ?_ other
    simp only [putGame, List.mem_map]
    exact ⟨(address, game), member, if_pos rfl⟩
  intro stays other old later oldIn playing laterIn leaves
  rcases put_mem laterIn with same | ⟨apart, laterIn⟩
  · obtain ⟨rfl, rfl⟩ := mk.inj same
    rw [same_entry consistent member oldIn] at playing leaves ⊢
    exact stays playing leaves
  · rw [same_entry consistent oldIn laterIn]
    exact ⟨rfl, rfl, rfl⟩

theorem create_host (consistent : Consistent connection world roster)
    (unused : address ∉ world.gamelist.map fst) (name pass info : Option Text)
    (type : GameType) (clienttag : UInt32) :
    HostStays ⟨world, .create address name pass info type clienttag,
      (gameCreate world address name pass info type clienttag).2⟩ := by
  have kept : ∀ entry ∈ (gameCreate world address name pass info type clienttag).2.gamelist,
      entry.1 = address ∨ entry ∈ world.gamelist := by
    intro entry member
    unfold gameCreate at member
    split at member
    · split at member
      · exact .inr member
      split at member
      · exact .inr member
      · rcases mem_cons.mp member with rfl | inside
        · exact .inl rfl
        · exact .inr inside
    · exact .inr member
  intro other game later member _ laterIn _
  rcases kept _ laterIn with new | inside
  · subst new
    exact absurd (mem_map_of_mem (f := fst) member) unused
  · rw [same_entry consistent member inside]
    exact ⟨rfl, rfl, rfl⟩

theorem join_host {full rest : List (Option Nat)} (seated : Seated connection game)
    (free : Free game.slots full rest) (playing : 0 < game.ref) (outside : c ∉ game.connected) :
    ((hosted connection (joined connection game full.length c)).owner = game.owner ∧
      (hosted connection (joined connection game full.length c)).addr = game.addr ∧
      (hosted connection (joined connection game full.length c)).port = game.port) ↔
    game.slots[0]? ≠ some none := by
  have laterSeated := joined_seated (c := c) seated free
  have connected : (hosted connection (joined connection game full.length c)).connected =
      full.reduceOption ++ c :: rest.reduceOption := by
    rw [hosted_connected, joined_connected free]
  have before : game.connected = full.reduceOption ++ rest.reduceOption := free_connected free
  cases full with
  | nil =>
    have slot : game.slots[0]? = some none := by
      rcases free.split with split | ⟨whole, none_⟩
      · simp [split]
      · obtain ⟨d, others, some_⟩ := connected_some seated playing
        rw [before, none_] at some_
        cases some_
    obtain ⟨d, others, some_⟩ := connected_some seated playing
    have owner := (seated.host d (by simp [some_])).1
    have newOwner := (laterSeated.host c (by rw [connected]; rfl)).1
    refine iff_of_false ?_ (by simp [slot])
    rintro ⟨same, -⟩
    rw [newOwner, owner, some.injEq] at same
    exact outside (by simp [some_, same])
  | cons entry others =>
    obtain ⟨d, rfl⟩ := ne_none_iff_exists'.mp (free.filled entry (by simp))
    have slot : game.slots[0]? = some (some d) := by
      rcases free.split with split | ⟨whole, -⟩
      · simp [split]
      · simp [whole]
    refine iff_of_true ?_ (by simp [slot])
    exact same_host seated laterSeated before connected

section
variable (consistent : Consistent connection world roster)
include consistent

theorem add_host {normalWins c : Nat}
    (permitted : Permitted connection world roster (.add address normalWins pass startver c))
    (ran : step connection world (.add address normalWins pass startver c) = some (code, after)) :
    HostStays ⟨world, .add address normalWins pass startver c, after⟩ ↔
      FirstSlotTaken connection world (.add address normalWins pass startver c) := by
  obtain ⟨listed, apart⟩ := permitted
  obtain ⟨game, member, found⟩ := listed_game consistent listed
  have seated : Seated connection game := consistent.seated _ member
  have perm : game.connected.Perm (roster address) := consistent.members _ member
  have taken : FirstSlotTaken connection world (.add address normalWins pass startver c) ↔
      (0 < game.ref → refused connection normalWins game pass startver c = false →
        game.slots[0]? ≠ some none) := by
    constructor
    · exact fun all => all game member
    · intro here other otherIn
      rw [same_entry consistent member otherIn]
      exact here
  rw [step, found] at ran
  rw [taken]
  cases accepted : refused connection normalWins game pass startver c with
  | true =>
    have answer : gameAddPlayer connection normalWins game pass startver c = some (-1, game) := by
      rw [gameAddPlayer, accepted]
      rfl
    simp only [answer, bind_eq_bind, bind_some] at ran
    obtain ⟨rfl, rfl⟩ := ran
    rw [put_host consistent member]
    exact iff_of_true (fun _ _ => ⟨rfl, rfl, rfl⟩) (by simp)
  | false =>
    obtain ⟨full, rest, free, -, answer⟩ := add_accepted seated accepted
    simp only [answer, bind_eq_bind, bind_some] at ran
    obtain ⟨rfl, rfl⟩ := ran
    have outside : c ∉ game.connected := fun inside => apart address c (perm.subset inside) rfl
    rw [put_host consistent member]
    constructor
    · intro stays playing _
      exact (join_host seated free playing outside).mp (stays playing (by simp))
    · intro slot playing _
      exact (join_host seated free playing outside).mpr (slot playing rfl)

theorem del_host (permitted : Permitted connection world roster (.del address c))
    (ran : step connection world (.del address c) = some (code, after)) :
    HostStays ⟨world, .del address c, after⟩ := by
  obtain ⟨listed, alone⟩ := permitted
  obtain ⟨game, member, found⟩ := listed_game consistent listed
  have seated : Seated connection game := consistent.seated _ member
  rw [step, found] at ran
  rcases del_cases (c := c) seated with ⟨none_, answer⟩ | ⟨i, occupied, answer⟩
  · simp only [answer, bind_eq_bind, bind_some] at ran
    obtain ⟨rfl, rfl⟩ := ran
    exact (put_host consistent member).mpr fun _ _ => ⟨rfl, rfl, rfl⟩
  have taken := occupied_own consistent member alone occupied
  obtain ⟨before, later, whole, left⟩ := vacated_connected taken
  by_cases last : game.ref < 2
  · simp only [answer, if_pos last, bind_eq_bind, bind_some] at ran
    obtain ⟨rfl, rfl⟩ := ran
    intro other old kept oldIn _ keptIn _
    obtain ⟨inside, apart⟩ := mem_filter.mp keptIn
    rw [same_entry consistent oldIn inside]
    exact ⟨rfl, rfl, rfl⟩
  simp only [answer, if_neg last, bind_eq_bind, bind_some] at ran
  obtain ⟨rfl, rfl⟩ := ran
  refine (put_host consistent member).mpr fun playing leaves => ?_
  have laterConnected : (hosted connection (vacated game i)).connected = before ++ later := by
    rw [hosted_connected, left]
  cases before with
  | nil =>
    have owner := (seated.host c (by simp [whole])).1
    exact absurd rfl (leaves c owner)
  | cons d others =>
    exact same_host seated (vacated_seated seated taken) whole laterConnected

theorem host_stays_iff (permitted : Permitted connection world roster call)
    (ran : step connection world call = some (code, after)) :
    HostStays ⟨world, call, after⟩ ↔ FirstSlotTaken connection world call := by
  cases call with
  | create address name pass info type clienttag =>
    obtain ⟨rfl, rfl⟩ := mk.inj (some.inj ran)
    exact iff_of_true (create_host consistent permitted name pass info type clienttag) trivial
  | add address normalWins pass startver c => exact add_host consistent permitted ran
  | del address c => exact iff_of_true (del_host consistent permitted ran) trivial

end

/-- In a run, the owners change only when they leave exactly if every player who joins a game with
players finds its first slot taken. -/
theorem owner_stable_iff {trace : List Transition} (course : Course connection trace world roster) :
    (∀ transition ∈ trace, HostStays transition) ↔
      ∀ transition ∈ trace, FirstSlotTaken connection transition.before transition.call := by
  induction course with
  | start => simp
  | call before permitted ran ih =>
    have last := host_stays_iff (reached_consistent (course_reached before)) permitted ran
    simp only [mem_append, mem_singleton, or_imp, forall_and, forall_eq]
    exact and_congr ih last

end Hosting

section Succession

def joins (c : Nat) : Call := .add 7 0 (some []) 0 c

def seats (players : List Nat) : Roster := fun address => if address = 7 then players else []

theorem seats_mem {players : List Nat} {address d : Nat} (inside : d ∈ seats players address) :
    d ∈ players := by
  rw [seats] at inside
  split at inside
  · exact inside
  · cases inside

theorem seats_join (players : List Nat) (c : Nat) :
    follow (seats players) 0 (joins c) = seats (players ++ [c]) := by
  funext address
  by_cases own : address = 7 <;> simp [follow, joins, seats, own]

theorem seats_leave (players : List Nat) (c : Nat) :
    follow (seats players) 0 (.del 7 c) = seats (players.erase c) := by
  funext address
  by_cases own : address = 7 <;> simp [follow, seats, own]

theorem seats_empty : seats [] = fun _ => [] := by
  funext address
  simp [seats]

variable {trace : List Transition} {game : Game} {players : List Nat}

theorem lobby_join (course : Course guest trace (lobby game) (seats players)) (c : Nat)
    (later : Game) (outside : c ∉ players)
    (ran : step guest (lobby game) (joins c) = some (0, lobby later)) :
    Course guest (trace ++ [⟨lobby game, joins c, lobby later⟩]) (lobby later)
      (seats (players ++ [c])) := by
  rw [← seats_join]
  refine Course.call course ⟨by simp [lobby], fun other d inside => ?_⟩ ran
  rintro rfl
  exact outside (seats_mem inside)

theorem lobby_leave (course : Course guest trace (lobby game) (seats players)) (c : Nat)
    (later : Game) (ran : step guest (lobby game) (.del 7 c) = some (0, lobby later)) :
    Course guest (trace ++ [⟨lobby game, .del 7 c, lobby later⟩]) (lobby later)
      (seats (players.erase c)) := by
  rw [← seats_leave]
  exact Course.call course ⟨by simp [lobby], fun _ _ _ same => same⟩ ran

theorem two_joined : Course guest
    [⟨⟨[], 0, []⟩, openGame, lobby emptyGame⟩,
      ⟨lobby emptyGame, joins 1, lobby (gameOf [some 1] [1] 1)⟩,
      ⟨lobby (gameOf [some 1] [1] 1), joins 2, lobby (gameOf [some 1, some 2] [1, 2] 1)⟩]
    (lobby (gameOf [some 1, some 2] [1, 2] 1)) (seats [1, 2]) := by
  have opened : Course guest [⟨⟨[], 0, []⟩, openGame, lobby emptyGame⟩] (lobby emptyGame)
      (seats []) := by
    rw [seats_empty]
    exact Course.call Course.start (by simp [Permitted, openGame])
      (show step guest ⟨[], 0, []⟩ openGame = some (0, _) from rfl)
  have first := lobby_join opened 1 (gameOf [some 1] [1] 1) (by decide) rfl
  exact lobby_join first 2 (gameOf [some 1, some 2] [1, 2] 1) (by decide) rfl

/-- A second player leaves the host of the first one in place. -/
theorem second_player_keeps_host : HostStays
    ⟨lobby (gameOf [some 1] [1] 1), joins 2, lobby (gameOf [some 1, some 2] [1, 2] 1)⟩ := by
  refine (owner_stable_iff two_joined).mpr ?_ _ (by simp)
  intro transition inside
  simp only [mem_cons, not_mem_nil, or_false] at inside
  rcases inside with rfl | rfl | rfl
  · trivial
  · intro game member playing
    obtain ⟨-, rfl⟩ := mk.inj (mem_singleton.mp member)
    exact absurd playing (by decide)
  · intro game member _ _
    obtain ⟨-, rfl⟩ := mk.inj (mem_singleton.mp member)
    decide

/-- After the first player has left, the third one takes the first slot and the host from the second
one. -/
theorem third_player_takes_host : ∃ trace world roster, Course guest trace world roster ∧
    ¬∀ transition ∈ trace, HostStays transition := by
  have left := lobby_leave two_joined 1 (gameOf [none, some 2] [1, 2] 2) rfl
  have joined := lobby_join left 3 (gameOf [some 3, some 2] [3, 2] 3) (by decide) rfl
  refine ⟨_, _, _, joined, fun all => ?_⟩
  have stays := all _ (mem_append_right _ (mem_singleton_self _)) 7
    (gameOf [none, some 2] [1, 2] 2) (gameOf [some 3, some 2] [3, 2] 3) (by simp [lobby])
    (by decide) (by simp [lobby]) (by simp [joins])
  exact absurd stays.1 (by decide)

end Succession

end Pvpgn.GameSlots
