import Pvpgn.ObjectList
import Pvpgn.Stdio

/-!
The realm server `d2cs`: its games (`game.cpp`), its game servers (`d2gs.cpp`) and the requests that
wait for one (`gamequeue.cpp`), with the handlers that use them. Packets that are sent and the
states of connections are left out, so a message may come from any connection of its class. A
`none` is a use of freed memory or a counter that leaves the range of `unsigned int`.
-/

namespace Pvpgn.RealmServer
open Stdio ObjectList Prod
open LinkedList (Cursor)

/-- The length that a list keeps in an `unsigned int`. -/
def listGetLength {Object : Type} (list : List Object) : UInt32 := UInt32.ofNat list.length

def bitTstFlag (number flag : UInt32) : UInt32 := if number &&& flag ≠ 0 then 1 else 0

def bitSetClrFlag (number flag value : UInt32) : UInt32 :=
  if value ≠ 0 then number ||| flag else number &&& ~~~flag

structure D2charinfo where
  charstatus : UInt32
  charlevel : UInt32

def D2charinfo.expansion (info : D2charinfo) : UInt32 := bitTstFlag info.charstatus 0x20
def D2charinfo.ladder (info : D2charinfo) : UInt32 := bitTstFlag info.charstatus 0x40
def D2charinfo.hardcore (info : D2charinfo) : UInt32 := bitTstFlag info.charstatus 0x04
def D2charinfo.dead (info : D2charinfo) : UInt32 := bitTstFlag info.charstatus 0x08

def D2charinfo.difficulty (info : D2charinfo) : UInt32 :=
  let acts := (info.charstatus >>> 8) &&& 0x0f
  min (if info.expansion ≠ 0 then acts / 5 else acts / 4) 2

/-- Strings are `none` where the packet has none in bounds. -/
structure CreateGameReq where
  gamename : Option Text
  gamepass : Option Text
  gamedesc : Option Text
  gameflag : UInt32
  leveldiff : UInt8
  maxchar : UInt8

structure Gq where
  seqno : UInt32
  clientid : UInt32
  packet : CreateGameReq
  gamename : Text

inductive ConnClass
  | init
  | d2cs
  | d2gs
  deriving DecidableEq

structure Connection where
  cclass : ConnClass
  sessionnum : UInt32
  addr : UInt32
  charinfo : Option D2charinfo
  d2gsId : UInt32
  gamequeue : Option Nat

/-- `conn_get_charinfo_*` gives 0 without a character. -/
def Connection.charinfoGet (conn : Connection) (field : D2charinfo → UInt32) : UInt32 :=
  (conn.charinfo.map field).getD 0

structure GameCharinfo where
  charname : Text
  chclass : UInt8
  level : UInt8

structure Game where
  id : UInt32
  name : Text
  pass : Text
  desc : Text
  createTime : Int
  lastaccessTime : Int
  created : Bool
  gameflag : UInt32
  charlevel : UInt32
  leveldiff : UInt32
  d2gsGameid : UInt32
  maxchar : UInt32
  currchar : UInt32
  charlist : List GameCharinfo
  d2gs : Option Nat

inductive D2gsState
  | none
  | connected
  | authed
  deriving DecidableEq

/-- A game server is `listed` from `d2gs_create` to the removal in `d2gs_destroy`, which frees it
later. -/
structure D2gs where
  ip : UInt32
  id : UInt32
  valid : Bool
  active : Bool
  state : D2gsState
  maxgame : UInt32
  gamenum : Nat
  connection : Option Nat
  listed : Bool

structure World where
  games : Objects Game
  currElem : Option Nat
  totalGame : UInt32
  gameId : UInt32
  d2gss : Objects D2gs
  d2gsId : UInt32
  gqlist : Objects Gq
  gqlistSeqno : UInt32
  /-- The ones with one session number in the order in which a hash table has them. -/
  connections : Objects Connection
  sessionnum : UInt32

structure Prefs where
  maxGameIdletime : Int
  gameMaxlifetime : UInt32
  allowGamelistShowall : Bool
  hidePassGames : Bool
  maxgamelist : UInt32
  allowGamelimit : Bool
  gameMaxlevel : UInt32

/-- What a step of the server takes from outside. -/
structure Env where
  now : Int
  malloc : Malloc
  prefs : Prefs

section Queue

def d2csConnlistFindConnectionBySessionnum (world : World) (sessionnum : UInt32) :
    Option (Nat × Connection) :=
  world.connections.find? fun entry => entry.2.sessionnum = sessionnum

def connSetGamequeue (world : World) (c : Nat) (gq : Option Nat) : World :=
  { world with connections := change world.connections c fun conn => { conn with gamequeue := gq } }

def gqCreate (env : Env) (world : World) (clientid : UInt32) (packet : CreateGameReq)
    (gamename : Text) : World × Nat :=
  let address := env.malloc.pick (addresses world.gqlist)
  let seqno := world.gqlistSeqno + 1
  ({ world with
      gqlist := world.gqlist ++ [(address, ⟨seqno, clientid, packet, gamename⟩)]
      gqlistSeqno := seqno }, address)

/-- Nothing is freed when the list does not have the element. -/
def gqDestroy (world : World) (gq : Nat) : World × Cursor :=
  ({ world with gqlist := without world.gqlist gq }, cursorWithout (addresses world.gqlist) gq)

def gqlistFindGame (world : World) (gamename : Text) : Bool :=
  world.gqlist.any fun entry => sameCaseless entry.2.gamename gamename

end Queue

section Servers

def d2gslist (world : World) : Objects D2gs := world.d2gss.filter fun entry => entry.2.listed

def d2gslistFindGs (world : World) (id : UInt32) : Option (Nat × D2gs) :=
  (d2gslist world).find? fun entry => entry.2.id = id

def d2gslistFindGsByIp (world : World) (ip : UInt32) : Option (Nat × D2gs) :=
  (d2gslist world).find? fun entry => entry.2.ip = ip

/-- The loop of `d2gslist_choose_server`, with `ogs` and `min_percent`. -/
def chooseServer : Option Nat → UInt32 → Objects D2gs → Option Nat
  | ogs, _, [] => ogs
  | ogs, minPercent, (address, gs) :: rest =>
    if !gs.active ∨ gs.connection = none ∨ gs.state ≠ .authed ∨ gs.maxgame = 0 ∨
        gs.gamenum ≥ gs.maxgame.toNat then
      chooseServer ogs minPercent rest
    else
      let percent := 100 * UInt32.ofNat gs.gamenum / gs.maxgame
      if percent < minPercent then chooseServer (some address) percent rest
      else chooseServer ogs minPercent rest

def d2gslistChooseServer (world : World) : Option Nat := chooseServer none 100 (d2gslist world)

def d2gsAddGamenum (world : World) (gs : Nat) (number : Int) : Option World := do
  let server ← find world.d2gss gs
  let gamenum := server.gamenum + number
  if 0 ≤ gamenum ∧ gamenum < 2 ^ 32 then
    some { world with
      d2gss := change world.d2gss gs fun server => { server with gamenum := gamenum.toNat } }
  else none

/-- `d2gs_get_maxgame - d2gs_get_gamenum` as an `int`. -/
def D2gs.free (server : D2gs) : Int := ((server.maxgame.toNat : Int) - server.gamenum).bmod (2 ^ 32)

end Servers

section Games

def gameflagGetDifficulty (gameflag : UInt32) : UInt32 := (gameflag >>> 0x0c) &&& 0x07
def gameflagGetExpansion (gameflag : UInt32) : UInt32 := bitTstFlag gameflag 0x00100000
def gameflagGetLadder (gameflag : UInt32) : UInt32 := bitTstFlag gameflag 0x00200000
def gameflagGetHardcore (gameflag : UInt32) : UInt32 := bitTstFlag gameflag 0x00000800

def gameflagCreate (ladder expansion hardcore difficulty : UInt32) : UInt32 :=
  let expansionFlag : UInt32 := if expansion ≠ 0 then 0x00100000 else 0
  let hardcoreFlag : UInt32 := if hardcore ≠ 0 then 0x00000800 else 0
  let ladderFlag : UInt32 := if ladder ≠ 0 then 0x00200000 else 0
  (0x04 : UInt32) ||| expansionFlag ||| hardcoreFlag ||| ((difficulty &&& 0x07) <<< 0x0c) |||
    ladderFlag

def d2csGamelistFindGame (world : World) (gamename : Text) : Option (Nat × Game) :=
  world.games.find? fun entry => sameCaseless entry.2.name gamename

def gamelistFindGameById (world : World) (id : UInt32) : Option (Nat × Game) :=
  world.games.find? fun entry => entry.2.id = id

/-- `d2gs_get_id`, which is 0 for no server. -/
def gameD2gsId (world : World) (game : Game) : Option UInt32 :=
  match game.d2gs with
  | none => some 0
  | some gs => (find world.d2gss gs).map D2gs.id

def findGameByD2gsAndId (world : World) (d2gsId d2gsGameid : UInt32) :
    Objects Game → Option (Option Nat)
  | [] => some none
  | (address, game) :: rest =>
    if !game.created ∨ game.d2gsGameid ≠ d2gsGameid then
      findGameByD2gsAndId world d2gsId d2gsGameid rest
    else do
      let id ← gameD2gsId world game
      if id ≠ d2gsId then findGameByD2gsAndId world d2gsId d2gsGameid rest
      else some (some address)

def gamelistFindGameByD2gsAndId (world : World) (d2gsId d2gsGameid : UInt32) :
    Option (Option Nat) :=
  findGameByD2gsAndId world d2gsId d2gsGameid world.games

/-- The new game, or `none` for NULL when the name is taken. -/
def d2csGameCreate (env : Env) (world : World) (gamename gamepass gamedesc : Text)
    (gameflag : UInt32) : World × Option Nat :=
  if (d2csGamelistFindGame world gamename).isSome then (world, none)
  else
    let address := env.malloc.pick (addresses world.games)
    let id := if world.gameId + 1 = 0 then 1 else world.gameId + 1
    let game : Game :=
      { id, name := gamename, pass := gamepass, desc := gamedesc, createTime := env.now,
        lastaccessTime := env.now, created := false, gameflag, charlevel := 0, leveldiff := 0,
        d2gsGameid := 0, maxchar := 8, currchar := 0, charlist := [], d2gs := none }
    ({ world with
        games := (address, game) :: world.games, gameId := id, totalGame := world.totalGame + 1 },
      some address)

/-- What the handler sets in a new game before the request goes to the server. -/
def Game.prepare (game : Game) (gs : Nat) (conn : Connection) (packet : CreateGameReq)
    (difficulty : UInt32) : Game :=
  let ladder := conn.charinfoGet D2charinfo.ladder
  let expansion := conn.charinfoGet D2charinfo.expansion
  let hardcore := conn.charinfoGet D2charinfo.hardcore
  let gameflag := bitSetClrFlag game.gameflag 0x00200000 ladder
  let gameflag := bitSetClrFlag gameflag 0x00100000 expansion
  let gameflag := gameflag ||| ((difficulty &&& 0x07) <<< 0x0c)
  let gameflag := bitSetClrFlag gameflag 0x00000800 hardcore
  { game with
    d2gs := some gs, created := false, gameflag, leveldiff := packet.leveldiff.toUInt32,
    charlevel := conn.charinfoGet D2charinfo.charlevel, maxchar := packet.maxchar.toUInt32 }

/-- The branches of `on_client_creategamereq` behind the checks of the packet. -/
def createOrQueue (env : Env) (world : World) (c : Nat) (conn : Connection) (packet : CreateGameReq)
    (gamename gamepass gamedesc : Text) (difficulty : UInt32) : Option World :=
  if (d2csGamelistFindGame world gamename).isSome then some world
  else if conn.gamequeue = none ∧ gqlistFindGame world gamename then some world
  else match d2gslistChooseServer world with
    | none =>
      match conn.gamequeue with
      | some gq => some (gqDestroy (connSetGamequeue world c none) gq).1
      | none =>
        let (world, gq) := gqCreate env world conn.sessionnum packet gamename
        some (connSetGamequeue world c (some gq))
    | some gs =>
      let hardcore := conn.charinfoGet D2charinfo.hardcore
      if hardcore ≠ 0 ∧ conn.charinfoGet D2charinfo.dead ≠ 0 then some world
      else
        let gameflag := gameflagCreate (conn.charinfoGet D2charinfo.ladder)
          (conn.charinfoGet D2charinfo.expansion) hardcore difficulty
        match d2csGameCreate env world gamename gamepass gamedesc gameflag with
        | (world, none) => some world
        | (world, some game) => d2gsAddGamenum { world with
            games := change world.games game fun game =>
              game.prepare gs conn packet difficulty } gs 1

def onClientCreategamereq (env : Env) (world : World) (c : Nat) (conn : Connection)
    (packet : CreateGameReq) : Option World :=
  match packet.gamename, packet.gamepass, packet.gamedesc with
  | some gamename, some gamepass, some gamedesc =>
    let difficulty := gameflagGetDifficulty packet.gameflag
    if difficulty > conn.charinfoGet D2charinfo.difficulty then some world
    else createOrQueue env world c conn packet gamename gamepass gamedesc difficulty
  | _, _, _ => some world

/-- One round of `gqlist_check_creategame`, with `i` beside the state. -/
def checkCreategame (env : Env) (number : Int) (curr : Nat) (state : World × Nat) :
    Option ((World × Nat) × Option Cursor) := do
  let gq ← find state.1.gqlist curr
  match d2csConnlistFindConnectionBySessionnum state.1 gq.clientid with
  | none =>
    let (world, cursor) := gqDestroy state.1 curr
    some ((world, state.2), some cursor)
  | some (c, conn) =>
    if conn.gamequeue = none then
      let (world, cursor) := gqDestroy state.1 curr
      some ((world, state.2), some cursor)
    else do
      let world ← onClientCreategamereq env state.1 c conn gq.packet
      let (world, cursor) := gqDestroy (connSetGamequeue world c none) curr
      some ((world, state.2 + 1), if number ≤ state.2 + 1 then none else some cursor)

def requests (state : World × Nat) : List Nat := addresses state.1.gqlist

def gqlistCheckCreategame (env : Env) (world : World) (number : Int) : Option World :=
  if number ≤ 0 then some world
  else
    (walk requests (checkCreategame env number) (world.gqlist.length + 1) (world, 0)
      (addresses world.gqlist).head?).map fst

/-- The first test of `game_destroy`, which reads the game of the cursor. -/
def currElemWithout (world : World) (game : Nat) : Option (Option Nat) :=
  match world.currElem with
  | none => some none
  | some elem =>
    if elem ∉ addresses world.games then none
    else if elem = game then next (addresses world.games) (.elem elem)
    else some (some elem)

def gameDestroy (env : Env) (world : World) (address : Nat) : Option (World × Cursor) := do
  let game ← find world.games address
  let currElem ← currElemWithout world address
  let cursor := cursorWithout (addresses world.games) address
  let world := { world with
    games := without world.games address, currElem, totalGame := world.totalGame - 1 }
  match game.d2gs with
  | none => some (world, cursor)
  | some gs => do
    let world ← d2gsAddGamenum world gs (-1)
    let server ← find world.d2gss gs
    let world ← gqlistCheckCreategame env world server.free
    some (world, cursor)

def gameFindCharacter (game : Game) (charname : Text) : Option GameCharinfo :=
  game.charlist.find? fun info => sameCaseless info.charname charname

def gameAddCharacter (env : Env) (game : Game) (charname : Text) (chclass level : UInt8) : Game :=
  if (gameFindCharacter game charname).isSome then
    { game with
      charlist := game.charlist.replaceF fun info =>
        if sameCaseless info.charname charname then some { info with chclass, level } else none }
  else
    { game with
      charlist := game.charlist ++ [⟨charname, chclass, level⟩]
      currchar := game.currchar + 1, lastaccessTime := env.now }

def gameDelCharacter (env : Env) (game : Game) (charname : Text) : Game :=
  if (gameFindCharacter game charname).isSome then
    { game with
      charlist := game.charlist.eraseP fun info => sameCaseless info.charname charname
      currchar := game.currchar - 1, lastaccessTime := env.now }
  else game

/-- One round of `d2cs_gamelist_check_voidgame`. -/
def checkVoidgame (env : Env) (curr : Nat) (world : World) : Option (World × Option Cursor) := do
  let game ← find world.games curr
  if game.currchar = 0 ∧ env.now - game.lastaccessTime > env.prefs.maxGameIdletime then do
    let (world, cursor) ← gameDestroy env world curr
    some (world, some cursor)
  else some (world, some (.elem curr))

def gameElems (world : World) : List Nat := addresses world.games

/-- More rounds than a traversal of the games can take, since a queued request makes one game. -/
def gameRounds (world : World) : Nat := world.games.length + world.gqlist.length + 1

def d2csGamelistCheckVoidgame (env : Env) (world : World) : Option World :=
  if env.prefs.maxGameIdletime = 0 then some world
  else walk gameElems (checkVoidgame env) (gameRounds world) world (gameElems world).head?

end Games

section Deactivation

def editGs (world : World) (gs : Nat) (edit : D2gs → D2gs) : World :=
  { world with d2gss := change world.d2gss gs edit }

/-- One round of the loop in `d2gs_deactive`. -/
def deactiveGame (env : Env) (gs : Nat) (curr : Nat) (world : World) :
    Option (World × Option Cursor) := do
  let game ← find world.games curr
  if game.d2gs = some gs then do
    let (world, cursor) ← gameDestroy env world curr
    some (world, some cursor)
  else some (world, some (.elem curr))

def d2gsDeactive (env : Env) (world : World) (gs c : Nat) : Option World := do
  let server ← find world.d2gss gs
  if !server.active ∨ server.connection = none then some world
  else if server.connection ≠ some c then some world
  else do
    let world := editGs world gs fun server =>
      { server with state := .none, connection := none, active := false, maxgame := 0 }
    let world ← walk gameElems (deactiveGame env gs) (gameRounds world) world
      (gameElems world).head?
    some (editGs world gs fun server => { server with gamenum := 0 })

/-- What `d2gs_active` and `d2gs_destroy` do with a server that is active. -/
def deactivePrevious (env : Env) (world : World) (gs : Nat) (server : D2gs) : Option World :=
  match server.active, server.connection with
  | true, some previous => d2gsDeactive env world gs previous
  | _, _ => some world

def d2gsActive (env : Env) (world : World) (gs c : Nat) : Option World := do
  let server ← find world.d2gss gs
  let world ← deactivePrevious env world gs server
  some (editGs world gs fun server =>
    { server with state := .authed, connection := some c, active := true, gamenum := 0,
                  maxgame := 0 })

def d2gsDestroy (env : Env) (world : World) (gs : Nat) : Option (World × Cursor) := do
  let server ← find world.d2gss gs
  let cursor := cursorWithout (addresses (d2gslist world)) gs
  let world := editGs world gs fun server => { server with listed := false }
  let world ← deactivePrevious env world gs server
  some ({ world with d2gss := without world.d2gss gs }, cursor)

/-- `d2gs_create` for an address in host order, and the flag that its caller sets. -/
def d2gsCreate (env : Env) (world : World) (ip : UInt32) : World :=
  if ip = 0xffffffff ∨ (d2gslistFindGsByIp world ip).isSome then world
  else
    let address := env.malloc.pick (addresses world.d2gss)
    let id := world.d2gsId + 1
    { world with
      d2gss := world.d2gss ++ [(address, ⟨ip, id, true, false, .none, 0, 0, none, true⟩)]
      d2gsId := id }

def validateGs (env : Env) (world : World) (ip : UInt32) : World :=
  match d2gslistFindGsByIp world ip with
  | some (gs, _) => editGs world gs fun server => { server with valid := true }
  | none => d2gsCreate env world ip

def destroyInvalid (env : Env) (curr : Nat) (world : World) : Option (World × Option Cursor) := do
  let server ← find world.d2gss curr
  if !server.valid then do
    let (world, cursor) ← d2gsDestroy env world curr
    some (world, some cursor)
  else some (world, some (.elem curr))

def serverElems (world : World) : List Nat := addresses (d2gslist world)

/-- `gsaddrs` are the addresses that the list of game servers names. -/
def d2gslistReload (env : Env) (world : World) (gsaddrs : List UInt32) : Option World :=
  let world := { world with
    d2gss := world.d2gss.map fun entry => (entry.1, { entry.2 with valid := false }) }
  let world := gsaddrs.foldl (validateGs env) world
  walk serverElems (destroyInvalid env) (world.d2gss.length + 1) world (serverElems world).head?

end Deactivation

section Handlers

def d2csConnCreate (env : Env) (world : World) (addr : UInt32) : World :=
  { world with
    connections := (env.malloc.pick (addresses world.connections),
      ⟨.init, world.sessionnum, addr, none, 0, none⟩) :: world.connections
    sessionnum := world.sessionnum + 1 }

/-- A game server stops when its connection closes. -/
def stopServer (env : Env) (world : World) (c : Nat) (conn : Connection) : Option World :=
  if conn.d2gsId ≠ 0 ∧ conn.cclass = .d2gs then
    match d2gslistFindGs world conn.d2gsId with
    | some (gs, _) => d2gsDeactive env world gs c
    | none => some world
  else some world

def d2csConnDestroy (env : Env) (world : World) (c : Nat) (conn : Connection) : Option World := do
  let world ← stopServer env { world with connections := without world.connections c } c conn
  match conn.gamequeue with
  | some gq => some (gqDestroy world gq).1
  | none => some world

def editConn (world : World) (c : Nat) (edit : Connection → Connection) : World :=
  { world with connections := change world.connections c edit }

/-- The game servers are read again when the address is unknown. -/
def recheckGs (env : Env) (world : World) (conn : Connection) (gsaddrs : List UInt32) :
    Option World :=
  match d2gslistFindGsByIp world conn.addr with
  | some _ => some world
  | none => d2gslistReload env world gsaddrs

def onD2gsInitconn (env : Env) (world : World) (c : Nat) (conn : Connection)
    (gsaddrs : List UInt32) : Option World := do
  let world ← recheckGs env world conn gsaddrs
  match d2gslistFindGsByIp world conn.addr with
  | none => some world
  | some (_, gs) => some (editConn world c fun conn =>
    { conn with cclass := .d2gs, d2gsId := gs.id })

def onClientCancelcreategame (world : World) (c : Nat) (conn : Connection) : World :=
  match conn.gamequeue with
  | none => world
  | some gq => (gqDestroy (connSetGamequeue world c none) gq).1

/-- With the checks of the version and the checksum already decided. -/
def onD2gsAuthreply (env : Env) (world : World) (c : Nat) (conn : Connection) (succeed : Bool) :
    Option World :=
  match d2gslistFindGs world conn.d2gsId with
  | none => some world
  | some (gs, _) => if succeed then d2gsActive env world gs c else some world

def onD2gsSetgsinfo (env : Env) (world : World) (conn : Connection) (maxgame : UInt32) :
    Option World :=
  match d2gslistFindGs world conn.d2gsId with
  | none => some world
  | some (gs, server) =>
    gqlistCheckCreategame env (editGs world gs fun server => { server with maxgame })
      ({ server with maxgame } : D2gs).free

/-- `clientid` and `gameid` are those of the server queue element that the packet names. -/
def onD2gsCreategamereply (env : Env) (world : World) (clientid gameid : UInt32) (succeed : Bool)
    (d2gsGameid : UInt32) : Option World :=
  match d2csConnlistFindConnectionBySessionnum world clientid with
  | none => some world
  | some _ =>
    match gamelistFindGameById world gameid with
    | none => some world
    | some (address, _) =>
      if succeed then
        some { world with
          games := change world.games address fun game =>
            { game with d2gsGameid, created := true } }
      else (gameDestroy env world address).map fst

inductive UpdateFlag
  | enter
  | leave
  | update
  | bad

def onD2gsUpdategameinfo (env : Env) (world : World) (conn : Connection) (charname : Option Text)
    (d2gsGameid : UInt32) (flag : UpdateFlag) (charclass charlevel : UInt8) : Option World :=
  match charname with
  | none => some world
  | some charname => do
    match ← gamelistFindGameByD2gsAndId world conn.d2gsId d2gsGameid with
    | none => some world
    | some address => some { world with
        games := change world.games address fun game =>
          match flag with
          | .enter | .update => gameAddCharacter env game charname charclass charlevel
          | .leave => gameDelCharacter env game charname
          | .bad => game }

def onD2gsClosegame (env : Env) (world : World) (conn : Connection) (d2gsGameid : UInt32) :
    Option World := do
  match ← gamelistFindGameByD2gsAndId world conn.d2gsId d2gsGameid with
  | none => some world
  | some address => (gameDestroy env world address).map fst

/-- One round of `gqlist_update_all_clients`. -/
def updateClient (curr : Nat) (world : World) : Option (World × Option Cursor) := do
  let gq ← find world.gqlist curr
  match d2csConnlistFindConnectionBySessionnum world gq.clientid with
  | none =>
    let (world, cursor) := gqDestroy world curr
    some (world, some cursor)
  | some _ => some (world, some (.elem curr))

def requestElems (world : World) : List Nat := addresses world.gqlist

def gqlistUpdateAllClients (world : World) : Option World :=
  walk requestElems updateClient (world.gqlist.length + 1) world (requestElems world).head?

end Handlers

section GameList

def gameGetMaxlevel (prefs : Prefs) (game : Game) : UInt32 :=
  min (game.charlevel + game.leveldiff) prefs.gameMaxlevel

/-- A difference that is negative as an `int` becomes 0. -/
def gameGetMinlevel (game : Game) : UInt32 :=
  let minlevel := game.charlevel - game.leveldiff
  if minlevel ≥ 0x80000000 then 0 else minlevel

/-- `d2cs_try_joingame` gives `D2CS_CLIENT_JOINGAMEREPLY_SUCCEED`. -/
def d2csTryJoingame (prefs : Prefs) (conn : Connection) (game : Game) (gamepass : Text) : Bool :=
  game.created && game.d2gs.isSome &&
    conn.charinfoGet D2charinfo.ladder = gameflagGetLadder game.gameflag &&
    conn.charinfoGet D2charinfo.expansion = gameflagGetExpansion game.gameflag &&
    conn.charinfoGet D2charinfo.hardcore = gameflagGetHardcore game.gameflag &&
    conn.charinfoGet D2charinfo.difficulty ≥ gameflagGetDifficulty game.gameflag &&
    if prefs.allowGamelimit then
      game.maxchar > game.currchar &&
        conn.charinfoGet D2charinfo.charlevel ≤ gameGetMaxlevel prefs game &&
        conn.charinfoGet D2charinfo.charlevel ≥ gameGetMinlevel game && game.pass = gamepass
    else game.currchar < 8

/-- The tests of `on_client_gamelistreq` before it sends a game. -/
def offered (env : Env) (conn : Connection) (game : Game) : Bool :=
  !(env.prefs.gameMaxlifetime ≠ 0 &&
      env.now - game.createTime > (env.prefs.gameMaxlifetime.toNat : Int)) &&
    game.currchar ≠ 0 &&
    (env.prefs.allowGamelistShowall ||
      conn.charinfoGet D2charinfo.difficulty = gameflagGetDifficulty game.gameflag) &&
    !env.prefs.hidePassGames && d2csTryJoingame env.prefs conn game []

/-- The loop of `on_client_gamelistreq`: where it leaves the cursor, and the games it has read. -/
def gamelistLoop (env : Env) (conn : Connection) (world : World) (start : Option Nat) :
    Nat → Option Nat → UInt32 → Option (Option Nat × List Nat)
  | 0, _, _ => none
  | rounds + 1, elem, count =>
    if elem = start then some (elem, [])
    else
      let elem := elem.or (addresses world.games).head?
      if elem = start then some (elem, [])
      else match elem with
        | none => some (none, [])
        | some curr => do
          let game ← find world.games curr
          let count := if offered env conn game then count + 1 else count
          if offered env conn game ∧ env.prefs.maxgamelist ≠ 0 ∧ count ≥ env.prefs.maxgamelist
          then some (some curr, [curr])
          else do
            let following ← next (addresses world.games) (.elem curr)
            let (last, examined) ← gamelistLoop env conn world start rounds following count
            some (last, curr :: examined)

def onClientGamelistreq (env : Env) (world : World) (conn : Connection) :
    Option (World × List Nat) := do
  let start := world.currElem
  let elem ← match start with
    | none => some (addresses world.games).head?
    | some elem => next (addresses world.games) (.elem elem)
  let (last, examined) ← gamelistLoop env conn world start (world.games.length + 2) elem 0
  some ({ world with currElem := last }, examined)

end GameList

section Runs

inductive Event
  | accept (addr : UInt32)
  | destroyConnection (c : Nat)
  | initconnD2gs (c : Nat) (gsaddrs : List UInt32)
  | initconnD2cs (c : Nat)
  | setCharinfo (c : Nat) (charinfo : Option D2charinfo)
  | creategamereq (c : Nat) (packet : CreateGameReq)
  | cancelcreategame (c : Nat)
  | gamelistreq (c : Nat)
  | authreply (c : Nat) (succeed : Bool)
  | setgsinfo (c : Nat) (maxgame : UInt32)
  | creategamereply (c : Nat) (clientid gameid : UInt32) (succeed : Bool) (d2gsGameid : UInt32)
  | updategameinfo (c : Nat) (charname : Option Text) (d2gsGameid : UInt32) (flag : UpdateFlag)
      (charclass charlevel : UInt8)
  | closegame (c : Nat) (d2gsGameid : UInt32)
  | checkVoidgame
  | updateAllClients
  | reload (gsaddrs : List UInt32)

/-- A message of a connection of the class that may send it. Without one nothing happens. -/
def receive (world : World) (c : Nat) (cclass : ConnClass)
    (handle : Connection → Option World) : Option World :=
  match find world.connections c with
  | none => some world
  | some conn => if conn.cclass = cclass then handle conn else some world

def step (env : Env) (world : World) : Event → Option World
  | .accept addr => some (d2csConnCreate env world addr)
  | .destroyConnection c =>
    match find world.connections c with
    | none => some world
    | some conn => d2csConnDestroy env world c conn
  | .initconnD2gs c gsaddrs =>
    receive world c .init fun conn => onD2gsInitconn env world c conn gsaddrs
  | .initconnD2cs c => receive world c .init fun _ =>
    some (editConn world c fun conn => { conn with cclass := .d2cs })
  | .setCharinfo c charinfo => receive world c .d2cs fun _ =>
    some (editConn world c fun conn => { conn with charinfo })
  | .creategamereq c packet =>
    receive world c .d2cs fun conn => onClientCreategamereq env world c conn packet
  | .cancelcreategame c =>
    receive world c .d2cs fun conn => some (onClientCancelcreategame world c conn)
  | .gamelistreq c =>
    receive world c .d2cs fun conn => (onClientGamelistreq env world conn).map fst
  | .authreply c succeed =>
    receive world c .d2gs fun conn => onD2gsAuthreply env world c conn succeed
  | .setgsinfo c maxgame =>
    receive world c .d2gs fun conn => onD2gsSetgsinfo env world conn maxgame
  | .creategamereply c clientid gameid succeed d2gsGameid =>
    receive world c .d2gs fun _ =>
      onD2gsCreategamereply env world clientid gameid succeed d2gsGameid
  | .updategameinfo c charname d2gsGameid flag charclass charlevel =>
    receive world c .d2gs fun conn =>
      onD2gsUpdategameinfo env world conn charname d2gsGameid flag charclass charlevel
  | .closegame c d2gsGameid =>
    receive world c .d2gs fun conn => onD2gsClosegame env world conn d2gsGameid
  | .checkVoidgame => d2csGamelistCheckVoidgame env world
  | .updateAllClients => gqlistUpdateAllClients world
  | .reload gsaddrs => d2gslistReload env world gsaddrs

def boot : World := ⟨[], none, 0, 0, [], 0, [], 0, [], 1⟩

end Runs

end Pvpgn.RealmServer
