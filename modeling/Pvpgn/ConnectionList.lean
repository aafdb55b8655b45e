import Pvpgn.RealmUse
import Pvpgn.AnongameMatch
import Pvpgn.ConnectionArray

/-!
The connections of `connection.cpp`: the list of all of them, the list of those that are to be
destroyed, and the map from session numbers. A connection that is destroyed closes the realm that it
serves, leaves its match and unlinks its route partner. A use of an object that is not allocated any
more is a fault, `none`.
-/

namespace Pvpgn.ConnectionList
open ObjectList ObjectStore ConnectionArray Function
open LinkedList (Cursor)
open ChannelMembers (ConnClass ConnState)
open RealmLinks (editConn inState realmActive realmAddPlayerNumber realmDeactive realmPut realmlist)

/-- The queue, the connections of the team, of which the first leads it, the match and the place in
it. -/
structure Anongame where
  queue : Int
  tc : List (Option Nat)
  info : Option Nat
  playernum : Nat

structure Anongameinfo where
  totalplayers : Nat
  currentplayers : Int
  player : List (Option Nat)

/-- What a connection has beside the fields that the realms use; of its output only whether there is
any. -/
structure Fields where
  cclass : ConnClass
  outqueue : Bool
  routeconn : Option Nat
  anongame : Option Anongame

/-- An element of a list is known by its connection. The list of dead connections is
`base.connDead`. -/
structure Server where
  base : RealmLinks.Server
  fields : Nat → Fields
  infos : Store Anongameinfo
  connHead : List Nat
  connarray : ConnArray

/-- The rules of the queues, and which connections are sent a message when one is destroyed. -/
structure Env where
  games : AnongameMatch.Environment
  notified : Nat → Nat → Bool

def connGet (server : Server) (c : Nat) : Option Fields :=
  (server.base.conns.get c).map fun _ => server.fields c

def setFields (server : Server) (c : Nat) (change : Fields → Fields) : Server :=
  { server with fields := update server.fields c (change (server.fields c)) }

def connEdit (server : Server) (c : Nat) (change : Fields → Fields) : Option Server :=
  (server.base.conns.get c).map fun _ => setFields server c change

def onBase (server : Server) (call : Option RealmLinks.Server) : Option Server :=
  call.map fun base => { server with base }

def withRoute (routeconn : Option Nat) (conn : Fields) : Fields := { conn with routeconn }

def withGame (anongame : Option Anongame) (conn : Fields) : Fields := { conn with anongame }

/-! Connections and their states. -/

def connCreate (server : Server) (tsock usock : Int) : Option Server :=
  if tsock < 0 ∨ usock < -1 then some server
  else do
    let temp := server.base.conns.allocated
    let (sessionnum, connarray) ← connarrayAddConn server.connarray temp
    some {
      base := RealmUse.connCreate server.base sessionnum.toUInt32 tsock
      fields := update server.fields temp ⟨.init, false, none, none⟩
      infos := server.infos
      connHead := temp :: server.connHead
      connarray }

def connSetState (server : Server) (c : Nat) (state : ConnState) : Option Server :=
  onBase server (RealmLinks.connSetState server.base c state)

/-! Automatic games. -/

def anongameMaxGamecount : Nat := AnongameMatch.anongameMaxGamecount

/-- `conn_create_anongame` -/
def newAnongame : Anongame := ⟨0, List.replicate (anongameMaxGamecount / 2) none, none, 0⟩

/-- The reference of the match to the connection is deleted, and with the last one the match. -/
def leaveMatch (server : Server) (a : Anongame) : Option Nat → Option Server
  | none => some server
  | some address => do
    let info ← server.infos.get address
    let left : Anongameinfo := { info with
      player := info.player.set (a.playernum - 1) none
      currentplayers := info.currentplayers - 1 }
    if a.playernum = 0 ∨ info.player.length < a.playernum then none
    else if left.currentplayers = 0 then some { server with infos := server.infos.free address }
    else some { server with infos := server.infos.edit address fun _ => left }

/-- The search of the connection is read and ended, if there is a connection. -/
def anongameUnqueue (server : Server) (queue : Int) : Option Nat → Option Server
  | none => some server
  | some c =>
    if queue < 0 ∨ (AnongameMatch.anongameTypes : Int) ≤ queue then some server
    else (connGet server c).map fun _ => server

def leaveGame (env : Env) (server : Server) (c : Nat) : Option Anongame → Option Server
  | none => some server
  | some a => do
    let server ← leaveMatch server a a.info
    let server ← anongameUnqueue server a.queue
      (if AnongameMatch.arranged env.games a.queue then a.tc.head?.join else some c)
    connEdit server c (withGame none)

def connDestroyAnongame (env : Env) (server : Server) (c : Nat) : Option Server := do
  let conn ← connGet server c
  leaveGame env server c conn.anongame

/-- Whether another player still has a route connection; the players behind it are not read. -/
def othersRouted (server : Server) (plnum : Nat) : Nat → List (Option Nat) → Option Bool
  | _, [] => some false
  | i, none :: rest => othersRouted server plnum (i + 1) rest
  | i, some player :: rest =>
    if i + 1 = plnum then othersRouted server plnum (i + 1) rest
    else do
      let conn ← connGet server player
      if conn.routeconn.isSome then some true else othersRouted server plnum (i + 1) rest

/-- What `anongame_stats` reads of connections and matches. -/
def anongameStats (server : Server) (a : Anongame) : Option Nat → Option Bool
  | none => some false
  | some address => do
    let info ← server.infos.get address
    if info.player.length < info.totalplayers then none
    else othersRouted server a.playernum 0 (info.player.take info.totalplayers)

/-! The end of a connection. -/

def closeRealm (server : Server) : Option Nat → Option Server
  | none => some server
  | some realm => onBase server (realmDeactive server.base realm)

def endMatch (env : Env) (server : Server) (gamec : Nat) : Option Anongame → Option Server
  | none => some server
  | some a => do
    let _ ← anongameStats server a a.info
    connDestroyAnongame env server gamec

def endRoute (env : Env) (server : Server) : Option Nat → Option Server
  | none => some server
  | some gamec => do
    let partner ← connGet server gamec
    endMatch env server gamec partner.anongame

/-- A connection to a realm server or of a route ends more than itself. -/
def endService (env : Env) (server : Server) (c : Nat) : Option Server := do
  let conn ← server.base.conns.get c
  if (server.fields c).cclass = .d2csBnetd then closeRealm server conn.realm
  else if (server.fields c).cclass = .w3route then endRoute env server (server.fields c).routeconn
  else some server

def quitRealm (server : Server) (c : Nat) : Option Nat → Option Server
  | none => some server
  | some realm => do
    let base ← realmAddPlayerNumber server.base realm (-1)
    onBase server (realmPut base realm c)

/-- `c->routeconn` is read again behind the write through it. -/
def unroute (server : Server) (c : Nat) : Option Nat → Option Server
  | none => some server
  | some rc => do
    let server ← connEdit server rc (withRoute none)
    let conn ← connGet server c
    let partner ← conn.routeconn
    let other ← connGet server partner
    if other.cclass = .w3route then connSetState server partner .destroy else some server

/-- Those who are sent a message have output. -/
def notify (env : Env) (c : Nat) (fields : Nat → Fields) (other : Nat) : Fields :=
  if env.notified c other then { fields other with outqueue := true } else fields other

def connFree (env : Env) (server : Server) (c : Nat) : Option Server := do
  let conn ← server.base.conns.get c
  some { server with
    base := { server.base with
      conns := server.base.conns.free c
      connDead := server.base.connDead.erase c }
    fields := notify env c server.fields
    connarray := connarrayDelConn server.connarray conn.sessionnum }

/-- What is done between the two lists. -/
def connClose (env : Env) (server : Server) (c : Nat) : Option Server := do
  let server ← endService env server c
  let conn ← server.base.conns.get c
  let server ← quitRealm server c conn.realm
  let server := { server with base := editConn server.base c (inState .empty) }
  let server ← unroute server c (server.fields c).routeconn
  connDestroyAnongame env server c

/-- Where it leaves the cursor in the list of dead connections comes with the server. -/
def connDestroy (env : Env) (server : Server) (c : Nat) : Option (Server × Cursor) := do
  let _ ← server.base.conns.get c
  if c ∈ server.connHead then do
    let server ← connClose env { server with connHead := server.connHead.erase c } c
    let after ← connFree env server c
    some (after, cursorWithout server.base.connDead c)
  else some (server, .elem c)

/-- A dead connection is destroyed when nothing is left to send to it. -/
def reapOne (env : Env) (server : Server) (curr : Nat) : Option (Server × Cursor) := do
  let conn ← connGet server curr
  if conn.outqueue then some (server, .elem curr) else connDestroy env server curr

/-- The connections that are visited come with the server, each with whether it is destroyed. -/
def reapWithin (env : Env) : Nat → Server → Option Nat → Option (Server × List (Nat × Bool))
  | _, server, none => some (server, [])
  | 0, _, some _ => none
  | rounds + 1, server, some curr => do
    let (after, cursor) ← reapOne env server curr
    let following ← next after.base.connDead cursor
    let (last, visits) ← reapWithin env rounds after following
    some (last, (curr, !(server.fields curr).outqueue) :: visits)

def connlistReap (env : Env) (server : Server) : Option (Server × List (Nat × Bool)) :=
  reapWithin env server.base.conns.objects.length server server.base.connDead.head?

/-! What other functions do to the fields that are used here. -/

def logOut (server : Server) : Option Nat → Option Server
  | none => some server
  | some other => connSetState server other .destroy

/-- `conn_set_account` logs out the connection that the account had, and sets the state of the new
one without `conn_set_state`. -/
def connSetAccount (server : Server) (c : Nat) (other : Option Nat) : Option Server := do
  let server ← logOut server other
  some { server with base := editConn server.base c (inState .loggedin) }

def connSetRealm (server : Server) (c : Nat) (realm : Option Nat) : Option Server :=
  onBase server (RealmLinks.connSetRealm server.base c realm)

/-- `on_d2cs_authreply` for a server of the right version. -/
def onD2csAuthreply (server : Server) (realm c : Nat) : Option Server := do
  let server ← connSetState server c .loggedin
  onBase server (realmActive server.base realm c)

/-- `_handle_anongame_search` -/
def anongameSearch (server : Server) (c : Nat) (queue : Int) (tc : List (Option Nat)) : Server :=
  setFields server c fun conn => { conn with
    anongame := some { conn.anongame.getD newAnongame with queue, tc } }

def playsAt (info place : Nat) (conn : Fields) : Fields := { conn with
  anongame := conn.anongame.map fun a => { a with info := some info, playernum := place + 1 } }

def seat (info : Nat) : Nat → List Nat → (Nat → Fields) → Nat → Fields
  | _, [], fields => fields
  | place, c :: rest, fields =>
    seat info (place + 1) rest (update fields c (playsAt info place (fields c)))

/-- `_anongame_search_found` -/
def anongameSearchFound (server : Server) (players : List Nat) : Server := { server with
  infos := server.infos.append ⟨players.length, players.length,
    players.map some ++ List.replicate (anongameMaxGamecount - players.length) none⟩
  fields := seat server.infos.allocated 0 players server.fields }

def cancelMembers (env : Env) : Server → List (Option Nat) → Option Server
  | server, [] => some server
  | server, none :: rest => cancelMembers env server rest
  | server, some member :: rest => do
    let server ← connEdit server member (withRoute none)
    let server ← connDestroyAnongame env server member
    cancelMembers env server rest

/-- `_client_anongame_cancel` -/
def clientAnongameCancel (env : Env) (server : Server) (c : Nat) : Option Server :=
  cancelMembers env server (((server.fields c).anongame.map Anongame.tc).getD [])

def dropRoute (server : Server) : Option Nat → Option Server
  | none => some server
  | some oldc => do
    let server ← connEdit server oldc (withRoute none)
    connSetState server oldc .destroy

/-- `CLIENT_W3ROUTE_REQ` -/
def clientW3routeReq (server : Server) (c gamec : Nat) : Option Server := do
  let server ← dropRoute server (server.fields gamec).routeconn
  let server ← connEdit server c (withRoute (some gamec))
  connEdit server gamec (withRoute (some c))

end Pvpgn.ConnectionList
