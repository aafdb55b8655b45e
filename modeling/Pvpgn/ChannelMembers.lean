import Pvpgn.ChannelNames
import Pvpgn.ClanFile

/-!
Who is in which channel: a member list with a counter in the channel, and a pointer in the
connection. A use of an object that is not allocated any more is a fault, `none`.
-/

namespace Pvpgn.ChannelMembers
open Stdio ObjectList ObjectStore Channels Option List Nat Function Prod

inductive ConnClass where
  | init | bnet | file | bot | telnet | ircinit | irc | wol | wserv | wgameres | wladder | apireg
  | d2csBnetd | w3route | none
  deriving DecidableEq

inductive ConnState where
  | empty | initial | connected | loggedin | destroy | botUsername | botPassword | untrusted
  | pendingRaw
  deriving DecidableEq

structure Connection where
  cclass : ConnClass
  state : ConnState
  account : Option Nat
  country : Option Text
  realmname : Option Text
  game : Option Nat
  channel : Option Nat
  tmpOPChannel : Option Text

def Connection.inChannel (channel : Option Nat) (conn : Connection) : Connection :=
  { conn with channel }

def Connection.outOfGame (conn : Connection) : Connection := { conn with game := none }

/-- A connection that is being destroyed has left its game and is in the empty state. -/
def Connection.closed (conn : Connection) : Connection :=
  { conn with game := none, state := .empty }

/-- `fdwatch_init` takes the number of connections as an `int`. -/
structure Pool where
  maxcons : Nat
  int : maxcons < 2 ^ 31

structure Server where
  channels : ChannelList
  conns : Store Connection
  /-- `account_get_conn` -/
  accountConn : Nat → Option Nat

/-- What the functions ask of the accounts, the clans and the configuration. -/
structure Env where
  log : LogEnv
  authAdmin : Nat → Option Text → Bool
  authOperator : Nat → Option Text → Bool
  accountMatch : Nat → Text → Bool
  /-- The tag of `account_get_clan`. -/
  clan : Nat → Option UInt32
  /-- The status of `account_get_clanmember`. -/
  clanmember : Nat → Option Nat
  clanmemberForced : Nat → Bool
  /-- The clan with this tag exists, and its channel is private. -/
  clanPrivate : UInt32 → Bool
  maxusersPerChannel : Int
  chanlog : Bool

def clanShaman : Nat := 3

def wrapInt (value : Int) : Int := value.bmod (2 ^ 32)

def Server.channel (server : Server) (address : Nat) : Option Channel :=
  server.channels.head.get address

def Server.editChannel (server : Server) (address : Nat) (change : Channel → Channel) : Server :=
  { server with channels :=
      { server.channels with head := server.channels.head.edit address change } }

def Server.editConn (server : Server) (c : Nat) (change : Connection → Connection) : Server :=
  { server with conns := server.conns.edit c change }

def accountIsOperatorOrAdmin (env : Env) (account : Nat) (channel : Text) : Bool :=
  env.authOperator account (some channel) || env.authOperator account none ||
    env.authAdmin account (some channel) || env.authAdmin account none

def channelCheckBanning (env : Env) (channel : Channel) (user : Connection) : Bool :=
  (!hasFlag channel.flags channelFlagsAllowbots && user.cclass = .bot) ||
    channel.banlist.any fun banned =>
      user.account.any fun account => env.accountMatch account banned

/-- A channel with members is not destroyed, but loses its permanent flag. -/
def channelDestroy (server : Server) (address : Nat) : Option (Server × Int) := do
  let channel ← server.channel address
  if channel.memberlist ≠ [] then
    some (server.editChannel address fun channel =>
      { channel with flags := channel.flags &&& ~~~ channelFlagsPermanent }, -1)
  else
    some ({ server with channels :=
      { server.channels with head := server.channels.head.free address } }, 0)

/-- A member that is alone in a new channel of users becomes its operator. -/
def becomesTmpOP (env : Env) (channel : Channel) (account : Option Nat) : Bool :=
  !hasFlag channel.flags channelFlagsPermanent && !hasFlag channel.flags channelFlagsThevoid &&
    !hasFlag channel.flags channelFlagsClan && channel.currmembers = 1 &&
    !account.any fun account => accountIsOperatorOrAdmin env account channel.name

def addMember (c : Nat) (channel : Channel) : Channel :=
  { channel with
    memberlist := c :: channel.memberlist, currmembers := wrapInt (channel.currmembers + 1) }

def removeMember (c : Nat) (channel : Channel) : Channel :=
  { channel with
    memberlist := channel.memberlist.erase c, currmembers := wrapInt (channel.currmembers - 1) }

def channelAddConnection (env : Env) (server : Server) (address c : Nat) :
    Option (Server × Int) := do
  let channel ← server.channel address
  let connection ← server.conns.get c
  if channelCheckBanning env channel connection then some (server, -1)
  else
    let server := server.editChannel address (addMember c)
    if becomesTmpOP env (addMember c channel) connection.account then
      some (server.editConn c fun connection =>
        { connection with tmpOPChannel := some channel.name }, 0)
    else some (server, 0)

/-- The first element of the member list is read without a test for NULL. -/
def channelDelConnection (server : Server) (address c : Nat) : Option (Server × Int) := do
  let channel ← server.channel address
  let connection ← server.conns.get c
  if channel.memberlist = [] then none
  else if c ∉ channel.memberlist then some (server, -1)
  else
    let server := server.editChannel address (removeMember c)
    let server :=
      if connection.tmpOPChannel = some channel.name then
        server.editConn c fun connection => { connection with tmpOPChannel := none }
      else server
    if (removeMember c channel).memberlist = [] && !hasFlag channel.flags channelFlagsPermanent then
      do
        let (server, _) ← channelDestroy server address
        some (server, 0)
    else some (server, 0)

inductive OnlineStatus where
  | offline
  | online
  | channel (name : Text)
  | game

def clanmemberGetOnlineStatusByConnection (server : Server) (conn : Option Nat) :
    Option OnlineStatus :=
  match conn with
  | none => some .offline
  | some c => do
    let conn ← server.conns.get c
    if conn.state = .empty then some .offline
    else if conn.game.isSome then some .game
    else
      match conn.channel with
      | none => some .online
      | some address => do
        let channel ← server.channel address
        some (.channel channel.name)

/-- What is sent to the clan, if the account is in one. -/
def clanmemberOnChangeStatusByConnection (env : Env) (server : Server) (c : Nat) :
    Option (Option OnlineStatus) := do
  let conn ← server.conns.get c
  if conn.account.any fun account => (env.clanmember account).isSome then
    (clanmemberGetOnlineStatusByConnection server (some c)).map some
  else some none

def clanmemberSetOffline (env : Env) (server : Server) (c : Nat) :
    Option (Option OnlineStatus) := do
  let conn ← server.conns.get c
  match conn.account with
  | none => some none
  | some account =>
    if env.clanmemberForced account then
      (clanmemberGetOnlineStatusByConnection server (server.accountConn account)).map some
    else some none

/-- The body of `conn_part_channel`, `conn_kick_channel` and `conn_quit_channel`, which differ in
the message to the other members. -/
def leaveChannel (server : Server) (c : Nat) : Option (Server × Int) := do
  let conn ← server.conns.get c
  match conn.channel with
  | none => some (server, -1)
  | some address => do
    let (server, _) ← channelDelConnection server address c
    some (server.editConn c (.inChannel none), 0)

def connPartChannel (server : Server) (c : Nat) : Option (Server × Int) := leaveChannel server c

def connKickChannel (server : Server) (c : Nat) : Option (Server × Int) := leaveChannel server c

def connQuitChannel (server : Server) (c : Nat) : Option (Server × Int) := leaveChannel server c

def findFor (env : Env) (server : Server) (conn : Connection) (name : Text) :
    Option (Server × Option Nat) := do
  let (channels, channel) ←
    channellistFindChannelByName env.log conn.country conn.realmname server.channels name
  some ({ server with channels }, channel.map fst)

/-- The tag in the name of a clan channel, or 0. -/
def clantagOf (channelname : Text) : UInt32 :=
  if sameCaseless (channelname.take 5) (text "clan ") && channelname.length < 10 then
    ClanFile.strToClantag (channelname.drop 5)
  else 0

/-- What `conn_set_channel` does about the channel of a clan. Without a result it returns 0. -/
def clanChannel (env : Env) (server : Server) (c : Nat) (conn : Connection) (acc : Nat)
    (channelname : Text) (channel : Option Nat) : Option (Server × Option (Option Nat)) :=
  let clantag := clantagOf channelname
  if clantag ≠ 0 && !(env.authAdmin acc (some channelname) || env.authAdmin acc none) then
    if env.clan acc ≠ some clantag then
      match channel with
      | none =>
        if conn.game.isSome || conn.channel.isNone then do
          let (server, channel) ← findFor env server conn channelNameBanned
          some (server, some channel)
        else some (server, none)
      | some address =>
        if env.clanPrivate clantag then some (server, none)
        else some (server, some (some address))
    else if (env.clanmember acc).any fun status => clanShaman ≤ status then
      some (server.editConn c fun conn => { conn with tmpOPChannel := some channelname },
        some channel)
    else some (server, some channel)
  else some (server, some channel)

/-- Whether `conn_set_channel` turns a connection away from a channel that exists. -/
def turnedAway (env : Env) (channel : Channel) (conn : Connection) (acc : Nat)
    (channelname : Text) : Bool :=
  channelCheckBanning env channel conn ||
    (!accountIsOperatorOrAdmin env acc channelname && channel.maxmembers = 0) ||
    (!accountIsOperatorOrAdmin env acc channelname && channel.maxmembers ≠ -1 &&
      channel.maxmembers ≤ channel.currmembers)

def channelOrCreated (env : Env) (server : Server) (channelname : Text) :
    Option Nat → Server × Option Nat × Bool
  | some address => (server, some address, false)
  | none =>
    let (channels, channel) := channelCreate env.log server.channels channelname
      (some channelname) 0 false true true env.chanlog none none
      (if 0 < env.maxusersPerChannel then env.maxusersPerChannel else -1) false
      (clantagOf channelname ≠ 0) false
    ({ server with channels }, channel.map fst, true)

def enterChannel (env : Env) (server : Server) (c address : Nat) (created : Bool)
    (oldchannel : Option Nat) : Option (Server × Int) := do
  let server := server.editConn c (.inChannel (some address))
  let (server, added) ← channelAddConnection env server address c
  if added < 0 then do
    let server ← if created then (channelDestroy server address).map fst else some server
    some (server.editConn c (.inChannel none), -1)
  else do
    -- the flags and the name of the channel are read for the messages
    let _ ← server.channel address
    if some address ≠ oldchannel then do
      let _ ← clanmemberOnChangeStatusByConnection env server c
      some (server, 0)
    else some (server, 0)

def partOldChannel (server : Server) (c : Nat) (conn : Connection) : Option Server :=
  if conn.channel.isSome then (connPartChannel server c).map fst else some server

/-- `turnedAway` reads the channel after the old one was left. -/
def checkEntry (env : Env) (server : Server) (conn : Connection) (acc : Nat) (channelname : Text) :
    Option Nat → Option Bool
  | none => some false
  | some address =>
    (server.channel address).map fun channel => turnedAway env channel conn acc channelname

/-- `conn_set_channel` from where the channel is known: the old one is left first. -/
def changeChannel (env : Env) (server : Server) (c : Nat) (conn : Connection) (acc : Nat)
    (channelname : Text) (channel : Option Nat) : Option (Server × Int) := do
  let server ← partOldChannel server c conn
  let away ← checkEntry env server conn acc channelname channel
  if away then some (server, -1)
  else
    let server := server.editConn c .outOfGame
    let (server, entered, created) := channelOrCreated env server channelname channel
    match entered with
    | none => some (server, -1)
    | some address => enterChannel env server c address created conn.channel

def connSetChannel (env : Env) (server : Server) (c : Nat) (channelname : Text) :
    Option (Server × Int) := do
  let conn ← server.conns.get c
  match conn.account with
  | none => some (server, -1)
  | some acc => do
    let (server, channel) ← findFor env server conn channelname
    if channel.isSome && channel = conn.channel then some (server, 0)
    else do
      let (server, gate) ← clanChannel env server c conn acc channelname channel
      match gate with
      | none => some (server, 0)
      | some channel => changeChannel env server c conn acc channelname channel

/-- `channel_del_connection`, for a connection in a channel. -/
def delFromChannel (server : Server) (c : Nat) : Option Nat → Option Server
  | none => some server
  | some address => (channelDelConnection server address c).map fst

def connDestroy (env : Env) (server : Server) (c : Nat) : Option Server := do
  let conn ← server.conns.get c
  let server ← delFromChannel server c conn.channel
  -- the pointer to the channel stays, also if the channel was destroyed
  let server := server.editConn c .closed
  let _ ← clanmemberSetOffline env server c
  some { server with
    conns := server.conns.free c
    accountConn := fun account =>
      if conn.account = some account ∧ server.accountConn account = some c then none
      else server.accountConn account }

/-! The member lists against the pointers, given as the seat of each connection. `spare` is a
channel that may be empty for the moment. -/
section Seats

def permanent (channel : Channel) : Bool := hasFlag channel.flags channelFlagsPermanent

structure Seated (spare : Option Nat) (head : Store Channel) (seat : Nat → Option Nat) : Prop where
  members : ∀ c address, seat c = some address ↔
    ∃ channel, head.get address = some channel ∧ c ∈ channel.memberlist
  once : ∀ address channel, head.get address = some channel → channel.memberlist.Nodup
  counted : ∀ address channel, head.get address = some channel →
    channel.currmembers = channel.memberlist.length
  peopled : ∀ address channel, head.get address = some channel →
    permanent channel ∨ channel.memberlist ≠ [] ∨ spare = some address

variable {spare : Option Nat} {head : Store Channel} {seat : Nat → Option Nat} {address c : Nat}
  {channel copy : Channel}

theorem wrap_int {value : Int} (low : -(2 ^ 31) ≤ value) (high : value < 2 ^ 31) :
    wrapInt value = value := by
  rw [wrapInt, Int.bmod_eq_of_le]
  · omega
  · omega

theorem seated_append (seated : Seated none head seat) (empty : copy.memberlist = [])
    (unoccupied : copy.currmembers = 0) (allowed : permanent copy ∨ spare = some head.allocated) :
    Seated spare (head.append copy) seat := by
  constructor
  · intro c address
    rw [seated.members, Store.get_append]
    by_cases new : address = head.allocated
    · simp [new, empty]
    · simp [new]
  · intro address channel found
    rw [Store.get_append] at found
    split at found
    · cases found
      rw [empty]
      exact nodup_nil
    · exact seated.once address channel found
  · intro address channel found
    rw [Store.get_append] at found
    split at found
    · cases found
      rw [empty, unoccupied]
      rfl
    · exact seated.counted address channel found
  · intro address channel found
    rw [Store.get_append] at found
    split at found
    · rename_i new
      cases found
      rw [new]
      exact allowed.imp_right Or.inr
    · rcases seated.peopled address channel found with always | some | never
      · exact Or.inl always
      · exact Or.inr (Or.inl some)
      · cases never

theorem seated_add (seated : Seated spare head seat) (found : head.get address = some channel)
    (unseated : seat c = none) (fits : spare = none ∨ spare = some address)
    (few : channel.memberlist.length + 1 < 2 ^ 31) :
    Seated none (head.edit address (addMember c)) (update seat c (some address)) := by
  have apart : c ∉ channel.memberlist := by
    intro member
    have seated := (seated.members c address).mpr ⟨channel, found, member⟩
    rw [unseated] at seated
    cases seated
  constructor
  · intro other place
    rw [Store.get_edit]
    by_cases own : other = c
    · rw [own, update_self]
      by_cases here : place = address
      · simp [here, found, addMember]
      have nowhere : ¬ ∃ channel, head.get place = some channel ∧ c ∈ channel.memberlist := by
        rw [← seated.members, unseated]
        exact (some_ne_none _).symm
      rw [if_neg here]
      exact iff_of_false (fun same => here (some.inj same).symm) nowhere
    · rw [update_of_ne own, seated.members]
      by_cases here : place = address
      · simp [here, found, addMember, own]
      · rw [if_neg here]
  · intro place later there
    rw [Store.get_edit] at there
    split at there
    · rename_i here
      rw [here, found] at there
      cases there
      exact nodup_cons.mpr ⟨apart, seated.once address channel found⟩
    · exact seated.once place later there
  · intro place later there
    rw [Store.get_edit] at there
    split at there
    · rename_i here
      rw [here, found] at there
      cases there
      have count := seated.counted address channel found
      rw [addMember, count, wrap_int (by omega) (by omega), length_cons]
      rfl
    · exact seated.counted place later there
  · intro place later there
    rw [Store.get_edit] at there
    split at there
    · rename_i here
      rw [here, found] at there
      cases there
      exact Or.inr (Or.inl (cons_ne_nil _ _))
    rename_i away
    rcases seated.peopled place later there with always | some | same
    · exact Or.inl always
    · exact Or.inr (Or.inl some)
    rcases fits with none | one
    · rw [none] at same
      cases same
    · rw [one] at same
      exact absurd (some.inj same).symm away

theorem seated_remove (seated : Seated none head seat) (found : head.get address = some channel)
    (here : seat c = some address) (few : channel.memberlist.length < 2 ^ 31) :
    Seated (some address) (head.edit address (removeMember c)) (update seat c none) := by
  have once := seated.once address channel found
  have member : c ∈ channel.memberlist := by
    obtain ⟨other, same, inside⟩ := (seated.members c address).mp here
    rw [found] at same
    cases same
    exact inside
  constructor
  · intro other place
    rw [Store.get_edit]
    by_cases own : other = c
    · rw [own, update_self]
      by_cases same : place = address
      · simp [same, found, removeMember, once.mem_erase_iff]
      have nowhere : ¬ ∃ channel, head.get place = some channel ∧ c ∈ channel.memberlist := by
        rw [← seated.members, here]
        exact fun equal => same (some.inj equal).symm
      rw [if_neg same]
      exact iff_of_false (some_ne_none _).symm nowhere
    · rw [update_of_ne own, seated.members]
      by_cases same : place = address
      · simp [same, found, removeMember, once.mem_erase_iff, own]
      · rw [if_neg same]
  · intro place later there
    rw [Store.get_edit] at there
    split at there
    · rename_i same
      rw [same, found] at there
      cases there
      exact once.erase c
    · exact seated.once place later there
  · intro place later there
    rw [Store.get_edit] at there
    split at there
    · rename_i same
      rw [same, found] at there
      cases there
      have count := seated.counted address channel found
      have some := length_pos_of_mem member
      change wrapInt (channel.currmembers - 1) = ((channel.memberlist.erase c).length : Int)
      rw [count, wrap_int (by omega) (by omega), length_erase_of_mem member]
      omega
    · exact seated.counted place later there
  · intro place later there
    rw [Store.get_edit] at there
    split at there
    · rename_i same
      exact Or.inr (Or.inr (congrArg some same.symm))
    rcases seated.peopled place later there with always | some | never
    · exact Or.inl always
    · exact Or.inr (Or.inl some)
    · cases never

section
variable (seated : Seated (some address) head seat) (found : head.get address = some channel)
include seated found

theorem seated_settle (peopled : permanent channel ∨ channel.memberlist ≠ []) :
    Seated none head seat := by
  refine ⟨seated.members, seated.once, seated.counted, ?_⟩
  intro place later there
  rcases seated.peopled place later there with always | some | same
  · exact Or.inl always
  · exact Or.inr (Or.inl some)
  cases same
  rw [found] at there
  cases there
  exact peopled.imp_right Or.inl

theorem seated_free (empty : channel.memberlist = []) :
    Seated none (head.free address) seat := by
  have kept {place : Nat} {later : Channel} (there : (head.free address).get place = some later) :
      place ≠ address ∧ head.get place = some later := by
    rw [Store.get_free] at there
    split at there
    · cases there
    · rename_i away
      exact ⟨away, there⟩
  constructor
  · intro other place
    rw [seated.members, Store.get_free]
    by_cases same : place = address
    · simp [same, found, empty]
    · rw [if_neg same]
  · exact fun place later there => seated.once place later (kept there).2
  · exact fun place later there => seated.counted place later (kept there).2
  · intro place later there
    rcases seated.peopled place later (kept there).2 with always | some | same
    · exact Or.inl always
    · exact Or.inr (Or.inl some)
    · exact absurd (some.inj same).symm (kept there).1

end

def vacate (head : Store Channel) (address c : Nat) (channel : Channel) : Store Channel :=
  if (removeMember c channel).memberlist = [] && !permanent channel then
    (head.edit address (removeMember c)).free address
  else head.edit address (removeMember c)

theorem get_vacate (found : head.get address = some channel) (place : Nat) :
    (vacate head address c channel).get place =
      if place = address then
        if (removeMember c channel).memberlist = [] && !permanent channel then none
        else some (removeMember c channel)
      else head.get place := by
  rw [vacate]
  split
  · rw [Store.get_free, Store.get_edit]
    split <;> rfl
  rw [Store.get_edit]
  split
  · rename_i same
    rw [same, found]
    rfl
  · rfl

theorem seated_vacate (seated : Seated none head seat) (found : head.get address = some channel)
    (here : seat c = some address) (few : channel.memberlist.length < 2 ^ 31) :
    Seated none (vacate head address c channel) (update seat c none) := by
  have removed := seated_remove seated found here few
  have left : (head.edit address (removeMember c)).get address = some (removeMember c channel) := by
    rw [Store.get_edit, if_pos rfl, found]
    rfl
  rw [vacate]
  split
  · rename_i deserted
    simp only [Bool.and_eq_true, decide_eq_true_eq] at deserted
    exact seated_free removed left deserted.1
  rename_i kept
  apply seated_settle removed left
  by_cases always : permanent channel
  · exact Or.inl always
  · exact Or.inr (by simpa [always] using kept)

/-- What no call undoes: a permanent channel stays, flags stay, and an address that was given out
is not given out again. -/
structure Evolves (before after : Store Channel) : Prop where
  grown : before.allocated ≤ after.allocated
  gone : ∀ address < before.allocated, before.get address = none → after.get address = none
  stays : ∀ address channel, before.get address = some channel → permanent channel →
    ∃ later, after.get address = some later
  flags : ∀ address channel later, before.get address = some channel →
    after.get address = some later → permanent later = permanent channel

theorem get_below {address : Nat} {channel : Channel} (found : head.get address = some channel) :
    address < head.allocated :=
  head.below _ ((head.get_listed address).mp ⟨channel, found⟩)

theorem evolves_refl (head : Store Channel) : Evolves head head := by
  refine ⟨le_refl _, fun _ _ none => none, fun _ channel found _ => ⟨channel, found⟩, ?_⟩
  intro address channel later found there
  rw [found] at there
  cases there
  rfl

theorem evolves_trans {before middle after : Store Channel} (first : Evolves before middle)
    (second : Evolves middle after) : Evolves before after := by
  constructor
  · exact le_trans first.grown second.grown
  · exact fun address below none => second.gone address (lt_of_lt_of_le below first.grown)
      (first.gone address below none)
  · intro address channel found always
    obtain ⟨between, there⟩ := first.stays address channel found always
    exact second.stays address between there
      ((first.flags address channel between found there).trans always)
  · intro address channel later found there
    cases between : middle.get address with
    | none =>
      have below := lt_of_lt_of_le (get_below found) first.grown
      rw [second.gone address below between] at there
      cases there
    | some mid =>
      exact (second.flags address mid later between there).trans
        (first.flags address channel mid found between)

theorem evolves_append (head : Store Channel) (copy : Channel) :
    Evolves head (head.append copy) := by
  have old {address : Nat} (below : address < head.allocated) :
      (head.append copy).get address = head.get address := by
    rw [Store.get_append, if_neg (Nat.ne_of_lt below)]
  constructor
  · exact Nat.le_succ _
  · exact fun address below none => (old below).trans none
  · exact fun address channel found _ => ⟨channel, (old (get_below found)).trans found⟩
  · intro address channel later found there
    rw [old (get_below found), found] at there
    cases there
    rfl

theorem evolves_edit (head : Store Channel) (address : Nat) {change : Channel → Channel}
    (same : ∀ channel, permanent (change channel) = permanent channel) :
    Evolves head (head.edit address change) := by
  constructor
  · exact le_refl _
  · intro place _ none
    rw [Store.get_edit, none]
    split <;> rfl
  · intro place channel found _
    rw [Store.get_edit, found]
    split <;> exact ⟨_, rfl⟩
  · intro place channel later found there
    rw [Store.get_edit, found] at there
    split at there <;> cases there
    · exact same channel
    · rfl

theorem evolves_free (found : head.get address = some channel)
    (temporary : permanent channel = false) : Evolves head (head.free address) := by
  constructor
  · exact le_refl _
  · intro place _ none
    rw [Store.get_free, none]
    split <;> rfl
  · intro place other there always
    have away : place ≠ address := by
      rintro rfl
      rw [found] at there
      cases there
      rw [temporary] at always
      cases always
    rw [Store.get_free, if_neg away]
    exact ⟨other, there⟩
  · intro place other later was there
    rw [Store.get_free] at there
    split at there
    · cases there
    · rw [was] at there
      cases there
      rfl

theorem evolves_vacate (c : Nat) (found : head.get address = some channel) :
    Evolves head (vacate head address c channel) := by
  have removed : Evolves head (head.edit address (removeMember c)) :=
    evolves_edit head address fun _ => rfl
  have left : (head.edit address (removeMember c)).get address = some (removeMember c channel) := by
    rw [Store.get_edit, if_pos rfl, found]
    rfl
  rw [vacate]
  split
  · rename_i deserted
    simp only [Bool.and_eq_true, Bool.not_eq_true'] at deserted
    exact evolves_trans removed (evolves_free left deserted.2)
  · exact removed

end Seats

end Pvpgn.ChannelMembers
