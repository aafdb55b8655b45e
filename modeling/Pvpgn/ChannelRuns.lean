import Pvpgn.ChannelCalls

/-!
Runs of the server: connections come and log in, enter, change and leave channels and games, and
are destroyed. One request uses a channel after it was destroyed, and no other call does.
-/

namespace Pvpgn.ChannelRuns
open Stdio ObjectList ObjectStore Channels ChannelMembers ChannelCalls Option Function Prod

inductive Event where
  | accept (cclass : ConnClass) (country realmname : Option Text)
  | login (c account : Nat)
  | describe (c : Nat) (cclass : ConnClass) (country realmname : Option Text)
  | play (c : Nat) (game : Option Nat)
  | adjust (address : Nat) (banlist : List Text) (maxmembers : Int)
  | setChannel (c : Nat) (channelname : Text)
  | partChannel (c : Nat)
  | kickChannel (c : Nat)
  | quitChannel (c : Nat)
  | destroy (c : Nat)

/-- A call on a connection that is not allocated is not made. -/
def onConnection (server : Server) (c : Nat) (call : Option Server) : Option Server :=
  if (server.conns.get c).isSome then call else some server

/-- The tables of the packet handlers let a connection log in only once. -/
def login (server : Server) (c account : Nat) : Server :=
  if (server.conns.get c).any fun conn => conn.account.isNone then
    { server.editConn c fun conn => { conn with account := some account, state := .loggedin } with
      accountConn := update server.accountConn account (some c) }
  else server

def step (pool : Pool) (env : Env) (server : Server) : Event → Option Server
  | .accept cclass country realmname =>
    if server.conns.objects.length < pool.maxcons then
      some { server with
        conns := server.conns.append
          ⟨cclass, .initial, none, country, realmname, none, none, none⟩ }
    else some server
  | .login c account => some (login server c account)
  | .describe c cclass country realmname =>
    some (server.editConn c fun conn => { conn with cclass, country, realmname })
  | .play c game => some (server.editConn c fun conn => { conn with game })
  | .adjust address banlist maxmembers =>
    some (server.editChannel address fun channel => { channel with banlist, maxmembers })
  | .setChannel c channelname =>
    onConnection server c ((connSetChannel env server c channelname).map fst)
  | .partChannel c => onConnection server c ((connPartChannel server c).map fst)
  | .kickChannel c => onConnection server c ((connKickChannel server c).map fst)
  | .quitChannel c => onConnection server c ((connQuitChannel server c).map fst)
  | .destroy c => onConnection server c (connDestroy env server c)

def run (pool : Pool) : Server → List (Env × Event) → Option Server
  | server, [] => some server
  | server, (env, event) :: rest =>
    (step pool env server event).bind fun after => run pool after rest

def boot (channels : ChannelList) : Server := ⟨channels, .empty, fun _ => none⟩

structure Loaded (channel : Channel) : Prop where
  permanent : permanent channel
  memberlist : channel.memberlist = []
  currmembers : channel.currmembers = 0

/-- Not the request that is redirected to a channel that it then destroys. -/
def Safe (env : Env) (server : Server) (event : Event) : Prop :=
  ∀ c channelname, event = .setChannel c channelname →
    ¬ ∃ conn acc address channel, Redirected env server c channelname conn acc address channel

inductive Clear (pool : Pool) : Server → List (Env × Event) → Prop where
  | nil (server : Server) : Clear pool server []
  | cons {server : Server} {env : Env} {event : Event} {rest : List (Env × Event)}
      (safe : Safe env server event)
      (later : ∀ after, step pool env server event = some after → Clear pool after rest) :
      Clear pool server ((env, event) :: rest)

/-- What the member lists and the pointers say between the calls. -/
structure Sound (server : Server) : Prop where
  members : ∀ c conn address channel, server.conns.get c = some conn →
    server.channel address = some channel →
    (c ∈ channel.memberlist ↔ conn.channel = some address)
  once : ∀ address channel, server.channel address = some channel →
    ∀ c ∈ channel.memberlist, channel.memberlist.count c = 1
  listed : ∀ c conn address, server.conns.get c = some conn → conn.channel = some address →
    ∃ channel, server.channel address = some channel
  alive : ∀ address channel, server.channel address = some channel →
    ∀ c ∈ channel.memberlist, ∃ conn, server.conns.get c = some conn
  counted : ∀ address channel, server.channel address = some channel →
    channel.currmembers = channel.memberlist.length
  peopled : ∀ address channel, server.channel address = some channel →
    permanent channel = false → channel.memberlist ≠ []

/-- A channel that a call leaves without members is destroyed if and only if it is not permanent. -/
def Emptied (before after : Server) : Prop :=
  ∀ address channel, before.channel address = some channel → channel.memberlist ≠ [] →
    (∀ left, after.channel address = some left → left.memberlist = []) →
    (after.channel address = none ↔ permanent channel = false)

section Steps
variable {pool : Pool} {server : Server} {c : Nat} {conn : Connection}

theorem consistent_sound (consistent : Consistent pool none server) : Sound server := by
  have seat {c : Nat} {conn : Connection} (alive : server.conns.get c = some conn) :
      seatOf server.conns c = conn.channel := by
    rw [seatOf, alive]
    rfl
  constructor
  · intro c conn address channel alive found
    rw [← seat alive, consistent.seated.members]
    constructor
    · exact fun member => ⟨channel, found, member⟩
    rintro ⟨other, same, member⟩
    rw [Server.channel, same] at found
    cases found
    exact member
  · intro address channel found c member
    exact List.count_eq_one_of_mem (consistent.seated.once address channel found) member
  · intro c conn address alive here
    obtain ⟨channel, found, _⟩ := seated_listed consistent.seated ((seat alive).trans here)
    exact ⟨channel, found⟩
  · intro address channel found c member
    have seated := (consistent.seated.members c address).mpr ⟨channel, found, member⟩
    obtain ⟨conn, alive, _⟩ := seat_alive seated
    exact ⟨conn, alive⟩
  · exact consistent.seated.counted
  · intro address channel found temporary
    rcases consistent.seated.peopled address channel found with always | some | never
    · rw [temporary] at always
      cases always
    · exact some
    · cases never

theorem evolves_emptied {after : Server} (consistent : Consistent pool none after)
    (evolves : Evolves server.channels.head after.channels.head) : Emptied server after := by
  intro address channel found _ deserted
  cases there : after.channel address with
  | none =>
    refine iff_of_true rfl ?_
    by_contra always
    rw [Bool.not_eq_false] at always
    obtain ⟨later, still⟩ := evolves.stays address channel found always
    rw [Server.channel, still] at there
    cases there
  | some left =>
    refine iff_of_false (some_ne_none _) ?_
    rw [← evolves.flags address channel left found there]
    intro temporary
    exact (consistent_sound consistent).peopled address left there temporary (deserted left there)

variable {back : List (Env × Event)} {change : Connection → Connection}

theorem seat_kept (conns : Store Connection) (c : Nat)
    (kept : ∀ conn, (change conn).channel = conn.channel) :
    seatOf (conns.edit c change) = seatOf conns := by
  funext other
  rw [seatOf, seatOf, Store.get_edit]
  split
  · rw [bind_map]
    exact congrArg _ (funext kept)
  · rfl

section
variable (consistent : Consistent pool none server)
include consistent

theorem accept_consistent (room : server.conns.objects.length < pool.maxcons) (conn : Connection)
    (outside : conn.channel = none) :
    Consistent pool none { server with conns := server.conns.append conn } := by
  have seat : seatOf (server.conns.append conn) = seatOf server.conns := by
    funext other
    rw [seatOf, seatOf, Store.get_append]
    split
    · rename_i new
      rw [new, Store.get_allocated]
      exact outside
    · rfl
  constructor
  · rw [seat]
    exact consistent.seated
  · intro account other owner
    have owned := consistent.accounts account other owner
    have old : other ≠ server.conns.allocated := by
      rintro rfl
      rw [Store.get_allocated] at owned
      cases owned
    rw [Store.get_append, if_neg old]
    exact owned
  · simpa [addresses] using Nat.succ_le_of_lt room

theorem edit_consistent (c : Nat) (channel : ∀ conn, (change conn).channel = conn.channel)
    (account : ∀ conn, (change conn).account = conn.account) :
    Consistent pool none (server.editConn c change) := by
  constructor
  · rw [Server.editConn, seat_kept _ _ channel]
    exact consistent.seated
  · intro owner other owned
    have known := consistent.accounts owner other owned
    rw [Server.editConn, Store.get_edit]
    split
    · rw [bind_map]
      exact (congrArg _ (funext account)).trans known
    · exact known
  · rw [Server.editConn, Store.addresses_edit]
    exact consistent.room

theorem login_consistent (c account : Nat) :
    Consistent pool none (login server c account) := by
  rw [login]
  split
  · rename_i fresh
    obtain ⟨conn, alive, unnamed⟩ := (any_eq_true _ _).mp fresh
    constructor
    · simp only [Server.editConn]
      rw [seat_kept]
      · exact consistent.seated
      · exact fun _ => rfl
    · intro owner other owned
      change update server.accountConn account (some c) owner = some other at owned
      simp only [Server.editConn, Store.get_edit]
      by_cases new : owner = account
      · rw [new, update_self] at owned
        cases owned
        rw [if_pos rfl, alive, new]
        rfl
      rw [update_of_ne new] at owned
      have known := consistent.accounts owner other owned
      have apart : other ≠ c := by
        rintro rfl
        rw [alive, bind_some] at known
        rw [known] at unnamed
        cases unnamed
      rw [if_neg apart]
      exact known
    · simp only [Server.editConn, Store.addresses_edit]
      exact consistent.room
  · exact consistent

theorem adjust_consistent (address : Nat) (banlist : List Text) (maxmembers : Int) :
    Consistent pool none
      (server.editChannel address fun channel => { channel with banlist, maxmembers }) := by
  have was {place : Nat} {later : Channel}
      (there : (server.channels.head.edit address fun channel =>
        { channel with banlist, maxmembers }).get place = some later) :
      ∃ channel, server.channel place = some channel ∧
        later.memberlist = channel.memberlist ∧ later.currmembers = channel.currmembers ∧
        permanent later = permanent channel := by
    rw [Store.get_edit] at there
    split at there
    · obtain ⟨channel, found, rfl⟩ := map_eq_some_iff.mp there
      exact ⟨channel, found, rfl, rfl, rfl⟩
    · exact ⟨later, there, rfl, rfl, rfl⟩
  refine ⟨⟨?_, ?_, ?_, ?_⟩, consistent.accounts, consistent.room⟩
  · intro c place
    rw [Server.editChannel, Store.get_edit]
    refine (consistent.seated.members c place).trans ?_
    by_cases own : place = address
    · rw [if_pos own]
      cases server.channels.head.get place with
      | none => simp
      | some channel => simp
    · rw [if_neg own]
  · intro place later there
    obtain ⟨channel, found, members, _⟩ := was there
    rw [members]
    exact consistent.seated.once place channel found
  · intro place later there
    obtain ⟨channel, found, members, count, _⟩ := was there
    rw [members, count]
    exact consistent.seated.counted place channel found
  · intro place later there
    obtain ⟨channel, found, members, _, flags⟩ := was there
    rw [members, flags]
    exact consistent.seated.peopled place channel found

end

def Does (pool : Pool) (server : Server) (result : Option Server) : Prop :=
  ∃ after, result = some after ∧ Consistent pool none after ∧
    Evolves server.channels.head after.channels.head

section
variable (consistent : Consistent pool none server)
include consistent

theorem does_nothing : Does pool server (some server) :=
  ⟨server, rfl, consistent, evolves_refl _⟩

theorem on_connection {call : Option Server}
    (does : ∀ conn, server.conns.get c = some conn → Does pool server call) :
    Does pool server (onConnection server c call) := by
  rw [onConnection]
  split
  · rename_i allocated
    obtain ⟨conn, alive⟩ := isSome_iff_exists.mp allocated
    exact does conn alive
  · exact does_nothing consistent

theorem leave_does (alive : server.conns.get c = some conn) :
    Does pool server ((leaveChannel server c).map fst) := by
  obtain ⟨after, _, left, kept, evolves, _⟩ := leave_consistent consistent alive
  exact ⟨after, congrArg (Option.map fst) left, kept, evolves⟩

end

theorem step_does (env : Env) (event : Event) (consistent : Consistent pool none server)
    (safe : Safe env server event) : Does pool server (step pool env server event) := by
  cases event with
  | accept cclass country realmname =>
    rw [step]
    split
    · rename_i room
      exact ⟨_, rfl, accept_consistent consistent room _ rfl, evolves_refl _⟩
    · exact does_nothing consistent
  | login c account =>
    refine ⟨_, rfl, login_consistent consistent c account, ?_⟩
    rw [login]
    split <;> exact evolves_refl _
  | describe c cclass country realmname =>
    exact ⟨_, rfl, edit_consistent consistent c (fun _ => rfl) fun _ => rfl, evolves_refl _⟩
  | play c game =>
    exact ⟨_, rfl, edit_consistent consistent c (fun _ => rfl) fun _ => rfl, evolves_refl _⟩
  | adjust address banlist maxmembers =>
    exact ⟨_, rfl, adjust_consistent consistent address banlist maxmembers,
      evolves_edit _ _ fun _ => rfl⟩
  | setChannel c channelname =>
    apply on_connection consistent
    intro conn alive
    obtain ⟨after, _, ran, kept, evolves⟩ :=
      set_channel env consistent alive channelname (safe c channelname rfl)
    exact ⟨after, congrArg (Option.map fst) ran, kept, evolves⟩
  | partChannel c => exact on_connection consistent fun _ alive => leave_does consistent alive
  | kickChannel c => exact on_connection consistent fun _ alive => leave_does consistent alive
  | quitChannel c => exact on_connection consistent fun _ alive => leave_does consistent alive
  | destroy c =>
    apply on_connection consistent
    intro conn alive
    obtain ⟨after, ran, kept, evolves, _⟩ := destroy_consistent env consistent alive
    exact ⟨after, ran, kept, evolves⟩

theorem boot_consistent (pool : Pool) (channels : ChannelList)
    (loaded : ∀ address channel, channels.head.get address = some channel → Loaded channel) :
    Consistent pool none (boot channels) := by
  refine ⟨⟨?_, ?_, ?_, ?_⟩, ?_, Nat.zero_le _⟩
  · intro c address
    refine iff_of_false (fun seat => ?_) ?_
    · cases seat
    · rintro ⟨channel, found, member⟩
      rw [(loaded address channel found).memberlist] at member
      cases member
  · intro address channel found
    rw [(loaded address channel found).memberlist]
    exact List.nodup_nil
  · intro address channel found
    rw [(loaded address channel found).memberlist, (loaded address channel found).currmembers]
    rfl
  · exact fun address channel found => Or.inl (loaded address channel found).permanent
  · intro account c owned
    cases owned

theorem run_consistent {events : List (Env × Event)} (consistent : Consistent pool none server)
    (clear : Clear pool server events) :
    ∃ after, run pool server events = some after ∧ Consistent pool none after := by
  induction clear with
  | nil server => exact ⟨server, rfl, consistent⟩
  | cons safe _ ih =>
    obtain ⟨middle, stepped, kept, _⟩ := step_does _ _ consistent safe
    obtain ⟨after, ran, sound⟩ := ih middle stepped kept
    refine ⟨after, ?_, sound⟩
    rw [run, stepped]
    exact ran

variable {front : List (Env × Event)}

theorem clear_split (clear : Clear pool server (front ++ back)) :
    Clear pool server front ∧ ∀ after, run pool server front = some after →
      Clear pool after back := by
  induction front generalizing server with
  | nil =>
    refine ⟨.nil server, ?_⟩
    rintro after ⟨⟩
    exact clear
  | cons event rest ih =>
    cases clear with
    | cons safe later =>
      refine ⟨.cons safe fun after stepped => (ih (later after stepped)).1, ?_⟩
      intro after ran
      obtain ⟨middle, stepped, ran⟩ := bind_eq_some_iff.mp ran
      exact (ih (later middle stepped)).2 after ran

theorem boot_runs {channels : ChannelList}
    (loaded : ∀ address channel, channels.head.get address = some channel → Loaded channel)
    (clear : Clear pool (boot channels) (front ++ back)) :
    ∃ after, run pool (boot channels) front = some after ∧ Consistent pool none after ∧
      Clear pool after back := by
  obtain ⟨first, later⟩ := clear_split clear
  obtain ⟨after, ran, kept⟩ := run_consistent (boot_consistent pool channels loaded) first
  exact ⟨after, ran, kept, later after ran⟩

end Steps

/-- In a run without the redirected request no channel is used after it was destroyed. After each
call the member lists agree with the pointers, and a channel that the call emptied is gone if and
only if it is not permanent. -/
theorem membership_kept (pool : Pool) (channels : ChannelList) (events : List (Env × Event))
    (loaded : ∀ address channel, channels.head.get address = some channel → Loaded channel)
    (clear : Clear pool (boot channels) events) :
    (∃ after, run pool (boot channels) events = some after ∧ Sound after) ∧
      ∀ front env event back, events = front ++ (env, event) :: back →
        ∃ before after, run pool (boot channels) front = some before ∧
          step pool env before event = some after ∧ Sound before ∧ Sound after ∧
          Emptied before after := by
  constructor
  · rw [← List.append_nil events] at clear
    obtain ⟨after, ran, kept, _⟩ := boot_runs loaded clear
    exact ⟨after, ran, consistent_sound kept⟩
  rintro front env event back rfl
  obtain ⟨before, ran, kept, next⟩ := boot_runs loaded clear
  cases next with
  | cons safe _ =>
    obtain ⟨after, stepped, still, evolves⟩ := step_does env event kept safe
    exact ⟨before, after, ran, stepped, consistent_sound kept, consistent_sound still,
      evolves_emptied still evolves⟩

theorem safe_plain (env : Env) (server : Server) {c : Nat} {channelname : Text}
    (plain : clantagOf channelname = 0) : Safe env server (.setChannel c channelname) := by
  rintro other name same ⟨conn, acc, address, channel, redirected⟩
  cases same
  exact redirected.clan plain

def bareEnv : Env where
  log := ⟨text "chanlogs", text "20240101"⟩
  authAdmin := fun _ _ => false
  authOperator := fun _ _ => false
  accountMatch := fun _ _ => false
  clan := fun _ => none
  clanmember := fun _ => none
  clanmemberForced := fun _ => false
  clanPrivate := fun _ => false
  maxusersPerChannel := 40
  chanlog := false

def tenConns : Pool := ⟨10, by decide⟩

def noChannels : ChannelList := ⟨.empty, 0⟩

def twoRooms : List (Env × Event) :=
  [(bareEnv, .accept .telnet none none), (bareEnv, .login 0 7),
    (bareEnv, .setChannel 0 (text "Lobby")), (bareEnv, .setChannel 0 (text "Attic"))]

theorem rooms_clear : Clear tenConns (boot noChannels) twoRooms := by
  refine .cons (fun _ _ same => nomatch same) fun _ _ => ?_
  refine .cons (fun _ _ same => nomatch same) fun _ _ => ?_
  refine .cons (safe_plain _ _ (by rfl)) fun _ _ => ?_
  exact .cons (safe_plain _ _ (by rfl)) fun _ _ => .nil _

theorem rooms_kept : ∃ after, run tenConns (boot noChannels) twoRooms = some after ∧ Sound after :=
  (membership_kept tenConns noChannels twoRooms (fun _ _ none => nomatch none) rooms_clear).1

/-- A player who is alone in a channel named like the void, and in a game, asks for the channel of
a clan. -/
def clanRequest : List (Env × Event) :=
  [(bareEnv, .accept .telnet none none), (bareEnv, .login 0 7),
    (bareEnv, .setChannel 0 (text "The Void")), (bareEnv, .play 0 (some 1)),
    (bareEnv, .setChannel 0 (text "clan XYZ"))]

theorem destroyed_used : run tenConns (boot noChannels) clanRequest = none := by rfl

end Pvpgn.ChannelRuns
