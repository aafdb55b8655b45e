import Pvpgn.ChannelMembers

/-!
What each call that enters or leaves a channel does to the member lists and the pointers.
-/

namespace Pvpgn.ChannelCalls
open Stdio ObjectList ObjectStore Channels ChannelNames ChannelMembers List Option Function Prod

section Connections

def seatOf (conns : Store Connection) (c : Nat) : Option Nat :=
  (conns.get c).bind Connection.channel

def plain (conn : Connection) : Connection := { conn with game := none, tmpOPChannel := none }

structure Retouched (before after : Store Connection) : Prop where
  addresses : addresses after.objects = addresses before.objects
  same : ∀ c, (after.get c).map plain = (before.get c).map plain

variable {before middle after : Store Connection} {conns : Store Connection} {c : Nat}
  {conn : Connection}

theorem retouched_refl (conns : Store Connection) : Retouched conns conns := ⟨rfl, fun _ => rfl⟩

theorem retouched_trans (first : Retouched before middle) (second : Retouched middle after) :
    Retouched before after :=
  ⟨second.addresses.trans first.addresses, fun c => (second.same c).trans (first.same c)⟩

variable {change : Connection → Connection}

theorem retouched_edit (conns : Store Connection) (c : Nat)
    (same : ∀ conn, plain (change conn) = plain conn) : Retouched conns (conns.edit c change) := by
  refine ⟨Store.addresses_edit _ _ _, fun other => ?_⟩
  rw [Store.get_edit]
  split
  · rw [Option.map_map]
    exact map_congr fun conn _ => same conn
  · rfl

theorem retouched_under (retouched : Retouched before after) (c : Nat)
    (commutes : ∀ conn, plain (change conn) = change (plain conn)) :
    Retouched (before.edit c change) (after.edit c change) := by
  refine ⟨?_, fun other => ?_⟩
  · rw [Store.addresses_edit, Store.addresses_edit]
    exact retouched.addresses
  have under (object : Option Connection) :
      (object.map change).map plain = (object.map plain).map change := by
    rw [Option.map_map, Option.map_map]
    exact map_congr fun conn _ => commutes conn
  rw [Store.get_edit, Store.get_edit]
  split
  · rw [under, under, retouched.same]
  · exact retouched.same other

theorem retouched_place (found : conns.get c = some conn) :
    Retouched (conns.edit c (.inChannel conn.channel)) conns := by
  refine ⟨(Store.addresses_edit _ _ _).symm, fun other => ?_⟩
  rw [Store.get_edit]
  split
  · rename_i own
    rw [own, found]
    rfl
  · rfl

theorem retouched_get (retouched : Retouched before after) (found : before.get c = some conn) :
    ∃ later, after.get c = some later ∧ plain later = plain conn := by
  have same := retouched.same c
  rw [found, map_some] at same
  exact map_eq_some_iff.mp same

theorem field_retouched {Field : Type} (retouched : Retouched before after)
    (field : Connection → Option Field) (kept : ∀ conn, field (plain conn) = field conn) (c : Nat) :
    (after.get c).bind field = (before.get c).bind field := by
  have through (object : Option Connection) :
      object.bind field = (object.map plain).bind field := by
    cases object with
    | none => rfl
    | some conn => exact (kept conn).symm
  rw [through, retouched.same, ← through]

theorem seat_retouched (retouched : Retouched before after) : seatOf after = seatOf before :=
  funext fun c => field_retouched retouched Connection.channel (fun _ => rfl) c

theorem seat_edit (found : conns.get c = some conn) (address : Option Nat) :
    seatOf (conns.edit c (.inChannel address)) = update (seatOf conns) c address := by
  funext other
  rw [seatOf, Store.get_edit]
  by_cases own : other = c
  · rw [own, if_pos rfl, found, update_self]
    rfl
  · rw [if_neg own, update_of_ne own]
    rfl

theorem seat_free (conns : Store Connection) (c : Nat) :
    seatOf (conns.free c) = update (seatOf conns) c none := by
  funext other
  rw [seatOf, Store.get_free]
  by_cases own : other = c
  · rw [own, if_pos rfl, update_self]
    rfl
  · rw [if_neg own, update_of_ne own]
    rfl

end Connections

/-- What holds between the calls, and within one but for a channel that was just created. -/
structure Consistent (pool : Pool) (spare : Option Nat) (server : Server) : Prop where
  seated : Seated spare server.channels.head (seatOf server.conns)
  accounts : ∀ account c, server.accountConn account = some c →
    (server.conns.get c).bind Connection.account = some account
  room : (addresses server.conns.objects).length ≤ pool.maxcons

section Calls
variable {pool : Pool} {server : Server} {c address : Nat} {conn : Connection} {channel : Channel}

theorem seat_alive (seat : seatOf server.conns c = some address) :
    ∃ conn, server.conns.get c = some conn ∧ conn.channel = some address :=
  bind_eq_some_iff.mp seat

variable (env : Env) {spare : Option Nat}

theorem members_few (seated : Seated spare server.channels.head (seatOf server.conns))
    (found : server.channel address = some channel) :
    channel.memberlist.length ≤ (addresses server.conns.objects).length ∧
      (c ∈ addresses server.conns.objects → c ∉ channel.memberlist →
        channel.memberlist.length + 1 ≤ (addresses server.conns.objects).length) := by
  have once := seated.once address channel found
  have inside : channel.memberlist ⊆ addresses server.conns.objects := by
    intro other member
    obtain ⟨conn, alive, _⟩ := seat_alive ((seated.members other address).mpr
      ⟨channel, found, member⟩)
    exact (server.conns.get_listed other).mp ⟨conn, alive⟩
  constructor
  · exact once.length_le_of_subset inside
  intro alive apart
  have more : c :: channel.memberlist ⊆ addresses server.conns.objects :=
    cons_subset.mpr ⟨alive, inside⟩
  exact (nodup_cons.mpr ⟨apart, once⟩).length_le_of_subset more

theorem del_connection (found : server.channel address = some channel)
    (alive : server.conns.get c = some conn) (member : c ∈ channel.memberlist) :
    ∃ conns, channelDelConnection server address c = some ({ server with
        channels := { server.channels with
          head := vacate server.channels.head address c channel }
        conns }, 0) ∧ Retouched server.conns conns := by
  have some : channel.memberlist ≠ [] := ne_nil_of_mem member
  have emptied : (server.channels.head.edit address (removeMember c)).get address =
      .some (removeMember c channel) := by
    rw [Store.get_edit, if_pos rfl]
    exact congrArg (Option.map (removeMember c)) found
  have settled (marked : Server)
      (head : marked.channels.head = server.channels.head.edit address (removeMember c)) :
      (if (removeMember c channel).memberlist = [] &&
          !hasFlag channel.flags channelFlagsPermanent then
        (channelDestroy marked address).bind fun destroyed => Option.some (destroyed.1, (0 : Int))
      else Option.some (marked, 0)) = Option.some ({ marked with channels :=
        { marked.channels with head := vacate server.channels.head address c channel } }, 0) := by
    rw [vacate, permanent]
    split
    · rename_i deserted
      simp only [Bool.and_eq_true, decide_eq_true_eq] at deserted
      rw [channelDestroy, Server.channel, head, emptied]
      simp [deserted.1]
    · rw [← head]
  rw [channelDelConnection]
  simp only [found, alive, bind_eq_bind, bind_some]
  rw [if_neg some, if_neg (not_not.mpr member)]
  by_cases operator : conn.tmpOPChannel = .some channel.name
  · rw [if_pos operator]
    refine ⟨_, settled _ rfl, retouched_edit _ _ fun _ => rfl⟩
  · rw [if_neg operator]
    exact ⟨_, settled _ rfl, retouched_refl _⟩

theorem leave_channel (alive : server.conns.get c = some conn) (here : conn.channel = some address)
    (found : server.channel address = some channel) (member : c ∈ channel.memberlist) :
    ∃ conns, leaveChannel server c = some ({ server with
        channels := { server.channels with
          head := vacate server.channels.head address c channel }
        conns := conns.edit c (.inChannel none) }, 0) ∧
      Retouched server.conns conns := by
  obtain ⟨conns, deleted, retouched⟩ := del_connection found alive member
  refine ⟨conns, ?_, retouched⟩
  simp only [leaveChannel, alive, here, deleted, bind_eq_bind, bind_some]
  rfl

theorem leave_nowhere (alive : server.conns.get c = some conn) (nowhere : conn.channel = none) :
    leaveChannel server c = some (server, -1) := by
  simp only [leaveChannel, alive, nowhere, bind_eq_bind, bind_some]

theorem add_connection (found : server.channel address = some channel)
    (alive : server.conns.get c = some conn) :
    channelAddConnection env server address c = some (server, -1) ∨
      ∃ conns, channelAddConnection env server address c =
          some ({ server.editChannel address (addMember c) with conns }, 0) ∧
        Retouched server.conns conns := by
  simp only [channelAddConnection, found, alive, bind_eq_bind, bind_some]
  split
  · exact Or.inl rfl
  right
  split
  · exact ⟨_, rfl, retouched_edit _ _ fun _ => rfl⟩
  · exact ⟨_, rfl, retouched_refl _⟩

/-- A status is read without a fault for a connection whose channel is listed, and for one that is
being destroyed. -/
theorem status_read (server : Server) (conn : Option Nat)
    (valid : ∀ c, conn = some c → ∃ connection, server.conns.get c = some connection ∧
      (connection.state = .empty ∨ ∀ address, connection.channel = some address →
        ∃ channel, server.channel address = some channel)) :
    ∃ status, clanmemberGetOnlineStatusByConnection server conn = some status := by
  cases conn with
  | none => exact ⟨_, rfl⟩
  | some c =>
    obtain ⟨connection, alive, sound⟩ := valid c rfl
    simp only [clanmemberGetOnlineStatusByConnection, alive, bind_eq_bind, bind_some]
    split
    · exact ⟨_, rfl⟩
    rename_i open_
    split
    · exact ⟨_, rfl⟩
    cases here : connection.channel with
    | none => exact ⟨_, rfl⟩
    | some address =>
      obtain ⟨channel, found⟩ := (sound.resolve_left open_) address here
      simp only [found, bind_some]
      exact ⟨_, rfl⟩

theorem offline_told (alive : server.conns.get c = some conn)
    (valid : ∀ account other, server.accountConn account = some other →
      ∃ connection, server.conns.get other = some connection ∧
        (connection.state = .empty ∨ ∀ address, connection.channel = some address →
          ∃ channel, server.channel address = some channel)) :
    ∃ status, clanmemberSetOffline env server c = some status := by
  simp only [clanmemberSetOffline, alive, bind_eq_bind, bind_some]
  cases conn.account with
  | none => exact ⟨_, rfl⟩
  | some account =>
    obtain ⟨status, read⟩ := status_read server (server.accountConn account) (valid account)
    simp only [read]
    split <;> exact ⟨_, rfl⟩

theorem seated_listed {head : Store Channel} {seat : Nat → Option Nat}
    (seated : Seated spare head seat) (here : seat c = some address) :
    ∃ channel, head.get address = some channel ∧ c ∈ channel.memberlist :=
  (seated.members c address).mp here

theorem consistent_few (consistent : Consistent pool spare server)
    (found : server.channel address = some channel) : channel.memberlist.length < 2 ^ 31 := by
  have few := (members_few (c := 0) consistent.seated found).1
  have room := consistent.room
  have int := pool.int
  omega

section
variable (consistent : Consistent pool spare server) (alive : server.conns.get c = some conn)
  {after : Server}
include consistent alive

theorem consistent_moved {place : Option Nat}
    (moved : Retouched (server.conns.edit c (.inChannel place)) after.conns)
    (accounts : after.accountConn = server.accountConn)
    (seated : Seated none after.channels.head (update (seatOf server.conns) c place)) :
    Consistent pool none after := by
  have same : addresses after.conns.objects = addresses server.conns.objects :=
    moved.addresses.trans (Store.addresses_edit _ _ _)
  constructor
  · rw [seat_retouched moved, seat_edit alive]
    exact seated
  · intro account other owner
    rw [accounts] at owner
    rw [field_retouched moved Connection.account (fun _ => rfl), Store.get_edit]
    have owned := consistent.accounts account other owner
    split
    · rw [bind_map]
      exact owned
    · exact owned
  · rw [same]
    exact consistent.room

theorem consistent_retouched (retouched : Retouched server.conns after.conns)
    (accounts : after.accountConn = server.accountConn)
    (seated : Seated none after.channels.head (seatOf server.conns)) :
    Consistent pool none after := by
  have still : update (seatOf server.conns) c conn.channel = seatOf server.conns := by
    have seat : seatOf server.conns c = conn.channel := by
      rw [seatOf, alive]
      rfl
    rw [← seat, update_eq_self]
  have moved := retouched_trans (retouched_place alive) retouched
  apply consistent_moved consistent alive moved accounts
  rw [still]
  exact seated

end

section
variable (consistent : Consistent pool none server) (alive : server.conns.get c = some conn)
include consistent alive

theorem leave_consistent :
    ∃ after result, leaveChannel server c = some (after, result) ∧ Consistent pool none after ∧
      Evolves server.channels.head after.channels.head ∧
      Retouched (server.conns.edit c (.inChannel none)) after.conns ∧
      ∀ place channel, server.channel place = some channel →
        (conn.channel = some place → permanent channel ∨ (removeMember c channel).memberlist ≠ []) →
        ∃ later, after.channel place = some later := by
  cases here : conn.channel with
  | none =>
    refine ⟨server, -1, leave_nowhere alive here, consistent, evolves_refl _, ?_,
      fun _ channel found _ => ⟨channel, found⟩⟩
    rw [← here]
    exact retouched_place alive
  | some address =>
    have seat : seatOf server.conns c = some address := by
      rw [seatOf, alive]
      exact here
    obtain ⟨channel, found, member⟩ := seated_listed consistent.seated seat
    obtain ⟨conns, left, retouched⟩ := leave_channel alive here found member
    have moved := retouched_under retouched c
      (fun conn => show plain (conn.inChannel none) = (plain conn).inChannel none from rfl)
    have vacated := seated_vacate consistent.seated found seat
      (consistent_few consistent found)
    refine ⟨_, _, left, consistent_moved consistent alive moved rfl vacated,
      evolves_vacate c found, moved, ?_⟩
    intro place other there stays
    rw [Server.channel, get_vacate found]
    by_cases same : place = address
    · rw [if_pos same]
      rw [same, Server.channel, found] at there
      cases there
      have kept : ¬ ((removeMember c channel).memberlist = [] && !permanent channel) = true := by
        rcases stays (congrArg some same.symm) with always | others
        · simp [always]
        · simp [others]
      rw [if_neg kept]
      exact ⟨_, rfl⟩
    · rw [if_neg same]
      exact ⟨other, there⟩

theorem del_from_channel :
    ∃ after, delFromChannel server c conn.channel = some after ∧
      Retouched server.conns after.conns ∧ after.accountConn = server.accountConn ∧
      Evolves server.channels.head after.channels.head ∧
      Seated none after.channels.head (update (seatOf server.conns) c none) := by
  have seat : seatOf server.conns c = conn.channel := by
    rw [seatOf, alive]
    rfl
  cases here : conn.channel with
  | none =>
    have same : update (seatOf server.conns) c none = seatOf server.conns := by
      rw [← here, ← seat, update_eq_self]
    refine ⟨server, rfl, retouched_refl _, rfl, evolves_refl _, ?_⟩
    rw [same]
    exact consistent.seated
  | some address =>
    rw [here] at seat
    obtain ⟨channel, found, member⟩ := seated_listed consistent.seated seat
    obtain ⟨conns, deleted, retouched⟩ := del_connection found alive member
    refine ⟨_, congrArg (Option.map fst) deleted, retouched, rfl, evolves_vacate c found, ?_⟩
    exact seated_vacate consistent.seated found seat (consistent_few consistent found)

/-- A connection is destroyed. Its pointer may be left to a channel that is gone, but the clan asks
a connection in the empty state only for that state. -/
theorem destroy_consistent :
    ∃ after, connDestroy env server c = some after ∧ Consistent pool none after ∧
      Evolves server.channels.head after.channels.head ∧ after.conns.get c = none := by
  obtain ⟨middle, left, retouched, accounts, evolves, seated⟩ := del_from_channel consistent alive
  obtain ⟨mid, still, same⟩ := retouched_get retouched alive
  have emptied : (middle.conns.edit c .closed).get c = some mid.closed := by
    rw [Store.get_edit, if_pos rfl, still]
    rfl
  have others {other : Nat} (apart : other ≠ c) {connection : Connection}
      (there : middle.conns.get other = some connection) (place : Nat)
      (inside : connection.channel = some place) :
      ∃ channel, middle.channels.head.get place = some channel := by
    have seat : seatOf middle.conns other = some place := by
      rw [seatOf, there]
      exact inside
    rw [seat_retouched retouched, ← update_of_ne apart none (seatOf server.conns)] at seat
    obtain ⟨channel, listed, _⟩ := seated_listed seated seat
    exact ⟨channel, listed⟩
  have told : ∃ status, clanmemberSetOffline env (middle.editConn c .closed) c = some status := by
    apply offline_told env emptied
    intro account other owned
    by_cases own : other = c
    · rw [own]
      exact ⟨_, emptied, Or.inl rfl⟩
    change middle.accountConn account = some other at owned
    rw [accounts] at owned
    have known := consistent.accounts account other owned
    rw [← field_retouched retouched Connection.account (fun _ => rfl)] at known
    obtain ⟨connection, there, _⟩ := bind_eq_some_iff.mp known
    refine ⟨connection, ?_, Or.inr (others own there)⟩
    rw [Server.editConn, Store.get_edit, if_neg own]
    exact there
  obtain ⟨status, told⟩ := told
  have freed : seatOf ((middle.conns.edit c .closed).free c) =
      update (seatOf server.conns) c none := by
    rw [seat_free, ← seat_retouched retouched]
    funext other
    by_cases own : other = c
    · rw [own, update_self, update_self]
    · rw [update_of_ne own, update_of_ne own, seatOf, Store.get_edit, if_neg own]
      rfl
  have ran : connDestroy env server c = some
      { middle with
        conns := (middle.conns.edit c .closed).free c
        accountConn := fun account =>
          if conn.account = some account ∧ middle.accountConn account = some c then none
          else middle.accountConn account } := by
    simp only [connDestroy, alive, left, told, bind_eq_bind, bind_some]
    rfl
  refine ⟨_, ran, ⟨?_, ?_, ?_⟩, evolves, ?_⟩
  · rw [freed]
    exact seated
  · intro account other owned
    simp only at owned
    split at owned
    · cases owned
    rename_i kept
    have known := consistent.accounts account other (accounts ▸ owned)
    have own : other ≠ c := by
      rintro rfl
      rw [alive] at known
      exact kept ⟨known, owned⟩
    rw [Store.get_free, if_neg own, Store.get_edit, if_neg own]
    exact (field_retouched retouched Connection.account (fun _ => rfl) other).trans known
  · have fewer := ((without_sublist (middle.conns.edit c .closed).objects c).map fst).length_le
    have same := Store.addresses_edit middle.conns c Connection.closed
    rw [retouched.addresses] at same
    exact fewer.trans (Nat.le_trans (congrArg length same).le consistent.room)
  · rw [Store.get_free, if_pos rfl]

end

structure Found (server after : Server) (found : Option Nat) : Prop where
  conns : after.conns = server.conns
  accounts : after.accountConn = server.accountConn
  evolves : Evolves server.channels.head after.channels.head
  kept : ∀ address channel, server.channel address = some channel →
    after.channel address = some channel
  listed : ∀ address, found = some address → ∃ channel, after.channel address = some channel
  missed : found = none → after = server
  old : ∀ address, found = some address → address < server.channels.head.allocated → after = server

theorem find_for (consistent : Consistent pool none server) (conn : Connection) (name : Text) :
    ∃ after found, findFor env server conn name = some (after, found) ∧
      Consistent pool none after ∧ Found server after found := by
  obtain ⟨channels, result, ran, cases⟩ :=
    search_cases env.log conn.country conn.realmname server.channels name
  have called : findFor env server conn name = some ({ server with channels }, result.map fst) := by
    simp only [findFor, ran, bind_eq_bind, bind_some]
  refine ⟨_, _, called, ?_⟩
  rcases cases with ⟨rfl, listed⟩ | ⟨copy, totalcount, fullname, maxmembers, created, rfl, rfl⟩
  · refine ⟨consistent, rfl, rfl, evolves_refl _, fun _ _ found => found, ?_, fun _ => rfl,
      fun _ _ _ => rfl⟩
    intro address found
    obtain ⟨channel, here, rfl⟩ := map_eq_some_iff.mp found
    exact ⟨channel.2, (server.channels.head.get_mem channel.1).mpr (listed channel here)⟩
  refine ⟨⟨?_, consistent.accounts, consistent.room⟩, rfl, rfl, evolves_append _ _, ?_, ?_, ?_, ?_⟩
  · exact seated_append consistent.seated created.memberlist created.currmembers
      (Or.inl created.permanent)
  · intro address channel found
    have below := get_below found
    rw [Server.channel, Store.get_append, if_neg (Nat.ne_of_lt below)]
    exact found
  · rintro address ⟨⟩
    refine ⟨copy, ?_⟩
    rw [Server.channel, Store.get_append]
    exact if_pos rfl
  · intro none
    cases none
  · rintro address ⟨⟩ below
    exact absurd below (Nat.lt_irrefl _)

theorem change_told (consistent : Consistent pool none server)
    (alive : server.conns.get c = some conn) :
    ∃ status, clanmemberOnChangeStatusByConnection env server c = some status := by
  have read : ∃ status, clanmemberGetOnlineStatusByConnection server (some c) = some status := by
    apply status_read
    rintro other ⟨⟩
    refine ⟨conn, alive, Or.inr fun address here => ?_⟩
    have seat : seatOf server.conns c = some address := by
      rw [seatOf, alive]
      exact here
    obtain ⟨channel, found, _⟩ := seated_listed consistent.seated seat
    exact ⟨channel, found⟩
  obtain ⟨status, read⟩ := read
  simp only [clanmemberOnChangeStatusByConnection, alive, read, bind_eq_bind, bind_some]
  split <;> exact ⟨_, rfl⟩

theorem retouched_back (conns : Store Connection) (c : Nat) (first second : Option Nat) :
    Retouched (conns.edit c (.inChannel second))
      ((conns.edit c (.inChannel first)).edit c (.inChannel second)) := by
  refine ⟨by simp, fun other => ?_⟩
  rw [Store.get_edit, Store.get_edit, Store.get_edit]
  split
  · cases conns.get other <;> rfl
  · rfl

theorem enter_consistent {created : Bool} (consistent : Consistent pool spare server)
    (alive : server.conns.get c = some conn) (outside : conn.channel = none)
    (found : server.channel address = some channel) (fits : (created = false ∧ spare = none) ∨
      (created = true ∧ spare = some address ∧ channel.memberlist = [] ∧
        permanent channel = false)) (oldchannel : Option Nat) :
    ∃ after result, enterChannel env server c address created oldchannel = some (after, result) ∧
      Consistent pool none after ∧ Evolves server.channels.head after.channels.head := by
  have unseated : seatOf server.conns c = none := by
    rw [seatOf, alive]
    exact outside
  have placed : (server.editConn c (.inChannel (some address))).conns.get c =
      some (conn.inChannel (some address)) := by
    rw [Server.editConn, Store.get_edit, if_pos rfl, alive]
    rfl
  have there : (server.editConn c (.inChannel (some address))).channel address = some channel :=
    found
  rw [enterChannel]
  rcases add_connection env there placed with failed | ⟨conns, added, retouched⟩
  · simp only [failed, bind_eq_bind, bind_some]
    have back := retouched_back server.conns c (some address) none
    have still : update (seatOf server.conns) c none = seatOf server.conns := by
      rw [← unseated, update_eq_self]
    rcases fits with ⟨rfl, rfl⟩ | ⟨rfl, rfl, empty, temporary⟩
    · refine ⟨_, _, rfl, consistent_moved consistent alive back rfl ?_, evolves_refl _⟩
      rw [still]
      exact consistent.seated
    have destroyed : channelDestroy (server.editConn c (.inChannel (some address))) address =
        some ({ server.editConn c (.inChannel (some address)) with channels :=
          { server.channels with head := server.channels.head.free address } }, 0) := by
      simp only [channelDestroy, there, empty, bind_eq_bind, bind_some]
      rfl
    simp only [destroyed, if_true, map_some, bind_some]
    refine ⟨_, _, rfl, consistent_moved consistent alive back rfl ?_, evolves_free found temporary⟩
    rw [still]
    exact seated_free consistent.seated found empty
  simp only [added, bind_eq_bind, bind_some]
  rw [if_neg (Int.lt_irrefl 0)]
  have fewer : channel.memberlist.length + 1 < 2 ^ 31 := by
    have apart : c ∉ channel.memberlist := by
      intro member
      have seat := (consistent.seated.members c address).mpr ⟨channel, found, member⟩
      rw [unseated] at seat
      cases seat
    have listed : c ∈ addresses server.conns.objects := (server.conns.get_listed c).mp ⟨conn, alive⟩
    have few := (members_few consistent.seated found).2 listed apart
    have room := consistent.room
    have int := pool.int
    omega
  have spared : spare = none ∨ spare = some address := by
    rcases fits with ⟨_, none⟩ | ⟨_, one, _⟩
    · exact Or.inl none
    · exact Or.inr one
  have after : Consistent pool none
      { (server.editConn c (.inChannel (some address))).editChannel address (addMember c) with
        conns } :=
    consistent_moved consistent alive retouched rfl
      (seated_add consistent.seated found unseated spared fewer)
  have evolves : Evolves server.channels.head (server.channels.head.edit address (addMember c)) :=
    evolves_edit _ _ fun _ => rfl
  obtain ⟨later, still, _⟩ := retouched_get retouched placed
  obtain ⟨status, told⟩ := change_told env after still
  have read : Server.channel
      { (server.editConn c (.inChannel (some address))).editChannel address (addMember c) with
        conns } address = some (addMember c channel) := by
    rw [Server.channel, Server.editChannel, Store.get_edit, if_pos rfl]
    exact congrArg (Option.map (addMember c)) found
  simp only [read, told, bind_some]
  split
  · exact ⟨_, _, rfl, after, evolves⟩
  · exact ⟨_, _, rfl, after, evolves⟩

variable {target : Option Nat}

theorem change_channel (consistent : Consistent pool none server) {now : Connection}
    (alive : server.conns.get c = some now) (same : now.channel = conn.channel) (acc : Nat)
    (channelname : Text)
    (safe : ∀ place, target = some place → ∃ channel, server.channel place = some channel ∧
      (conn.channel = some place → permanent channel ∨ (removeMember c channel).memberlist ≠ [])) :
    ∃ after result, changeChannel env server c conn acc channelname target = some (after, result) ∧
      Consistent pool none after ∧ Evolves server.channels.head after.channels.head := by
  obtain ⟨parted, _, left, partedConsistent, evolves, moved, listed⟩ :=
    leave_consistent consistent alive
  have parts : partOldChannel server c conn = some parted := by
    rw [partOldChannel]
    split
    · exact congrArg (Option.map fst) left
    rename_i outside
    rw [← same, not_isSome_iff_eq_none] at outside
    rw [leave_nowhere alive outside] at left
    cases left
    rfl
  have targeted (place : Nat) (to_ : target = some place) :
      ∃ later, parted.channel place = some later := by
    obtain ⟨channel, found, stays⟩ := safe place to_
    exact listed place channel found (same ▸ stays)
  have gone : ∃ last, parted.conns.get c = some last ∧ last.channel = none := by
    have placed : (server.conns.edit c (.inChannel none)).get c = some (now.inChannel none) := by
      rw [Store.get_edit, if_pos rfl, alive]
      rfl
    obtain ⟨last, still, alike⟩ := retouched_get moved placed
    exact ⟨last, still, congrArg (fun conn : Connection => conn.channel) alike⟩
  obtain ⟨last, still, outside⟩ := gone
  have checked : ∃ away, checkEntry env parted conn acc channelname target = some away := by
    cases to_ : target with
    | none => exact ⟨_, rfl⟩
    | some place =>
      obtain ⟨later, found⟩ := targeted place to_
      exact ⟨_, congrArg (Option.map _) found⟩
  obtain ⟨away, checked⟩ := checked
  have ended : (parted.editConn c .outOfGame).conns.get c = some last.outOfGame := by
    rw [Server.editConn, Store.get_edit, if_pos rfl, still]
    rfl
  have quiet : Consistent pool none (parted.editConn c .outOfGame) :=
    consistent_retouched partedConsistent still (retouched_edit _ _ fun _ => rfl) rfl
      partedConsistent.seated
  simp only [changeChannel, parts, checked, bind_eq_bind, bind_some]
  split
  · exact ⟨_, _, rfl, partedConsistent, evolves⟩
  cases to_ : target with
  | some place =>
    obtain ⟨later, found⟩ := targeted place to_
    obtain ⟨after, result, entered, consistent, further⟩ := enter_consistent env quiet ended
      outside found (Or.inl ⟨rfl, rfl⟩) conn.channel
    exact ⟨after, result, entered, consistent, evolves_trans evolves further⟩
  | none =>
    rcases create_outcome env.log parted.channels channelname (some channelname) 0 false true
        true env.chanlog none none
        (if 0 < env.maxusersPerChannel then env.maxusersPerChannel else -1) false
        (clantagOf channelname ≠ 0) false with refused | ⟨channel, totalcount, created, made⟩
    · have named : channelOrCreated env
          (parted.editConn c .outOfGame) channelname none =
            (parted.editConn c .outOfGame, none, true) := by
        simp only [channelOrCreated, Server.editConn, refused]
        rfl
      simp only [named]
      exact ⟨_, _, rfl, quiet, evolves⟩
    have named : channelOrCreated env
        (parted.editConn c .outOfGame) channelname none =
          ({ parted.editConn c .outOfGame with
            channels := { head := parted.channels.head.append channel, totalcount } },
            some parted.channels.head.allocated, true) := by
      simp only [channelOrCreated, Server.editConn, made]
      rfl
    simp only [named]
    have fresh : Consistent pool (some parted.channels.head.allocated)
        { parted.editConn c .outOfGame with
          channels := { head := parted.channels.head.append channel, totalcount } } :=
      ⟨seated_append quiet.seated created.memberlist created.currmembers (Or.inr rfl),
        quiet.accounts, quiet.room⟩
    have found : (parted.channels.head.append channel).get parted.channels.head.allocated =
        some channel := by
      rw [Store.get_append, if_pos rfl]
    obtain ⟨after, result, entered, consistent, further⟩ := enter_consistent env fresh ended
      outside found (Or.inr ⟨rfl, rfl, created.memberlist, created.permanent⟩) conn.channel
    exact ⟨after, result, entered, consistent,
      evolves_trans evolves (evolves_trans (evolves_append _ _) further)⟩

/-- A request for the channel of another clan that does not exist, which is sent to the void. -/
structure SentAway (env : Env) (conn : Connection) (acc : Nat) (channelname : Text)
    (target : Option Nat) : Prop where
  missing : target = none
  clan : clantagOf channelname ≠ 0
  unprivileged : (env.authAdmin acc (some channelname) || env.authAdmin acc none) = false
  stranger : env.clan acc ≠ some (clantagOf channelname)
  playing : conn.game.isSome ∨ conn.channel = none

/-- What `conn_set_channel` knows when it goes on behind the clan channels. -/
structure Gated (env : Env) (server : Server) (conn : Connection) (acc : Nat) (channelname : Text)
    (target : Option Nat) (after : Server) (gate : Option (Option Nat)) : Prop where
  evolves : Evolves server.channels.head after.channels.head
  retouched : Retouched server.conns after.conns
  kept : ∀ address channel, server.channel address = some channel →
    after.channel address = some channel
  listed : ∀ place, gate = some (some place) → ∃ channel, after.channel place = some channel
  target : ∀ place, gate = some (some place) → target = some place ∨
    (SentAway env conn acc channelname target ∧
      findFor env server conn channelNameBanned = some (after, some place))

theorem clan_channel (consistent : Consistent pool none server)
    (alive : server.conns.get c = some conn) (acc : Nat) (channelname : Text)
    (listed : ∀ place, target = some place → ∃ channel, server.channel place = some channel) :
    ∃ after gate, clanChannel env server c conn acc channelname target = some (after, gate) ∧
      Consistent pool none after ∧ Gated env server conn acc channelname target after gate := by
  have through (gate : Option (Option Nat)) (same : ∀ place, gate = some (some place) →
      target = some place) : Gated env server conn acc channelname target server gate :=
    ⟨evolves_refl _, retouched_refl _, fun _ _ found => found,
      fun place gated => listed place (same place gated), fun place gated =>
        Or.inl (same place gated)⟩
  have onward : Gated env server conn acc channelname target server (some target) := by
    apply through
    rintro place ⟨⟩
    rfl
  have refused : Gated env server conn acc channelname target server none := by
    apply through
    rintro place ⟨⟩
  simp only [clanChannel]
  by_cases clan : clantagOf channelname ≠ 0 &&
      !(env.authAdmin acc (some channelname) || env.authAdmin acc none)
  · rw [if_pos clan]
    by_cases stranger : env.clan acc ≠ some (clantagOf channelname)
    · rw [if_pos stranger]
      cases to_ : target with
      | none =>
        by_cases playing : conn.game.isSome || conn.channel.isNone
        · obtain ⟨after, found, ran, afterConsistent, result⟩ :=
            find_for env consistent conn channelNameBanned
          simp only [if_pos playing, ran, bind_eq_bind, bind_some]
          have sent : SentAway env conn acc channelname none := by
            simp only [Bool.and_eq_true, decide_eq_true_eq, Bool.not_eq_true'] at clan
            refine ⟨rfl, clan.1, clan.2, stranger, ?_⟩
            simpa using playing
          refine ⟨_, _, rfl, afterConsistent, result.evolves, ?_, result.kept, ?_, ?_⟩
          · rw [result.conns]
            exact retouched_refl _
          · rintro place ⟨⟩
            exact result.listed place rfl
          · rintro place ⟨⟩
            exact Or.inr ⟨sent, ran⟩
        · rw [if_neg playing]
          exact ⟨_, _, rfl, consistent, to_ ▸ refused⟩
      | some place =>
        simp only
        split
        · exact ⟨_, _, rfl, consistent, to_ ▸ refused⟩
        · exact ⟨_, _, rfl, consistent, to_ ▸ onward⟩
    · rw [if_neg stranger]
      split
      · refine ⟨_, _, rfl, ?_, ⟨evolves_refl _, retouched_edit _ _ fun _ => rfl,
          fun _ _ found => found, ?_, ?_⟩⟩
        · exact consistent_retouched consistent alive (retouched_edit _ _ fun _ => rfl) rfl
            consistent.seated
        · exact onward.listed
        · rintro place ⟨⟩
          exact Or.inl rfl
      · exact ⟨_, _, rfl, consistent, onward⟩
  · rw [if_neg clan]
    exact ⟨_, _, rfl, consistent, onward⟩

/-- The only request that uses a channel after it was destroyed. A connection that is in a game and
alone in a channel that is not permanent asks for the channel of another clan, which does not exist,
and the void that it is sent to is its own channel. -/
structure Redirected (env : Env) (server : Server) (c : Nat) (channelname : Text)
    (conn : Connection) (acc address : Nat) (channel : Channel) : Prop where
  alive : server.conns.get c = some conn
  account : conn.account = some acc
  playing : conn.game.isSome
  here : conn.channel = some address
  found : server.channel address = some channel
  alone : channel.memberlist = [c]
  temporary : permanent channel = false
  clan : clantagOf channelname ≠ 0
  unprivileged : (env.authAdmin acc (some channelname) || env.authAdmin acc none) = false
  stranger : env.clan acc ≠ some (clantagOf channelname)
  missing : findFor env server conn channelname = some (server, none)
  void : findFor env server conn channelNameBanned = some (server, some address)

theorem set_channel (consistent : Consistent pool none server)
    (alive : server.conns.get c = some conn) (channelname : Text)
    (safe : ¬ ∃ conn acc address channel,
      Redirected env server c channelname conn acc address channel) :
    ∃ after result, connSetChannel env server c channelname = some (after, result) ∧
      Consistent pool none after ∧ Evolves server.channels.head after.channels.head := by
  simp only [connSetChannel, alive, bind_eq_bind, bind_some]
  cases account : conn.account with
  | none => exact ⟨_, _, rfl, consistent, evolves_refl _⟩
  | some acc =>
    obtain ⟨middle, target, ran, middleConsistent, result⟩ :=
      find_for env consistent conn channelname
    simp only [ran, bind_some]
    by_cases same : (target.isSome && target = conn.channel) = true
    · rw [if_pos same]
      exact ⟨_, _, rfl, middleConsistent, result.evolves⟩
    rw [if_neg same]
    have middleAlive : middle.conns.get c = some conn := by
      rw [result.conns]
      exact alive
    obtain ⟨passed, gate, gated, passedConsistent, known⟩ :=
      clan_channel env middleConsistent middleAlive acc channelname result.listed
    simp only [gated, bind_some]
    cases gate with
    | none => exact ⟨_, _, rfl, passedConsistent, evolves_trans result.evolves known.evolves⟩
    | some place =>
      obtain ⟨now, nowAlive, alike⟩ := retouched_get known.retouched middleAlive
      have nowHere : (plain now).channel = (plain conn).channel := congrArg _ alike
      have targeted (address : Nat) (to_ : place = some address) :
          ∃ channel, passed.channel address = some channel ∧
            (conn.channel = some address →
              permanent channel ∨ (removeMember c channel).memberlist ≠ []) := by
        rw [to_] at known
        obtain ⟨channel, found⟩ := known.listed address rfl
        refine ⟨channel, found, fun here => ?_⟩
        by_contra deserted
        rw [not_or, not_not, Bool.not_eq_true] at deserted
        rcases known.target address rfl with first | ⟨sent, void⟩
        · exact same (by simp [first, here])
        obtain rfl := result.missed sent.missing
        have seat : seatOf middle.conns c = some address := by
          rw [seatOf, alive]
          exact here
        obtain ⟨own, listed, member⟩ := seated_listed consistent.seated seat
        obtain ⟨later, again, second, _, result⟩ := find_for env consistent conn channelNameBanned
        rw [void] at second
        cases second
        have unchanged := result.old address rfl (get_below listed)
        rw [unchanged] at found void
        rw [Server.channel, listed] at found
        cases found
        have once : channel.memberlist = [c] := by
          have none : (channel.memberlist.erase c).length = 0 := by
            rw [length_eq_zero_iff]
            exact deserted.2
          rw [length_erase_of_mem member] at none
          have one : channel.memberlist.length = 1 := by
            have some := length_pos_of_mem member
            omega
          obtain ⟨only, single⟩ := length_eq_one_iff.mp one
          rw [single, mem_singleton] at member
          rw [single, member]
        have playing : conn.game.isSome := by
          rcases sent.playing with playing | outside
          · exact playing
          · rw [here] at outside
            cases outside
        exact safe ⟨conn, acc, address, channel, alive, account, playing, here, listed,
          once, deserted.1, sent.clan, sent.unprivileged, sent.stranger,
          sent.missing ▸ ran, void⟩
      obtain ⟨after, code, changed, afterConsistent, further⟩ :=
        change_channel env passedConsistent nowAlive nowHere acc channelname targeted
      exact ⟨after, code, changed, afterConsistent,
        evolves_trans result.evolves (evolves_trans known.evolves further)⟩

end Calls

end Pvpgn.ChannelCalls
