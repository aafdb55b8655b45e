import Pvpgn.RealmCursor
import Pvpgn.RealmGames

/-!
Runs of the realm server: every event keeps the counters and the lists, and an event fails in no
state that a run reaches. A request belongs to one connection as long as session numbers do.
-/

namespace Pvpgn.RealmRuns
open Stdio ObjectList RealmServer RealmGames List Option
open LinkedList (Cursor cursorBehind)

variable {event : Event}

section Steps

/-- A new connection does not get the number of one that is still open. -/
def SessionFree (world : World) : Event → Prop
  | .accept _ => ∀ entry ∈ world.connections, entry.2.sessionnum ≠ world.sessionnum
  | _ => True

structure Stepped (event : Event) (world after : World) : Prop where
  tidy : Tidy none after
  listed : AllListed after.d2gss
  owned : SessionFree world event → Owned world.gqlist world.connections →
    Owned after.gqlist after.connections
  order : after.gqlist.Sublist world.gqlist ∨
    ∃ entry, entry.1 ∉ addresses world.gqlist ∧ after.gqlist = world.gqlist ++ [entry]

theorem stepped_served {world after : World} (tidy : Tidy none after)
    (listed : AllListed after.d2gss) (served : Served world after) : Stepped event world after :=
  ⟨tidy, listed, fun _ => served.owned, Or.inl served.order⟩

theorem all_listed_same {before after : Objects D2gs} (same : roll after = roll before)
    (listed : AllListed before) : AllListed after := by
  rw [all_listed_roll, same, ← all_listed_roll]
  exact listed

theorem peers_find {before after : Objects Connection} (same : peers after = peers before)
    {c : Nat} {conn : Connection} (found : find before c = some conn) :
    ∃ later, find after c = some later ∧
      ({ later with gamequeue := none } : Connection) = { conn with gamequeue := none } := by
  have keys (connections : Objects Connection) : find (peers connections) c =
      (find connections c).map fun conn => { conn with gamequeue := none } := by
    rw [find, peers, find?_map, find, Option.map_map, Option.map_map]
    rfl
  have equal := keys after
  rw [same, keys, found, map_some] at equal
  exact map_eq_some_iff.mp equal.symm

theorem owned_edit {gqlist : Objects Gq} {connections : Objects Connection}
    (owned : Owned gqlist connections) (distinct : (addresses connections).Nodup) (c : Nat)
    (edit : Connection → Connection) (same : ∀ conn, (edit conn).sessionnum = conn.sessionnum ∧
      (edit conn).gamequeue = conn.gamequeue)
    (client : ∀ conn, find connections c = some conn → conn.gamequeue ≠ none →
      (edit conn).cclass = .d2cs) : Owned gqlist (change connections c edit) := by
  have cases {entry : Nat × Connection} (member : entry ∈ change connections c edit) :=
    mem_change distinct member
  constructor
  · have numbers : (change connections c edit).map (fun entry => entry.2.sessionnum) =
        connections.map fun entry => entry.2.sessionnum := by
      rw [change, List.map_map]
      apply map_congr_left
      intro entry _
      rw [Function.comp_apply]
      split
      · exact (same entry.2).1
      · rfl
    rw [numbers]
    exact owned.sessions
  · intro entry member gq waiting
    rcases cases member with ⟨conn, found, rfl⟩ | ⟨_, inside⟩
    · rw [(same conn).1]
      exact owned.waits _ (find_mem found) gq ((same conn).2 ▸ waiting)
    · exact owned.waits entry inside gq waiting
  · intro gq listed
    obtain ⟨entry, member, waiting⟩ := owned.owned gq listed
    refine ⟨_, mem_map_of_mem member, ?_⟩
    split
    · exact (same entry.2).2.trans waiting
    · exact waiting
  · intro entry member busy
    rcases cases member with ⟨conn, found, rfl⟩ | ⟨_, inside⟩
    · exact client conn found ((same conn).2 ▸ busy)
    · exact owned.clients entry inside busy

theorem stepped_edit (event : Event) {world : World} (tidy : Tidy none world)
    (listed : AllListed world.d2gss) (c : Nat) (edit : Connection → Connection)
    (same : ∀ conn, (edit conn).sessionnum = conn.sessionnum ∧
      (edit conn).gamequeue = conn.gamequeue)
    (client : Owned world.gqlist world.connections → ∀ conn, find world.connections c = some conn →
      conn.gamequeue ≠ none → (edit conn).cclass = .d2cs) :
    Stepped event world (editConn world c edit) := by
  refine ⟨⟨tidy.hosting, tidy.register, tidy.requests, ?_⟩, listed, fun _ owned => ?_,
    Or.inl (Sublist.refl _)⟩
  · rw [editConn, addresses_change]
    exact tidy.connections
  · exact owned_edit owned tidy.connections c edit same (client owned)

end Steps

section Connections
variable {world : World} (tidy : Tidy none world) (listed : AllListed world.d2gss)
include tidy listed

variable (env : Env) {c : Nat} {conn : Connection}

theorem accept_stepped (addr : UInt32) :
    Stepped (.accept addr) world (d2csConnCreate env world addr) := by
  have fresh := env.malloc.fresh (addresses world.connections)
  refine ⟨⟨tidy.hosting, tidy.register, tidy.requests, nodup_cons.mpr
    ⟨fresh, tidy.connections⟩⟩, listed, fun unused owned => ?_, Or.inl (Sublist.refl _)⟩
  constructor
  · refine nodup_cons.mpr ⟨?_, owned.sessions⟩
    intro taken
    obtain ⟨entry, member, same⟩ := mem_map.mp taken
    exact unused entry member same
  · intro entry member gq waiting
    rcases mem_cons.mp member with rfl | old
    · cases waiting
    · exact owned.waits entry old gq waiting
  · intro gq queued
    obtain ⟨entry, member, waiting⟩ := owned.owned gq queued
    exact ⟨entry, mem_cons_of_mem _ member, waiting⟩
  · intro entry member busy
    rcases mem_cons.mp member with rfl | old
    · exact absurd rfl busy
    · exact owned.clients entry old busy

section
variable (found : find world.connections c = some conn)
include found

theorem destroy_stepped :
    ∃ after, d2csConnDestroy env world c conn = some after ∧
      Stepped (.destroyConnection c) world after := by
  have closed (owned : Owned world.gqlist world.connections) :=
    owned_close owned tidy.connections found
  have gone : Tidy none { world with connections := without world.connections c } :=
    ⟨tidy.hosting, tidy.register, tidy.requests, without_distinct c tidy.connections⟩
  rw [d2csConnDestroy, stopServer]
  have unqueued (waiting : conn.gamequeue = none) : Stepped (.destroyConnection c) world
      { world with connections := without world.connections c } := by
    refine ⟨gone, listed, fun _ owned => ?_, Or.inl (Sublist.refl _)⟩
    simpa [waiting] using closed owned
  have queued (gq : Nat) (waiting : conn.gamequeue = some gq) :
      Stepped (.destroyConnection c) world
        (gqDestroy { world with connections := without world.connections c } gq).1 := by
    refine ⟨⟨gone.hosting, gone.register, without_distinct gq tidy.requests, gone.connections⟩,
      listed, fun _ owned => ?_, Or.inl (without_sublist _ _)⟩
    simpa [waiting, gqDestroy] using closed owned
  by_cases server : conn.d2gsId ≠ 0 ∧ conn.cclass = .d2gs
  · rw [if_pos server]
    cases hit : d2gslistFindGs { world with connections := without world.connections c }
        conn.d2gsId with
    | none =>
      cases waiting : conn.gamequeue with
      | none => exact ⟨_, rfl, unqueued waiting⟩
      | some gq => exact ⟨_, rfl, queued gq waiting⟩
    | some entry =>
      have listedServer : entry ∈ world.d2gss := (mem_filter.mp (mem_of_find?_eq_some hit)).1
      obtain ⟨mid, stopped, kept, served, same, _⟩ :=
        deactive env gone (mem_find tidy.hosting.serversDistinct listedServer) c
      have still := all_listed_same same listed
      simp only [stopped, bind_eq_bind, bind_some]
      have idle (owned : Owned world.gqlist world.connections) : conn.gamequeue = none := by
        by_contra busy
        have client := owned.clients _ (find_mem found) busy
        rw [server.2] at client
        cases client
      cases waiting : conn.gamequeue with
      | none =>
        refine ⟨mid, rfl, kept, still, fun _ owned => served.owned ?_, Or.inl served.order⟩
        simpa [waiting] using closed owned
      | some gq =>
        refine ⟨_, rfl, ⟨kept.hosting, kept.register, without_distinct gq kept.requests,
          kept.connections⟩, still, fun _ owned => ?_,
          Or.inl ((without_sublist _ _).trans served.order)⟩
        rw [idle owned] at waiting
        cases waiting
  · rw [if_neg server]
    cases waiting : conn.gamequeue with
    | none => exact ⟨_, rfl, unqueued waiting⟩
    | some gq => exact ⟨_, rfl, queued gq waiting⟩

theorem initconn_stepped (fresh : conn.cclass = .init) (gsaddrs : List UInt32) :
    ∃ after, onD2gsInitconn env world c conn gsaddrs = some after ∧
      Stepped (.initconnD2gs c gsaddrs) world after := by
  have checked : ∃ mid, recheckGs env world conn gsaddrs = some mid ∧ Enrolled world mid := by
    rw [recheckGs]
    split
    · exact ⟨world, rfl, tidy, listed, served_refl world⟩
    · exact reload env tidy listed gsaddrs
  obtain ⟨mid, ran, enrolled⟩ := checked
  rw [onD2gsInitconn, ran, bind_eq_bind, bind_some]
  split
  · exact ⟨mid, rfl, stepped_served enrolled.tidy enrolled.listed enrolled.served⟩
  next gs _ =>
    have stepped := stepped_edit (.initconnD2gs c gsaddrs) enrolled.tidy
      enrolled.listed c (fun conn => { conn with cclass := .d2gs, d2gsId := gs.id })
      (fun _ => ⟨rfl, rfl⟩) (by
        intro owned later present busy
        obtain ⟨still, again, same⟩ := peers_find enrolled.served.peers found
        rw [present, some.injEq] at again
        have client := owned.clients _ (find_mem present) busy
        simp only [Connection.mk.injEq] at same
        rw [again, same.1, fresh] at client
        cases client)
    exact ⟨_, rfl, stepped.tidy, stepped.listed,
      fun free owned => stepped.owned free (enrolled.served.owned owned),
      Or.inl enrolled.served.order⟩

theorem create_stepped (client : conn.cclass = .d2cs) (packet : CreateGameReq) :
    ∃ after, onClientCreategamereq env world c conn packet = some after ∧
      Stepped (.creategamereq c packet) world after := by
  obtain ⟨after, ran, effect⟩ := request_effect env tidy c conn packet
  refine ⟨after, ran, ?_⟩
  have connections (gq : Option Nat) : (addresses (change world.connections c fun conn =>
      { conn with gamequeue := gq })).Nodup := by
    rw [addresses_change]
    exact tidy.connections
  cases effect with
  | nothing => exact stepped_served tidy listed (served_refl world)
  | dropped gq waiting =>
    exact ⟨⟨tidy.hosting, tidy.register, without_distinct gq tidy.requests, connections none⟩,
      listed, fun _ owned => owned_release owned tidy.connections found waiting,
      Or.inl (without_sublist _ _)⟩
  | queued gamename idle =>
    have fresh := env.malloc.fresh (addresses world.gqlist)
    refine ⟨⟨tidy.hosting, tidy.register, ?_, connections _⟩, listed, fun _ owned =>
      owned_queue owned tidy.connections found idle client fresh rfl, Or.inr ⟨_, fresh, rfl⟩⟩
    simp only [connSetGamequeue, gqCreate, addresses_append]
    refine nodup_append.mpr ⟨tidy.requests, by simp, ?_⟩
    intro old present new only same
    have here : new = env.malloc.pick (addresses world.gqlist) := mem_singleton.mp only
    exact fresh (here ▸ same ▸ present)
  | created after new =>
    obtain ⟨kept, queue, others, framed, _⟩ := tidy_created tidy new
    refine ⟨kept, all_listed_same (roll_frame framed) listed, fun _ owned => ?_, ?_⟩
    · rw [queue, others]
      exact owned
    · rw [queue]
      exact Or.inl (Sublist.refl _)

theorem cancel_stepped :
    Stepped (.cancelcreategame c) world (onClientCancelcreategame world c conn) := by
  rw [onClientCancelcreategame]
  cases waiting : conn.gamequeue with
  | none => exact stepped_served tidy listed (served_refl world)
  | some gq =>
    refine ⟨⟨tidy.hosting, tidy.register, without_distinct gq tidy.requests, ?_⟩, listed,
      fun _ owned => owned_release owned tidy.connections found waiting,
      Or.inl (without_sublist _ _)⟩
    simp only [gqDestroy, connSetGamequeue, addresses_change]
    exact tidy.connections

end

theorem list_stepped (c : Nat) (conn : Connection) :
    ∃ after examined, onClientGamelistreq env world conn = some (after, examined) ∧
      Stepped (.gamelistreq c) world after := by
  obtain ⟨last, examined, ran, reading, _⟩ :=
    RealmCursor.request_reads env conn tidy.hosting.gamesDistinct tidy.register.cursor
  refine ⟨_, examined, ran, ⟨tidy.hosting, ?_, tidy.requests, tidy.connections⟩, listed,
    fun _ owned => owned, Or.inl (Sublist.refl _)⟩
  exact ⟨tidy.register.proper, tidy.register.total, tidy.register.names,
    CyclicCursor.reading_listed reading tidy.register.cursor⟩

end Connections

section Messages
variable {world : World} (tidy : Tidy none world)
include tidy

theorem find_gs {entry : Nat × D2gs} {id : UInt32} (hit : d2gslistFindGs world id = some entry) :
    find world.d2gss entry.1 = some entry.2 :=
  mem_find tidy.hosting.serversDistinct
    (mem_filter.mp (mem_of_find?_eq_some hit)).1

theorem game_by_number (d2gsId d2gsGameid : UInt32) :
    ∃ found, gamelistFindGameByD2gsAndId world d2gsId d2gsGameid = some found ∧
      ∀ address, found = some address → address ∈ addresses world.games := by
  have search (games : Objects Game) (part : ∀ entry ∈ games, entry ∈ world.games) :
      ∃ found, findGameByD2gsAndId world d2gsId d2gsGameid games = some found ∧
        ∀ address, found = some address → address ∈ addresses world.games := by
    induction games with
    | nil => exact ⟨none, rfl, by simp⟩
    | cons entry rest ih =>
      have later := ih fun other member => part other (mem_cons_of_mem _ member)
      have inside := part entry mem_cons_self
      rw [findGameByD2gsAndId]
      split
      · exact later
      have read : ∃ id, gameD2gsId world entry.2 = some id := by
        rw [gameD2gsId]
        cases host : entry.2.d2gs with
        | none => exact ⟨0, rfl⟩
        | some gs =>
          obtain ⟨server, present⟩ := find_listed (tidy.hosting.hosts entry inside gs host)
          exact ⟨server.id, by simp [present]⟩
      obtain ⟨id, known⟩ := read
      rw [known, bind_eq_bind, bind_some]
      split
      · exact later
      · refine ⟨_, rfl, ?_⟩
        rintro address ⟨⟩
        exact mem_map_of_mem inside
  exact search world.games fun _ member => member

variable (listed : AllListed world.d2gss)
include listed

variable (env : Env) (c : Nat) (conn : Connection)

theorem authreply_stepped (succeed : Bool) :
    ∃ after, onD2gsAuthreply env world c conn succeed = some after ∧
      Stepped (.authreply c succeed) world after := by
  rw [onD2gsAuthreply]
  cases hit : d2gslistFindGs world conn.d2gsId with
  | none => exact ⟨world, rfl, stepped_served tidy listed (served_refl world)⟩
  | some entry =>
    cases succeed with
    | false => exact ⟨world, rfl, stepped_served tidy listed (served_refl world)⟩
    | true =>
      obtain ⟨after, ran, kept, served, same⟩ := activate env tidy (find_gs tidy hit) c
      exact ⟨after, ran, stepped_served kept (all_listed_same same listed) served⟩

theorem setgsinfo_stepped (maxgame : UInt32) :
    ∃ after, onD2gsSetgsinfo env world conn maxgame = some after ∧
      Stepped (.setgsinfo c maxgame) world after := by
  rw [onD2gsSetgsinfo]
  cases hit : d2gslistFindGs world conn.d2gsId with
  | none => exact ⟨world, rfl, stepped_served tidy listed (served_refl world)⟩
  | some entry =>
    have edited : Tidy none (editGs world entry.1 fun server => { server with maxgame }) :=
      tidy_edit tidy entry.1 _ (fun server found => ⟨tidy.hosting.counted _ (find_mem found),
        fun _ stopped => idle_hosts_none tidy found stopped⟩) fun _ _ moving => moving
    obtain ⟨after, ran, kept, grown, served⟩ := check_creategame env edited
      ({ entry.2 with maxgame } : D2gs).free
    refine ⟨after, ran, stepped_served kept ?_ ⟨served.owned, served.order, served.peers⟩⟩
    refine all_listed_same ((roll_frame grown.frame).trans ?_) listed
    exact roll_edit world entry.1 _ fun _ => rfl

theorem destroyed_stepped {address : Nat} (present : address ∈ addresses world.games) :
    ∃ after, (gameDestroy env world address).map Prod.fst = some after ∧
      Stepped event world after := by
  obtain ⟨game, found⟩ := find_listed present
  obtain ⟨after, ran, kept, grown, served⟩ := game_destroy env tidy found
  exact ⟨after, by rw [ran, map_some],
    stepped_served kept (all_listed_same (roll_frame grown.frame) listed) served⟩

theorem changed_stepped (address : Nat) (edit : Game → Game)
    (proper : ∀ game, Proper game → Proper (edit game))
    (same : ∀ game, (edit game).name = game.name ∧ (edit game).d2gs = game.d2gs) :
    Stepped event world { world with games := change world.games address edit } :=
  ⟨⟨hosting_games tidy.hosting address edit fun game => (same game).2,
    register_change tidy.register address edit proper fun game => (same game).1,
    tidy.requests, tidy.connections⟩, listed, fun _ owned => owned, Or.inl (Sublist.refl _)⟩

theorem creategamereply_stepped (clientid gameid : UInt32) (succeed : Bool) (d2gsGameid : UInt32) :
    ∃ after, onD2gsCreategamereply env world clientid gameid succeed d2gsGameid = some after ∧
      Stepped (.creategamereply c clientid gameid succeed d2gsGameid) world after := by
  rw [onD2gsCreategamereply]
  split
  · exact ⟨world, rfl, stepped_served tidy listed (served_refl world)⟩
  split
  · exact ⟨world, rfl, stepped_served tidy listed (served_refl world)⟩
  next address _ hit =>
    cases succeed with
    | true =>
      exact ⟨_, rfl, changed_stepped tidy listed address _
        (fun _ proper => ⟨proper.counted, proper.distinct⟩) fun _ => ⟨rfl, rfl⟩⟩
    | false =>
      exact destroyed_stepped tidy listed env
        (mem_map_of_mem (mem_of_find?_eq_some hit))

theorem updategameinfo_stepped (charname : Option Text) (d2gsGameid : UInt32) (flag : UpdateFlag)
    (charclass charlevel : UInt8) :
    ∃ after, onD2gsUpdategameinfo env world conn charname d2gsGameid flag charclass charlevel =
        some after ∧
      Stepped (.updategameinfo c charname d2gsGameid flag charclass charlevel) world after := by
  cases charname with
  | none => exact ⟨world, rfl, stepped_served tidy listed (served_refl world)⟩
  | some charname =>
    obtain ⟨found, ran, _⟩ := game_by_number tidy conn.d2gsId d2gsGameid
    simp only [onD2gsUpdategameinfo, ran, bind_eq_bind, bind_some]
    cases found with
    | none => exact ⟨world, rfl, stepped_served tidy listed (served_refl world)⟩
    | some address =>
      have adds (game : Game) :
          (gameAddCharacter env game charname charclass charlevel).name = game.name ∧
            (gameAddCharacter env game charname charclass charlevel).d2gs = game.d2gs := by
        rw [gameAddCharacter]
        split <;> exact ⟨rfl, rfl⟩
      have dels (game : Game) : (gameDelCharacter env game charname).name = game.name ∧
          (gameDelCharacter env game charname).d2gs = game.d2gs := by
        rw [gameDelCharacter]
        split <;> exact ⟨rfl, rfl⟩
      refine ⟨_, rfl, changed_stepped tidy listed address _ (fun game proper => ?_)
        fun game => ?_⟩
      · cases flag with
        | enter => exact proper_add env proper charname charclass charlevel
        | update => exact proper_add env proper charname charclass charlevel
        | leave => exact proper_del env proper charname
        | bad => exact proper
      · cases flag with
        | enter => exact adds game
        | update => exact adds game
        | leave => exact dels game
        | bad => exact ⟨rfl, rfl⟩

theorem closegame_stepped (d2gsGameid : UInt32) :
    ∃ after, onD2gsClosegame env world conn d2gsGameid = some after ∧
      Stepped (.closegame c d2gsGameid) world after := by
  obtain ⟨found, ran, inside⟩ := game_by_number tidy conn.d2gsId d2gsGameid
  simp only [onD2gsClosegame, ran, bind_eq_bind, bind_some]
  cases found with
  | none => exact ⟨world, rfl, stepped_served tidy listed (served_refl world)⟩
  | some address => exact destroyed_stepped tidy listed env (inside address rfl)

end Messages

section Timers
variable {world : World} (tidy : Tidy none world) (listed : AllListed world.d2gss)
include tidy listed

theorem voidgame_stepped (env : Env) :
    ∃ after, d2csGamelistCheckVoidgame env world = some after ∧
      Stepped .checkVoidgame world after := by
  rw [d2csGamelistCheckVoidgame]
  split
  · exact ⟨world, rfl, stepped_served tidy listed (served_refl world)⟩
  obtain ⟨after, ran, kept, served, framed, _⟩ := sweep env
    (fun game => game.currchar = 0 ∧ env.now - game.lastaccessTime > env.prefs.maxGameIdletime)
    (checkVoidgame env) (by
      intro curr state game present
      rw [checkVoidgame, present, bind_eq_bind, bind_some]
      split
      · cases gameDestroy env state curr <;> rfl
      · rfl) tidy
  exact ⟨after, ran, stepped_served kept (all_listed_same (roll_frame framed) listed) served⟩

theorem update_stepped :
    ∃ after, gqlistUpdateAllClients world = some after ∧ Stepped .updateAllClients world after := by
  obtain ⟨last, walked, kept, all, served⟩ := walk_rule requestElems updateClient
    (fun state front back => requestElems state = front ++ back ∧ Enrolled world state)
    (Enrolled world) (fun _ back => back.length) (fun _ _ held => held.2) (by
      rintro state front curr back ⟨elems, enrolled⟩
      have distinct : (front ++ curr :: back).Nodup := elems.symm ▸ enrolled.tidy.requests
      obtain ⟨gq, present⟩ := find_listed (show curr ∈ addresses state.gqlist from
        (show curr ∈ requestElems state by simp [elems]))
      rw [Round, updateClient, present, bind_eq_bind, bind_some]
      cases found : d2csConnlistFindConnectionBySessionnum state gq.clientid with
      | none =>
        obtain ⟨before, rest, split, moved, shorter⟩ := next_without distinct (Sublist.refl _)
        have later : requestElems (gqDestroy state curr).1 =
            (front ++ curr :: back).filter (· ≠ curr) := by
          rw [← elems]
          exact addresses_without state.gqlist curr
        have goes : next (requestElems (gqDestroy state curr).1) (gqDestroy state curr).2 =
            some rest.head? := by
          rw [later, gqDestroy, show addresses state.gqlist = front ++ curr :: back from elems]
          exact moved
        refine ⟨_, _, rfl, before, rest, goes, ⟨later.trans split, ⟨enrolled.tidy.hosting,
          enrolled.tidy.register, without_distinct curr enrolled.tidy.requests,
          enrolled.tidy.connections⟩, enrolled.listed, fun owned => ?_, ?_, ?_⟩,
          Nat.lt_succ_of_le shorter⟩
        · obtain ⟨c, conn, again, _⟩ := owned_finds (enrolled.served.owned owned) present
          rw [found] at again
          cases again
        · exact (without_sublist _ _).trans enrolled.served.order
        · exact enrolled.served.peers
      | some entry =>
        refine ⟨state, _, rfl, front ++ [curr], back, ?_, ⟨by simp [elems], enrolled⟩, by simp⟩
        rw [elems]
        exact next_elem distinct)
    (world.gqlist.length + 1) world [] (requestElems world)
    ⟨rfl, tidy, listed, served_refl world⟩ (by simp [requestElems, addresses])
  exact ⟨last, walked, stepped_served kept all served⟩

end Timers

section Runs

theorem step_stepped (env : Env) {world : World} (tidy : Tidy none world)
    (listed : AllListed world.d2gss) (event : Event) :
    ∃ after, step env world event = some after ∧ Stepped event world after := by
  have nothing : ∃ after, some world = some after ∧ Stepped event world after :=
    ⟨world, rfl, stepped_served tidy listed (served_refl world)⟩
  have received (c : Nat) (cclass : ConnClass) (handle : Connection → Option World)
      (handled : ∀ conn, find world.connections c = some conn → conn.cclass = cclass →
        ∃ after, handle conn = some after ∧ Stepped event world after) :
      ∃ after, receive world c cclass handle = some after ∧ Stepped event world after := by
    rw [receive]
    cases found : find world.connections c with
    | none => exact nothing
    | some conn =>
      by_cases same : conn.cclass = cclass
      · simp only [if_pos same]
        exact handled conn found same
      · simp only [if_neg same]
        exact nothing
  cases event with
  | accept addr => exact ⟨_, rfl, accept_stepped tidy listed env addr⟩
  | destroyConnection c =>
    rw [step]
    cases found : find world.connections c with
    | none => exact nothing
    | some conn => exact destroy_stepped tidy listed env found
  | initconnD2gs c gsaddrs =>
    exact received c _ _ fun conn found fresh =>
      initconn_stepped tidy listed env found fresh gsaddrs
  | initconnD2cs c =>
    exact received c _ _ fun conn _ _ =>
      ⟨_, rfl, stepped_edit _ tidy listed c _ (fun _ => ⟨rfl, rfl⟩) fun _ _ _ _ => rfl⟩
  | setCharinfo c charinfo =>
    exact received c _ _ fun conn _ _ =>
      ⟨_, rfl, stepped_edit _ tidy listed c _ (fun _ => ⟨rfl, rfl⟩) fun owned _ found busy =>
        owned.clients _ (find_mem found) busy⟩
  | creategamereq c packet =>
    exact received c _ _ fun conn found client =>
      create_stepped tidy listed env found client packet
  | cancelcreategame c =>
    exact received c _ _ fun conn found _ => ⟨_, rfl, cancel_stepped tidy listed found⟩
  | gamelistreq c =>
    refine received c _ _ fun conn _ _ => ?_
    obtain ⟨after, examined, ran, stepped⟩ := list_stepped tidy listed env c conn
    exact ⟨after, by rw [ran]; rfl, stepped⟩
  | authreply c succeed =>
    exact received c _ _ fun conn _ _ => authreply_stepped tidy listed env c conn succeed
  | setgsinfo c maxgame =>
    exact received c _ _ fun conn _ _ => setgsinfo_stepped tidy listed env c conn maxgame
  | creategamereply c clientid gameid succeed d2gsGameid =>
    exact received c _ _ fun _ _ _ =>
      creategamereply_stepped tidy listed env c clientid gameid succeed d2gsGameid
  | updategameinfo c charname d2gsGameid flag charclass charlevel =>
    exact received c _ _ fun conn _ _ =>
      updategameinfo_stepped tidy listed env c conn charname d2gsGameid flag charclass charlevel
  | closegame c d2gsGameid =>
    exact received c _ _ fun conn _ _ => closegame_stepped tidy listed env c conn d2gsGameid
  | checkVoidgame => exact voidgame_stepped tidy listed env
  | updateAllClients => exact update_stepped tidy listed
  | reload gsaddrs =>
    obtain ⟨after, ran, enrolled⟩ := reload env tidy listed gsaddrs
    exact ⟨after, ran, stepped_served enrolled.tidy enrolled.listed enrolled.served⟩

def arrivals (world after : World) : Objects Gq :=
  after.gqlist.filter fun entry => entry.1 ∉ addresses world.gqlist

/-- The states of runs whose events are allowed, with all requests that have arrived. -/
inductive Reached (allowed : World → Event → Prop) : World → Objects Gq → Prop
  | boot : Reached allowed boot []
  | step {world after : World} {history : Objects Gq} (before : Reached allowed world history)
      (env : Env) (event : Event) (permitted : allowed world event)
      (ran : step env world event = some after) :
      Reached allowed after (history ++ arrivals world after)

variable {allowed : World → Event → Prop} {world : World} {history : Objects Gq}

theorem boot_tidy : Tidy none boot := by
  refine ⟨⟨nodup_nil, nodup_nil, ?_, ?_, ?_, ?_⟩, ⟨?_, rfl, Pairwise.nil, ?_⟩,
    nodup_nil, nodup_nil⟩ <;> simp [boot]

theorem reached_tidy (reached : Reached allowed world history) :
    Tidy none world ∧ AllListed world.d2gss := by
  induction reached with
  | boot => exact ⟨boot_tidy, by simp [boot, AllListed]⟩
  | step before env event _ ran ih =>
    obtain ⟨after, again, stepped⟩ := step_stepped env ih.1 ih.2 event
    rw [ran, some.injEq] at again
    rw [again]
    exact ⟨stepped.tidy, stepped.listed⟩

theorem reached_step (reached : Reached allowed world history) (env : Env) (event : Event) :
    ∃ after, step env world event = some after ∧ Stepped event world after := by
  obtain ⟨tidy, listed⟩ := reached_tidy reached
  exact step_stepped env tidy listed event

end Runs

section Samples

theorem le_highest (used : List Nat) : ∀ elem ∈ used, elem ≤ used.foldr max 0 := by
  induction used with
  | nil => simp
  | cons first rest ih =>
    intro elem member
    rcases mem_cons.mp member with rfl | later
    · exact le_max_left _ _
    · exact (ih elem later).trans (le_max_right _ _)

def highest : Malloc where
  pick used := used.foldr max 0 + 1
  fresh used member := absurd (le_highest used _ member) (by omega)

/-- One game fills a reply to a list request. -/
def sampleEnv : Env := ⟨0, highest, ⟨0, 0, true, false, 1, false, 99⟩⟩

def samplePacket (gamename : Text) : CreateGameReq := ⟨some gamename, some [], some [], 0, 0, 8⟩

def play (env : Env) : List Event → World × Objects Gq → Option (World × Objects Gq)
  | [], state => some state
  | event :: rest, (world, history) => do
    let after ← step env world event
    play env rest (after, history ++ arrivals world after)

theorem play_reached (env : Env) (events : List Event) {world after : World}
    {history later : Objects Gq} (reached : Reached (fun _ _ => True) world history)
    (played : play env events (world, history) = some (after, later)) :
    Reached (fun _ _ => True) after later := by
  induction events generalizing world history with
  | nil =>
    cases played
    exact reached
  | cons event rest ih =>
    obtain ⟨mid, ran, further⟩ := bind_eq_some_iff.mp played
    exact ih (.step reached env event trivial ran) further

def openedWorld : World where
  games := [(1, ⟨1, [97], [], [], 0, 0, true, 4, 1, 0, 5, 8, 1, [⟨[120], 0, 1⟩], some 1⟩)]
  currElem := none
  totalGame := 1
  gameId := 1
  d2gss := [(1, ⟨7, 1, true, true, .authed, 10, 1, some 1, true⟩)]
  d2gsId := 1
  gqlist := []
  gqlistSeqno := 0
  connections := [(2, ⟨.d2cs, 2, 9, some ⟨0, 1⟩, 0, none⟩), (1, ⟨.d2gs, 1, 7, none, 1, none⟩)]
  sessionnum := 3

theorem opened_reached : Reached (fun _ _ => True) openedWorld [] :=
  play_reached sampleEnv [.reload [7], .accept 7, .initconnD2gs 1 [], .authreply 1 true,
    .setgsinfo 1 10, .accept 9, .initconnD2cs 2, .setCharinfo 2 (some ⟨0, 1⟩),
    .creategamereq 2 (samplePacket [97]), .creategamereply 1 2 1 true 5,
    .updategameinfo 1 (some [120]) 5 .enter 0 1] .boot rfl

end Samples

section Counters
variable {allowed : World → Event → Prop} {world : World} {history : Objects Gq}

/-- The counters of game servers, games and the list of games are right in every run, and none of
them underflows in a further event. -/
theorem counters_kept (reached : Reached allowed world history) :
    (∀ entry ∈ d2gslist world, entry.2.gamenum = hosted world.games entry.1) ∧
    (∀ entry ∈ world.games, ∀ gs, entry.2.d2gs = some gs → gs ∈ addresses (d2gslist world)) ∧
    (∀ entry ∈ world.games, entry.2.currchar = listGetLength entry.2.charlist ∧
      entry.2.charlist.Pairwise fun left right =>
        sameCaseless left.charname right.charname = false) ∧
    world.totalGame = listGetLength world.games ∧
    (world.games.Pairwise fun left right => sameCaseless left.2.name right.2.name = false) ∧
    ∀ env event, ∃ after, step env world event = some after := by
  obtain ⟨tidy, listed⟩ := reached_tidy reached
  have all := all_listed_elems listed
  refine ⟨?_, ?_, ?_, tidy.register.total, tidy.register.names, ?_⟩
  · intro entry member
    exact tidy.hosting.counted entry (all ▸ member)
  · intro entry member gs placed
    rw [all]
    exact tidy.hosting.hosts entry member gs placed
  · intro entry member
    have proper := tidy.register.proper entry member
    exact ⟨proper.counted, proper.distinct⟩
  · intro env event
    obtain ⟨after, ran, _⟩ := reached_step reached env event
    exact ⟨after, ran⟩

theorem opened_counters : (d2gslist openedWorld).length = 1 ∧ openedWorld.games.length = 1 ∧
    (∀ entry ∈ d2gslist openedWorld, entry.2.gamenum = hosted openedWorld.games entry.1) ∧
    openedWorld.totalGame = listGetLength openedWorld.games :=
  ⟨rfl, rfl, (counters_kept opened_reached).1, (counters_kept opened_reached).2.2.2.1⟩

end Counters

section Owners
variable {world : World} {history : Objects Gq}

theorem reached_owned (reached : Reached SessionFree world history) :
    Owned world.gqlist world.connections := by
  induction reached with
  | boot => exact ⟨nodup_nil, by simp [boot], by simp [boot], by simp [boot]⟩
  | step before env event free ran ih =>
    obtain ⟨after, again, stepped⟩ := reached_step before env event
    rw [ran, some.injEq] at again
    rw [again]
    exact stepped.owned free ih

theorem reached_order {allowed : World → Event → Prop} (reached : Reached allowed world history) :
    world.gqlist.Sublist history := by
  induction reached with
  | boot => exact Sublist.refl _
  | @step world after history before env event _ ran ih =>
    obtain ⟨again, same, stepped⟩ := reached_step before env event
    rw [ran, some.injEq] at same
    cases same
    rcases stepped.order with fewer | ⟨entry, fresh, longer⟩
    · exact (fewer.trans ih).trans (sublist_append_left _ _)
    have new : arrivals world after = [entry] := by
      have old : world.gqlist.filter (fun entry => entry.1 ∉ addresses world.gqlist) = [] := by
        rw [filter_eq_nil_iff]
        intro other member
        have inside : other.1 ∈ addresses world.gqlist := mem_map_of_mem member
        simpa using inside
      rw [arrivals, longer, filter_append, old]
      simp [fresh]
    rw [longer, new]
    exact ih.append (Sublist.refl _)

/-- A queued request belongs to one connection, in every run in which no connection gets the
session number of another one that is still open. -/
theorem requests_owned (reached : Reached SessionFree world history) :
    (∀ entry ∈ world.connections, ∀ gq, entry.2.gamequeue = some gq →
      ∃ request, find world.gqlist gq = some request ∧ request.clientid = entry.2.sessionnum) ∧
    (∀ gq ∈ addresses world.gqlist,
      ∃! entry, entry ∈ world.connections ∧ entry.2.gamequeue = some gq) ∧
    (∀ env number, ∃ after, gqlistCheckCreategame env world number = some after) ∧
    (∀ env event, ∃ after, step env world event = some after) ∧
    world.gqlist.Sublist history := by
  have owned := reached_owned reached
  obtain ⟨tidy, _⟩ := reached_tidy reached
  refine ⟨owned.waits, ?_, ?_, ?_, reached_order reached⟩
  · intro gq listed
    obtain ⟨entry, member, waits⟩ := owned.owned gq listed
    exact ⟨entry, ⟨member, waits⟩, fun other ⟨inside, same⟩ =>
      owner_unique owned inside member same waits⟩
  · intro env number
    obtain ⟨after, ran, _⟩ := check_creategame env tidy number
    exact ⟨after, ran⟩
  · intro env event
    obtain ⟨after, ran, _⟩ := reached_step reached env event
    exact ⟨after, ran⟩

/-- A client whose request waits for a game server. -/
def waitingWorld : World :=
  { boot with
    gqlist := [(1, ⟨1, 1, samplePacket [97], [97]⟩)]
    gqlistSeqno := 1
    connections := [(1, ⟨.d2cs, 1, 9, none, 0, some 1⟩)]
    sessionnum := 2 }

theorem waiting_owned : waitingWorld.gqlist.length = 1 ∧
    (∀ gq ∈ addresses waitingWorld.gqlist,
      ∃! entry, entry ∈ waitingWorld.connections ∧ entry.2.gamequeue = some gq) := by
  have accepted : Reached SessionFree (d2csConnCreate sampleEnv boot 9) [] :=
    .step .boot sampleEnv (.accept 9) (by simp [SessionFree, boot]) rfl
  have client := accepted.step sampleEnv (.initconnD2cs 1) trivial rfl
  have queued : Reached SessionFree waitingWorld [(1, ⟨1, 1, samplePacket [97], [97]⟩)] :=
    client.step sampleEnv (.creategamereq 1 (samplePacket [97])) trivial rfl
  exact ⟨rfl, (requests_owned queued).2.1⟩

theorem number_moves (n : Nat) (reached : Reached (fun _ _ => True) world history) :
    ∃ later, Reached (fun _ _ => True)
      { world with sessionnum := world.sessionnum + UInt32.ofNat n } later := by
  induction n with
  | zero => exact ⟨history, by simpa using reached⟩
  | succ n ih =>
    obtain ⟨later, before⟩ := ih
    have opened := before.step sampleEnv (.accept 9) trivial rfl
    have fresh := highest.fresh (addresses world.connections)
    have closes : step sampleEnv (d2csConnCreate sampleEnv
          { world with sessionnum := world.sessionnum + UInt32.ofNat n } 9)
          (.destroyConnection (highest.pick (addresses world.connections))) =
        some { world with sessionnum := world.sessionnum + UInt32.ofNat (n + 1) } := by
      have gone (conn : Connection) : without
          ((highest.pick (addresses world.connections), conn) :: world.connections)
          (highest.pick (addresses world.connections)) = world.connections := by
        rw [without, filter_cons_of_neg (by simp)]
        exact without_unlisted fresh
      simp only [step, d2csConnCreate, sampleEnv, find, find?_cons, decide_true,
        map_some, d2csConnDestroy, stopServer, gone]
      rw [UInt32.ofNat_add, ← UInt32.add_assoc]
      rfl
    exact ⟨_, opened.step sampleEnv _ trivial closes⟩

/-- A game server that allows no games yet, and a client whose request waits. -/
def crowdedWorld : World where
  games := []
  currElem := none
  totalGame := 0
  gameId := 0
  d2gss := [(1, ⟨7, 1, true, true, .authed, 0, 0, some 1, true⟩)]
  d2gsId := 1
  gqlist := [(1, ⟨1, 2, samplePacket [97], [97]⟩)]
  gqlistSeqno := 1
  connections := [(2, ⟨.d2cs, 2, 9, none, 0, some 1⟩), (1, ⟨.d2gs, 1, 7, none, 1, none⟩)]
  sessionnum := 3

/-- The same after another connection with the number of the client. -/
def strandedWorld : World :=
  { crowdedWorld with
    d2gss := [(1, ⟨7, 1, true, true, .authed, 10, 0, some 1, true⟩)]
    gqlist := []
    connections := (3, ⟨.init, 2, 9, none, 0, none⟩) :: crowdedWorld.connections }

/-- After 2^32 connections a client has the session number of another one, and its request is
freed while the other one still points at it. -/
theorem number_used_again : ∃ world history, Reached (fun _ _ => True) world history ∧
    ∃ entry ∈ world.connections, ∃ gq, entry.2.gamequeue = some gq ∧
      find world.gqlist gq = none := by
  have waits : Reached (fun _ _ => True) crowdedWorld
      [(1, ⟨1, 2, samplePacket [97], [97]⟩)] :=
    play_reached sampleEnv [.reload [7], .accept 7, .initconnD2gs 1 [], .authreply 1 true,
      .accept 9, .initconnD2cs 2, .creategamereq 2 (samplePacket [97])] .boot rfl
  obtain ⟨later, wrapped⟩ := number_moves (2 ^ 32 - 1) waits
  have freed : Reached (fun _ _ => True) strandedWorld (later ++ [] ++ []) :=
    play_reached sampleEnv [.accept 9, .setgsinfo 1 10] wrapped rfl
  exact ⟨strandedWorld, _, freed, (2, ⟨.d2cs, 2, 9, none, 0, some 1⟩),
    by simp [strandedWorld, crowdedWorld], 1, rfl, rfl⟩

end Owners

section Cursors
open CyclicCursor RealmCursor
variable {allowed : World → Event → Prop} {world : World} {history : Objects Gq}

/-- Requests for the list of games that follow one another while the list does not change. -/
structure Consecutive (envs : Nat → Env) (conns : Nat → Connection) (worlds : Nat → World)
    (examined : Nat → List Nat) : Prop where
  turns : ∀ turn, ∃ after, onClientGamelistreq (envs turn) (worlds turn) (conns turn) =
      some (after, examined turn) ∧
    addresses (worlds (turn + 1)).games = addresses after.games ∧
    (worlds (turn + 1)).currElem = after.currElem

theorem consecutive_readings {envs : Nat → Env} {conns : Nat → Connection} {worlds : Nat → World}
    {examined : Nat → List Nat} (consecutive : Consecutive envs conns worlds examined)
    (distinct : (addresses (worlds 0).games).Nodup)
    (listed : Listed (addresses (worlds 0).games) (worlds 0).currElem) (turn : Nat) :
    addresses (worlds turn).games = addresses (worlds 0).games ∧
      Reading (addresses (worlds 0).games) (worlds turn).currElem (examined turn)
        (worlds (turn + 1)).currElem ∧
      ((worlds (turn + 1)).currElem ≠ (worlds turn).currElem ↔
        Fills (envs turn) (conns turn) (worlds turn)) := by
  have one (turn : Nat) (same : addresses (worlds turn).games = addresses (worlds 0).games)
      (here : Listed (addresses (worlds 0).games) (worlds turn).currElem) :
      addresses (worlds (turn + 1)).games = addresses (worlds 0).games ∧
        Reading (addresses (worlds 0).games) (worlds turn).currElem (examined turn)
          (worlds (turn + 1)).currElem ∧
        ((worlds (turn + 1)).currElem ≠ (worlds turn).currElem ↔
          Fills (envs turn) (conns turn) (worlds turn)) := by
    obtain ⟨after, ran, games, cursor⟩ := consecutive.turns turn
    obtain ⟨last, read, again, reading, moved⟩ :=
      request_reads (envs turn) (conns turn) (same ▸ distinct) (same ▸ here)
    rw [ran, some.injEq, Prod.mk.injEq] at again
    obtain ⟨rfl, rfl⟩ := again
    rw [cursor, games, ← same]
    exact ⟨rfl, reading, moved⟩
  have all (turn : Nat) : addresses (worlds turn).games = addresses (worlds 0).games ∧
      Listed (addresses (worlds 0).games) (worlds turn).currElem := by
    induction turn with
    | zero => exact ⟨rfl, listed⟩
    | succ turn ih =>
      obtain ⟨same, reading, _⟩ := one turn ih.1 ih.2
      exact ⟨same, reading_listed reading ih.2⟩
  obtain ⟨_, reading, moved⟩ := one turn (all turn).1 (all turn).2
  exact ⟨(all turn).1, reading, moved⟩

/-- The cursor of the game list is a listed game or NULL, a request ends and reads no game twice,
and requests that follow one another read every game if and only if the cursor was NULL or one of
them fills its reply. -/
theorem cursor_goes_round (reached : Reached allowed world history) :
    (∀ elem, world.currElem = some elem → elem ∈ addresses world.games) ∧
    (∀ env conn, ∃ after examined,
      onClientGamelistreq env world conn = some (after, examined) ∧ examined.Nodup ∧
        ∀ elem ∈ examined, elem ∈ addresses world.games) ∧
    ∀ envs conns worlds examined, worlds 0 = world → Consecutive envs conns worlds examined →
      ((∀ elem ∈ addresses world.games, ∃ turn, elem ∈ examined turn) ↔
        world.currElem = none ∨ ∃ turn, Fills (envs turn) (conns turn) (worlds turn)) := by
  obtain ⟨tidy, _⟩ := reached_tidy reached
  have distinct := tidy.hosting.gamesDistinct
  have listed := tidy.register.cursor
  refine ⟨listed, ?_, ?_⟩
  · intro env conn
    obtain ⟨last, examined, ran, reading, _⟩ := request_reads env conn distinct listed
    have part := reading_part reading
    refine ⟨_, examined, ran, (route_distinct listed distinct).1.sublist part.sublist, ?_⟩
    intro elem member
    apply (cycle_perm listed).subset
    exact mem_append_left _ (part.subset member)
  · rintro envs conns worlds examined rfl consecutive
    have turns := consecutive_readings consecutive distinct listed
    have every := all_read distinct (fun turn => (turns turn).2.1) listed
    simp only [(turns _).2.2] at every
    exact every

theorem opened_goes_round : ∃ turn : Nat, 1 ∈ (if turn = 0 then [1] else []) := by
  have consecutive : Consecutive (fun _ => sampleEnv) (fun _ => ⟨.d2cs, 2, 9, some ⟨0, 1⟩, 0, none⟩)
      (fun turn => if turn = 0 then openedWorld else { openedWorld with currElem := some 1 })
      (fun turn => if turn = 0 then [1] else []) := by
    constructor
    intro turn
    cases turn with
    | zero => exact ⟨{ openedWorld with currElem := some 1 }, rfl, rfl, rfl⟩
    | succ turn => exact ⟨{ openedWorld with currElem := some 1 }, rfl, rfl, rfl⟩
  exact ((cursor_goes_round opened_reached).2.2 _ _ _ _ (by rfl) consecutive).mpr (Or.inl rfl) 1
    (by decide)

/-- A second game without characters, in front of the game that the cursor is at. -/
def shadowedWorld : World :=
  { openedWorld with
    games := (2, ⟨2, [98], [], [], 0, 0, false, 4, 1, 0, 0, 8, 0, [], some 1⟩) :: openedWorld.games
    currElem := some 1
    totalGame := 2
    gameId := 2
    d2gss := [(1, ⟨7, 1, true, true, .authed, 10, 2, some 1, true⟩)] }

/-- There are more games than fit into a reply, and no request ever reads the one of the cursor. -/
theorem cursor_game_unread : ∃ world history conn examined,
    Reached (fun _ _ => True) world history ∧
    sampleEnv.prefs.maxgamelist.toNat < world.games.length ∧
    Consecutive (fun _ => sampleEnv) (fun _ => conn) (fun _ => world) examined ∧
    ∃ elem ∈ addresses world.games, ∀ turn, elem ∉ examined turn := by
  have shadowed : Reached (fun _ _ => True) shadowedWorld [] :=
    play_reached sampleEnv [.gamelistreq 2, .creategamereq 2 (samplePacket [98])] opened_reached rfl
  refine ⟨shadowedWorld, [], ⟨.d2cs, 2, 9, some ⟨0, 1⟩, 0, none⟩, fun _ => [2], shadowed, by decide,
    ⟨fun _ => ⟨shadowedWorld, rfl, rfl, rfl⟩⟩, 1, by decide, by simp⟩

end Cursors

end Pvpgn.RealmRuns
