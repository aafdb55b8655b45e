import Pvpgn.RealmServer

/-!
What every run of the realm server keeps: the counters of the game servers, the lists of characters
and the list of games. A queued request is tried again inside the removal of a game, so the same
lemmas say what happens to the queue.
-/

namespace Pvpgn.RealmGames
open Stdio ObjectList RealmServer List Option Function
open LinkedList (Cursor cursorBehind)

section Invariants

def hosted (games : Objects Game) (gs : Nat) : Nat :=
  games.countP fun entry => entry.2.d2gs = some gs

def Running (server : D2gs) : Prop := server.active = true ∧ server.connection ≠ none

structure Proper (game : Game) : Prop where
  counted : game.currchar = listGetLength game.charlist
  distinct : game.charlist.Pairwise fun left right =>
    sameCaseless left.charname right.charname = false

/-- The servers of the games, with one server that may be in `d2gs_deactive`. -/
structure Hosting (stopping : Option Nat) (games : Objects Game) (servers : Objects D2gs) :
    Prop where
  gamesDistinct : (addresses games).Nodup
  serversDistinct : (addresses servers).Nodup
  hosts : ∀ entry ∈ games, ∀ gs, entry.2.d2gs = some gs → gs ∈ addresses servers
  counted : ∀ entry ∈ servers, entry.2.gamenum = hosted games entry.1
  idle : ∀ entry ∈ servers, stopping ≠ some entry.1 → ¬Running entry.2 → entry.2.gamenum = 0
  bounded : ∀ entry ∈ servers, entry.2.gamenum < 2 ^ 32

structure Register (games : Objects Game) (totalGame : UInt32) (currElem : Option Nat) :
    Prop where
  proper : ∀ entry ∈ games, Proper entry.2
  total : totalGame = listGetLength games
  names : games.Pairwise fun left right => sameCaseless left.2.name right.2.name = false
  cursor : ∀ elem, currElem = some elem → elem ∈ addresses games

structure Tidy (stopping : Option Nat) (world : World) : Prop where
  hosting : Hosting stopping world.games world.d2gss
  register : Register world.games world.totalGame world.currElem
  requests : (addresses world.gqlist).Nodup
  connections : (addresses world.connections).Nodup

/-- Every request waits for one connection, and no two connections have one session number. -/
structure Owned (gqlist : Objects Gq) (connections : Objects Connection) : Prop where
  sessions : (connections.map fun entry => entry.2.sessionnum).Nodup
  waits : ∀ entry ∈ connections, ∀ gq, entry.2.gamequeue = some gq →
    ∃ request, find gqlist gq = some request ∧ request.clientid = entry.2.sessionnum
  owned : ∀ gq ∈ addresses gqlist, ∃ entry ∈ connections, entry.2.gamequeue = some gq
  clients : ∀ entry ∈ connections, entry.2.gamequeue ≠ none → entry.2.cclass = .d2cs

end Invariants

variable {games : Objects Game}

variable {gs : Nat}

section Counting

theorem length_insert {Object : Type} (front back : List Object) (object : Object) :
    listGetLength (front ++ object :: back) = listGetLength (front ++ back) + 1 := by
  rw [listGetLength, listGetLength, length_append, length_cons, ← add_assoc,
    ← length_append, UInt32.ofNat_add]
  rfl

@[simp] theorem hosted_cons (entry : Nat × Game) (games : Objects Game) (gs : Nat) :
    hosted (entry :: games) gs = hosted games gs + if entry.2.d2gs = some gs then 1 else 0 := by
  simp [hosted, countP_cons]

@[simp] theorem hosted_append (front back : Objects Game) (gs : Nat) :
    hosted (front ++ back) gs = hosted front gs + hosted back gs := countP_append

theorem hosted_change (games : Objects Game) (address gs : Nat) (edit : Game → Game)
    (same : ∀ game, (edit game).d2gs = game.d2gs) :
    hosted (change games address edit) gs = hosted games gs := by
  rw [hosted, change, countP_map, hosted]
  congr 1
  funext entry
  rw [comp_apply]
  split
  · simp only [same]
  · rfl

theorem hosted_zero :
    hosted games gs = 0 ↔ ∀ entry ∈ games, entry.2.d2gs ≠ some gs := by
  rw [hosted, countP_eq_zero]
  simp

end Counting

variable {server : D2gs}

section Servers

variable {games : Objects Game} {servers : Objects D2gs} {stopping : Option Nat} {address : Nat}
  {game : Game}

theorem hosting_edit {after : Option Nat} {later : Objects Game}
    (hosting : Hosting stopping games servers) (gs : Nat) (edit : D2gs → D2gs)
    (distinct : (addresses later).Nodup)
    (hosts : ∀ entry ∈ later, ∀ gs, entry.2.d2gs = some gs → gs ∈ addresses servers)
    (others : ∀ other, other ≠ gs → hosted later other = hosted games other)
    (here : ∀ server, find servers gs = some server → (edit server).gamenum = hosted later gs ∧
      (after ≠ some gs → ¬Running (edit server) → (edit server).gamenum = 0) ∧
      (edit server).gamenum < 2 ^ 32)
    (still : ∀ other, other ≠ gs → after ≠ some other → stopping ≠ some other) :
    Hosting after later (change servers gs edit) := by
  have cases (entry : Nat × D2gs) (member : entry ∈ change servers gs edit) :=
    mem_change hosting.serversDistinct member
  constructor
  · exact distinct
  · rw [addresses_change]
    exact hosting.serversDistinct
  · intro entry member host placed
    rw [addresses_change]
    exact hosts entry member host placed
  · intro entry member
    rcases cases entry member with ⟨server, found, rfl⟩ | ⟨other, inside⟩
    · exact (here server found).1
    · rw [hosting.counted entry inside, others entry.1 other]
  · intro entry member moving stopped
    rcases cases entry member with ⟨server, found, rfl⟩ | ⟨other, inside⟩
    · exact (here server found).2.1 moving stopped
    · exact hosting.idle entry inside (still entry.1 other moving) stopped
  · intro entry member
    rcases cases entry member with ⟨server, found, rfl⟩ | ⟨_, inside⟩
    · exact (here server found).2.2
    · exact hosting.bounded entry inside

section
variable (hosting : Hosting stopping games servers)
include hosting

theorem hosting_create (found : find servers gs = some server) (running : Running server)
    (room : server.gamenum + 1 < 2 ^ 32) (fresh : address ∉ addresses games)
    (placed : game.d2gs = some gs) :
    Hosting stopping ((address, game) :: games)
      (change servers gs fun server => { server with gamenum := server.gamenum + 1 }) := by
  have listed : gs ∈ addresses servers := mem_map_of_mem (find_mem found)
  apply hosting_edit hosting
  · exact nodup_cons.mpr ⟨fresh, hosting.gamesDistinct⟩
  · intro entry member host placedThere
    rcases mem_cons.mp member with rfl | old
    · rw [placed] at placedThere
      exact some.inj placedThere ▸ listed
    · exact hosting.hosts entry old host placedThere
  · intro other apart
    simp [placed, Ne.symm apart]
  · intro again same
    rw [found] at same
    cases same
    have count : server.gamenum = hosted games gs := hosting.counted _ (find_mem found)
    refine ⟨by simp [placed, count], fun _ stopped => absurd running stopped, room⟩
  · exact fun _ _ moving => moving

theorem hosting_remove (listed : find games address = some game) (placed : game.d2gs = some gs) :
    ∃ server, find servers gs = some server ∧ 1 ≤ server.gamenum ∧ server.gamenum < 2 ^ 32 ∧
      Hosting stopping (without games address)
        (change servers gs fun server => { server with gamenum := server.gamenum - 1 }) := by
  obtain ⟨front, back, rfl, _⟩ := find_split listed
  obtain ⟨server, found⟩ := find_listed
    (hosting.hosts (address, game) (by simp) gs placed)
  have count := hosting.counted _ (find_mem found)
  have bound := hosting.bounded _ (find_mem found)
  simp only [hosted_append, hosted_cons, placed, if_true] at count bound
  refine ⟨server, found, by omega, bound, ?_⟩
  rw [without_split hosting.gamesDistinct]
  apply hosting_edit hosting
  · rw [← without_split hosting.gamesDistinct]
    exact without_distinct address hosting.gamesDistinct
  · intro entry member
    apply hosting.hosts entry
    rcases mem_append.mp member with before | behind
    · exact mem_append_left _ before
    · exact mem_append_right _ (mem_cons_of_mem _ behind)
  · intro other apart
    simp [placed, Ne.symm apart]
  · intro again same
    rw [found] at same
    cases same
    have idle (moving : stopping ≠ some gs) (stopped : ¬Running server) : server.gamenum = 0 :=
      hosting.idle _ (find_mem found) moving stopped
    simp only [hosted_append]
    refine ⟨by omega, fun moving stopped => ?_, by omega⟩
    have zero := idle moving stopped
    omega
  · exact fun _ _ moving => moving

theorem hosting_orphan (listed : find games address = some game) (nowhere : game.d2gs = none) :
    Hosting stopping (without games address) servers := by
  obtain ⟨front, back, rfl, _⟩ := find_split listed
  rw [without_split hosting.gamesDistinct]
  constructor
  · rw [← without_split hosting.gamesDistinct]
    exact without_distinct address hosting.gamesDistinct
  · exact hosting.serversDistinct
  · intro entry member
    apply hosting.hosts entry
    rcases mem_append.mp member with before | behind
    · exact mem_append_left _ before
    · exact mem_append_right _ (mem_cons_of_mem _ behind)
  · intro entry member
    rw [hosting.counted entry member]
    simp [nowhere]
  · exact hosting.idle
  · exact hosting.bounded

theorem hosting_games (address : Nat) (edit : Game → Game)
    (same : ∀ game, (edit game).d2gs = game.d2gs) :
    Hosting stopping (change games address edit) servers := by
  constructor
  · rw [addresses_change]
    exact hosting.gamesDistinct
  · exact hosting.serversDistinct
  · intro entry member gs placed
    obtain ⟨old, inside, changed⟩ := mem_map.mp member
    apply hosting.hosts old inside gs
    rw [← placed, ← changed]
    split
    · exact (same old.2).symm
    · rfl
  · intro entry member
    rw [hosted_change _ _ _ _ same]
    exact hosting.counted entry member
  · exact hosting.idle
  · exact hosting.bounded

end

end Servers

variable {world : World}

variable {address : Nat}

section Registers

variable {game : Game}

theorem register_create {totalGame : UInt32} {currElem : Option Nat}
    (register : Register games totalGame currElem) (address : Nat) (proper : Proper game)
    (unused : games.find? (fun entry => sameCaseless entry.2.name game.name) = none) :
    Register ((address, game) :: games) (totalGame + 1) currElem := by
  constructor
  · intro entry member
    rcases mem_cons.mp member with rfl | old
    · exact proper
    · exact register.proper entry old
  · rw [register.total]
    exact (length_insert [] games (address, game)).symm
  · refine pairwise_cons.mpr ⟨?_, register.names⟩
    intro entry member
    have differs := find?_eq_none.mp unused entry member
    simp only [sameCaseless, Bool.not_eq_true, decide_eq_false_iff_not] at differs ⊢
    exact fun same => differs same.symm
  · intro elem pointed
    exact mem_cons_of_mem _ (register.cursor elem pointed)

theorem register_remove (distinct : (addresses world.games).Nodup)
    (register : Register world.games world.totalGame world.currElem)
    (listed : find world.games address = some game) :
    ∃ currElem, currElemWithout world address = some currElem ∧
      Register (without world.games address) (world.totalGame - 1) currElem := by
  have kept : ∀ currElem, (∀ elem, currElem = some elem →
      elem ∈ addresses (without world.games address)) →
      Register (without world.games address) (world.totalGame - 1) currElem := by
    intro currElem cursor
    have sub := without_sublist world.games address
    refine ⟨fun entry member => register.proper entry (sub.subset member), ?_,
      register.names.sublist sub, cursor⟩
    obtain ⟨front, back, split, _⟩ := find_split listed
    rw [register.total, split, without_split (split ▸ distinct), length_insert]
    simp
  cases current : world.currElem with
  | none =>
    exact ⟨none, by rw [currElemWithout, current], kept none (by simp)⟩
  | some elem =>
    have inside := register.cursor elem current
    by_cases here : elem = address
    · obtain ⟨front, back, split, _⟩ := find_split listed
      have elems : addresses world.games = addresses front ++ address :: addresses back := by
        rw [split, addresses_append, addresses_cons]
      have following : next (addresses world.games) (.elem address) =
          some (addresses back).head? := by
        rw [elems]
        exact next_elem (elems ▸ distinct)
      refine ⟨(addresses back).head?, ?_, kept _ ?_⟩
      · simp only [currElemWithout, current]
        rw [if_neg (not_not_intro inside), if_pos here, here, following]
      · intro other first
        rw [split, without_split (split ▸ distinct), addresses_append]
        exact mem_append_right _ (mem_of_head? first)
    · refine ⟨some elem, ?_, kept _ ?_⟩
      · simp only [currElemWithout, current]
        rw [if_neg (not_not_intro inside), if_neg here]
      intro other same
      rw [addresses_without]
      cases same
      exact mem_filter.mpr ⟨inside, by simpa using here⟩

theorem register_change {totalGame : UInt32} {currElem : Option Nat}
    (register : Register games totalGame currElem) (address : Nat) (edit : Game → Game)
    (proper : ∀ game, Proper game → Proper (edit game))
    (same : ∀ game, (edit game).name = game.name) :
    Register (change games address edit) totalGame currElem := by
  constructor
  · intro entry member
    obtain ⟨old, inside, rfl⟩ := mem_map.mp member
    split
    · exact proper _ (register.proper old inside)
    · exact register.proper old inside
  · rw [register.total, listGetLength, listGetLength, change, length_map]
  · rw [change, pairwise_map]
    apply register.names.imp
    intro left right apart
    have leftName : (if left.1 = address then (left.1, edit left.2) else left).2.name =
        left.2.name := by
      split <;> simp [same]
    have rightName : (if right.1 = address then (right.1, edit right.2) else right).2.name =
        right.2.name := by
      split <;> simp [same]
    rw [leftName, rightName]
    exact apart
  · intro elem pointed
    rw [addresses_change]
    exact register.cursor elem pointed

theorem proper_add (env : Env) (proper : Proper game) (charname : Text) (chclass level : UInt8) :
    Proper (gameAddCharacter env game charname chclass level) := by
  rw [gameAddCharacter]
  split
  · have names : (game.charlist.replaceF fun info =>
        if sameCaseless info.charname charname then some { info with chclass, level } else none).map
          GameCharinfo.charname = game.charlist.map GameCharinfo.charname := by
      induction game.charlist with
      | nil => rfl
      | cons info rest ih =>
        by_cases hit : sameCaseless info.charname charname = true
        · simp [hit]
        · simp [hit, ih]
    constructor
    · rw [proper.counted, listGetLength, listGetLength, length_replaceF]
    have distinct : (game.charlist.map GameCharinfo.charname).Pairwise
        fun left right => sameCaseless left right = false :=
      pairwise_map.mpr proper.distinct
    rw [← names] at distinct
    exact pairwise_map.mp distinct
  · next missed =>
      rw [gameFindCharacter, not_isSome_iff_eq_none, find?_eq_none] at missed
      constructor
      · rw [proper.counted, length_insert, append_nil]
      refine pairwise_append.mpr ⟨proper.distinct, by simp, ?_⟩
      intro info member new only
      rw [mem_singleton.mp only]
      simpa using missed info member

theorem proper_del (env : Env) (proper : Proper game) (charname : Text) :
    Proper (gameDelCharacter env game charname) := by
  rw [gameDelCharacter]
  split
  · next hit =>
      obtain ⟨info, found⟩ := isSome_iff_exists.mp hit
      obtain ⟨gone, front, back, _, _, split, erased⟩ := exists_of_eraseP
        (mem_of_find?_eq_some found) (find?_some found)
      constructor
      · simp only [erased]
        rw [proper.counted, split, length_insert]
        simp
      · exact proper.distinct.sublist eraseP_sublist
  · exact proper

end Registers

variable {servers : Objects D2gs}

variable {stopping : Option Nat}

section Requests

theorem choose_server {ogs : Option Nat} {minPercent : UInt32}
    (chosen : chooseServer ogs minPercent servers = some gs) :
    ogs = some gs ∨ ∃ server, (gs, server) ∈ servers ∧ Running server ∧
      server.gamenum < server.maxgame.toNat := by
  induction servers generalizing ogs minPercent with
  | nil => exact .inl chosen
  | cons entry rest ih =>
    have later (again : ogs = some gs ∨ ∃ server, (gs, server) ∈ rest ∧ Running server ∧
        server.gamenum < server.maxgame.toNat) :
        ogs = some gs ∨ ∃ server, (gs, server) ∈ entry :: rest ∧ Running server ∧
          server.gamenum < server.maxgame.toNat := by
      rcases again with old | ⟨server, member, fits⟩
      · exact .inl old
      · exact .inr ⟨server, mem_cons_of_mem _ member, fits⟩
    rw [chooseServer] at chosen
    split at chosen
    · exact later (ih chosen)
    next usable =>
      simp only [Bool.not_eq_true', not_or, Bool.not_eq_false] at usable
      obtain ⟨active, connected, _, _, room⟩ := usable
      dsimp only at chosen
      split at chosen
      · rcases ih chosen with here | ⟨server, member, fits⟩
        · cases here
          exact .inr ⟨entry.2, mem_cons_self, ⟨active, connected⟩, by omega⟩
        · exact .inr ⟨server, mem_cons_of_mem _ member, fits⟩
      · exact later (ih chosen)

structure Created (env : Env) (world after : World) : Prop where
  made : ∃ gs server game, find world.d2gss gs = some server ∧ Running server ∧
    server.gamenum + 1 < 2 ^ 32 ∧ game.d2gs = some gs ∧ Proper game ∧
    world.games.find? (fun entry => sameCaseless entry.2.name game.name) = none ∧
    after = { world with
      games := (env.malloc.pick (addresses world.games), game) :: world.games
      totalGame := world.totalGame + 1
      gameId := after.gameId
      d2gss := change world.d2gss gs fun server =>
        { server with gamenum := server.gamenum + 1 } }

inductive Requested (env : Env) (world : World) (c : Nat) (conn : Connection)
    (packet : CreateGameReq) : World → Prop
  | nothing : Requested env world c conn packet world
  | dropped (gq : Nat) (waiting : conn.gamequeue = some gq) :
      Requested env world c conn packet (gqDestroy (connSetGamequeue world c none) gq).1
  | queued (gamename : Text) (idle : conn.gamequeue = none) :
      Requested env world c conn packet
        (connSetGamequeue (gqCreate env world conn.sessionnum packet gamename).1 c
          (some (gqCreate env world conn.sessionnum packet gamename).2))
  | created (after : World) (new : Created env world after) :
      Requested env world c conn packet after

theorem add_gamenum (world : World) {number : Int} (distinct : (addresses world.d2gss).Nodup)
    (found : find world.d2gss gs = some server) (low : 0 ≤ server.gamenum + number)
    (high : server.gamenum + number < 2 ^ 32) (count : D2gs → Nat)
    (same : (count server : Int) = server.gamenum + number) :
    d2gsAddGamenum world gs number = some { world with
      d2gss := change world.d2gss gs fun server => { server with gamenum := count server } } := by
  rw [d2gsAddGamenum, found, bind_eq_bind, bind_some, if_pos ⟨low, high⟩]
  have agree : change world.d2gss gs
        (fun other => { other with gamenum := (server.gamenum + number).toNat }) =
      change world.d2gss gs fun server => { server with gamenum := count server } := by
    obtain ⟨front, back, split, _⟩ := find_split found
    rw [split] at distinct ⊢
    rw [change_split _ distinct, change_split _ distinct, ← same, Int.toNat_natCast]
  rw [agree]

theorem game_create (env : Env) {gamename : Text}
    (unused : d2csGamelistFindGame world gamename = none) (gamepass gamedesc : Text)
    (gameflag : UInt32) :
    ∃ game id, d2csGameCreate env world gamename gamepass gamedesc gameflag =
        ({ world with
            games := (env.malloc.pick (addresses world.games), game) :: world.games
            gameId := id, totalGame := world.totalGame + 1 },
          some (env.malloc.pick (addresses world.games))) ∧
      game.name = gamename ∧ Proper game := by
  rw [d2csGameCreate, if_neg (by simp [unused])]
  exact ⟨_, _, rfl, rfl, rfl, Pairwise.nil⟩

theorem request_effect (env : Env) (tidy : Tidy stopping world) (c : Nat) (conn : Connection)
    (packet : CreateGameReq) :
    ∃ after, onClientCreategamereq env world c conn packet = some after ∧
      Requested env world c conn packet after := by
  rw [onClientCreategamereq]
  split
  · next gamename gamepass gamedesc _ _ _ =>
      by_cases hard : gameflagGetDifficulty packet.gameflag >
          conn.charinfoGet D2charinfo.difficulty
      · exact ⟨world, if_pos hard, .nothing⟩
      simp only [if_neg hard]
      rw [createOrQueue]
      cases taken : d2csGamelistFindGame world gamename with
      | some found => exact ⟨world, rfl, .nothing⟩
      | none =>
        by_cases wanted : conn.gamequeue = none ∧ gqlistFindGame world gamename = true
        · exact ⟨world, if_pos wanted, .nothing⟩
        rw [if_neg wanted]
        cases chosen : d2gslistChooseServer world with
        | none =>
          cases waiting : conn.gamequeue with
          | some gq => exact ⟨_, rfl, .dropped gq waiting⟩
          | none => exact ⟨_, rfl, .queued gamename waiting⟩
        | some gs =>
          simp only
          by_cases dead : conn.charinfoGet D2charinfo.hardcore ≠ 0 ∧
              conn.charinfoGet D2charinfo.dead ≠ 0
          · exact ⟨world, if_pos dead, .nothing⟩
          rw [if_neg dead]
          obtain absurd_ | ⟨server, member, running, room⟩ := choose_server chosen
          · cases absurd_
          have found : find world.d2gss gs = some server :=
            mem_find tidy.hosting.serversDistinct (mem_filter.mp member).1
          have small := server.maxgame.toNat_lt
          obtain ⟨game, id, made, name, proper⟩ := game_create env taken _ _ _
          rw [made]
          have fresh := env.malloc.fresh (addresses world.games)
          have prepared (edit : Game → Game) :
              change ((env.malloc.pick (addresses world.games), game) :: world.games)
                (env.malloc.pick (addresses world.games)) edit =
              (env.malloc.pick (addresses world.games), edit game) :: world.games := by
            rw [← nil_append (_ :: world.games)]
            exact change_split edit (nodup_cons.mpr ⟨fresh, tidy.hosting.gamesDistinct⟩)
          simp only [prepared]
          have counted (mid : World) (same : mid.d2gss = world.d2gss) :
              d2gsAddGamenum mid gs 1 = some { mid with
                d2gss := change mid.d2gss gs fun server =>
                  { server with gamenum := server.gamenum + 1 } } :=
            add_gamenum mid (same ▸ tidy.hosting.serversDistinct) (same ▸ found) (by omega)
              (by omega) (fun server => server.gamenum + 1) (by push_cast; rfl)
          have kept : Proper (game.prepare gs conn packet
              (gameflagGetDifficulty packet.gameflag)) := ⟨proper.counted, proper.distinct⟩
          refine ⟨_, counted _ rfl, .created _
            ⟨gs, server, _, found, running, by omega, rfl, kept, ?_, rfl⟩⟩
          rw [← name] at taken
          exact taken
  · exact ⟨world, rfl, .nothing⟩

end Requests

section Owners

variable {gqlist : Objects Gq} {connections : Objects Connection}

variable {c : Nat} {conn : Connection} {gq : Nat}

theorem owner_unique (owned : Owned gqlist connections) {left right : Nat × Connection}
    (leftMember : left ∈ connections) (rightMember : right ∈ connections)
    (leftOwner : left.2.gamequeue = some gq) (rightOwner : right.2.gamequeue = some gq) :
    left = right := by
  obtain ⟨request, found, same⟩ := owned.waits left leftMember gq leftOwner
  obtain ⟨again, foundAgain, sameAgain⟩ := owned.waits right rightMember gq rightOwner
  rw [found] at foundAgain
  cases foundAgain
  exact inj_on_of_nodup_map owned.sessions leftMember rightMember (same.symm.trans sameAgain)

def peers (connections : Objects Connection) : Objects Connection :=
  connections.map fun entry => (entry.1, { entry.2 with gamequeue := none })

@[simp] theorem peers_change (connections : Objects Connection) (c : Nat) (gq : Option Nat) :
    peers (change connections c fun conn => { conn with gamequeue := gq }) = peers connections := by
  rw [peers, change, List.map_map]
  apply map_congr_left
  intro entry _
  rw [comp_apply]
  split <;> rfl

theorem peers_sessions {before after : Objects Connection} (same : peers after = peers before) :
    after.map (fun entry => entry.2.sessionnum) = before.map fun entry => entry.2.sessionnum := by
  have numbers (connections : Objects Connection) :
      connections.map (fun entry => entry.2.sessionnum) =
        (peers connections).map fun entry => entry.2.sessionnum := by
    rw [peers, List.map_map]
    rfl
  rw [numbers after, same, ← numbers]

section
variable (owned : Owned gqlist connections) (distinct : (addresses connections).Nodup)
  (found : find connections c = some conn)
include owned distinct found

theorem owned_release (waiting : conn.gamequeue = some gq) :
    Owned (without gqlist gq)
      (change connections c fun conn => { conn with gamequeue := none }) := by
  have other {entry : Nat × Connection} (member : entry ∈ connections) (apart : entry.1 ≠ c) :
      entry.2.gamequeue ≠ some gq := by
    intro same
    exact apart (congrArg Prod.fst (owner_unique owned member (find_mem found) same waiting))
  constructor
  · rw [peers_sessions (peers_change connections c _)]
    exact owned.sessions
  · intro entry member target waits
    rcases mem_change distinct member with ⟨_, _, rfl⟩ | ⟨apart, inside⟩
    · cases waits
    have differs : target ≠ gq := by
      rintro rfl
      exact other inside apart waits
    rw [find_without, if_neg differs]
    exact owned.waits entry inside target waits
  · intro target listed
    rw [addresses_without] at listed
    obtain ⟨listed, differs⟩ := mem_filter.mp listed
    obtain ⟨entry, member, waits⟩ := owned.owned target listed
    refine ⟨entry, mem_change_other member fun here => ?_, waits⟩
    have same : entry = (c, conn) := by
      have again := mem_find distinct member
      rw [here, found, some.injEq] at again
      exact Prod.ext here again.symm
    rw [same, waiting, some.injEq] at waits
    simp [waits] at differs
  · intro entry member busy
    rcases mem_change distinct member with ⟨_, _, rfl⟩ | ⟨_, inside⟩
    · exact absurd rfl busy
    · exact owned.clients entry inside busy

theorem owned_queue (idle : conn.gamequeue = none) (client : conn.cclass = .d2cs)
    (fresh : gq ∉ addresses gqlist) {request : Gq} (same : request.clientid = conn.sessionnum) :
    Owned (gqlist ++ [(gq, request)])
      (change connections c fun conn => { conn with gamequeue := some gq }) := by
  constructor
  · rw [peers_sessions (peers_change connections c _)]
    exact owned.sessions
  · intro entry member target waits
    rw [find_append]
    rcases mem_change distinct member with ⟨again, foundAgain, rfl⟩ | ⟨_, inside⟩
    · rw [found] at foundAgain
      cases foundAgain
      cases waits
      rw [find_none.mpr fresh]
      exact ⟨request, by simp [find], same⟩
    · obtain ⟨old, listed, equal⟩ := owned.waits entry inside target waits
      exact ⟨old, by simp [listed], equal⟩
  · intro target listed
    rw [addresses_append, mem_append] at listed
    rcases listed with old | new
    · obtain ⟨entry, member, waits⟩ := owned.owned target old
      refine ⟨entry, mem_change_other member fun here => ?_, waits⟩
      have again := mem_find distinct member
      rw [here, found, some.injEq] at again
      rw [← again, idle] at waits
      cases waits
    · refine ⟨(c, { conn with gamequeue := some gq }), ?_, ?_⟩
      · exact mem_map.mpr ⟨(c, conn), find_mem found, if_pos rfl⟩
      · rw [mem_singleton.mp new]
  · intro entry member busy
    rcases mem_change distinct member with ⟨again, foundAgain, rfl⟩ | ⟨_, inside⟩
    · rw [found] at foundAgain
      cases foundAgain
      exact client
    · exact owned.clients entry inside busy

theorem owned_close :
    Owned (match conn.gamequeue with | some gq => without gqlist gq | none => gqlist)
      (without connections c) := by
  have sub := without_sublist connections c
  have here {entry : Nat × Connection} (member : entry ∈ connections) (same : entry.1 = c) :
      entry = (c, conn) := by
    have again := mem_find distinct member
    rw [same, found, some.injEq] at again
    exact Prod.ext same again.symm
  have there {entry : Nat × Connection} (member : entry ∈ without connections c) :
      entry ∈ connections ∧ entry.1 ≠ c := by
    obtain ⟨inside, apart⟩ := mem_filter.mp member
    exact ⟨inside, by simpa using apart⟩
  have back {entry : Nat × Connection} (member : entry ∈ connections) (apart : entry.1 ≠ c) :
      entry ∈ without connections c := mem_filter.mpr ⟨member, by simpa using apart⟩
  cases waiting : conn.gamequeue with
  | none =>
    refine ⟨owned.sessions.sublist (sub.map _), ?_, ?_,
      fun entry member => owned.clients entry (there member).1⟩
    · intro entry member
      exact owned.waits entry (there member).1
    intro target listed
    obtain ⟨entry, member, waits⟩ := owned.owned target listed
    refine ⟨entry, back member fun same => ?_, waits⟩
    rw [here member same, waiting] at waits
    cases waits
  | some gq =>
    refine ⟨owned.sessions.sublist (sub.map _), ?_, ?_,
      fun entry member => owned.clients entry (there member).1⟩
    · intro entry member target waits
      obtain ⟨inside, apart⟩ := there member
      have differs : target ≠ gq := by
        rintro rfl
        exact apart (congrArg Prod.fst
          (owner_unique owned inside (find_mem found) waits waiting))
      rw [find_without, if_neg differs]
      exact owned.waits entry inside target waits
    · intro target listed
      rw [addresses_without] at listed
      obtain ⟨listed, differs⟩ := mem_filter.mp listed
      obtain ⟨entry, member, waits⟩ := owned.owned target listed
      refine ⟨entry, back member fun same => ?_, waits⟩
      rw [here member same, waiting, some.injEq] at waits
      simp [waits] at differs

end

end Owners

variable {before : World}

section Retries

def frame (servers : Objects D2gs) : Objects D2gs :=
  servers.map fun entry => (entry.1, { entry.2 with gamenum := 0 })

/-- What the retry of queued requests does: new games come before `games`, each from a request that
leaves the queue, and each on a server that runs. -/
structure Grown (games : Objects Game) (before after : World) : Prop where
  games : ∃ fresh, after.games = fresh ++ games ∧
    fresh.length + after.gqlist.length ≤ before.gqlist.length ∧
    ∀ entry ∈ fresh, ∃ gs server, entry.2.d2gs = some gs ∧
      find before.d2gss gs = some server ∧ Running server
  frame : frame after.d2gss = frame before.d2gss

structure Served (before after : World) : Prop where
  owned : Owned before.gqlist before.connections → Owned after.gqlist after.connections
  order : after.gqlist.Sublist before.gqlist
  peers : peers after.connections = peers before.connections

@[simp] theorem frame_change (servers : Objects D2gs) (gs : Nat) (count : D2gs → Nat) :
    frame (change servers gs fun server => { server with gamenum := count server }) =
      frame servers := by
  rw [frame, change, List.map_map]
  apply map_congr_left
  intro entry _
  rw [comp_apply]
  split <;> rfl

theorem frame_find (servers : Objects D2gs) (gs : Nat) :
    find (frame servers) gs = (find servers gs).map fun server => { server with gamenum := 0 } := by
  rw [find, frame, find?_map, find, Option.map_map, Option.map_map]
  rfl

section
variable {before after : Objects D2gs} (same : frame after = frame before) {gs : Nat}
  {server : D2gs} (found : find after gs = some server)
include same found

theorem frame_server :
    ∃ old, find before gs = some old ∧
      { old with gamenum := 0 } = ({ server with gamenum := 0 } : D2gs) := by
  have equal := congrArg (find · gs) same
  simp only [frame_find, found] at equal
  obtain ⟨old, present, matches_⟩ := map_eq_some_iff.mp equal.symm
  exact ⟨old, present, matches_⟩

theorem frame_running (running : Running server) :
    ∃ old, find before gs = some old ∧ Running old := by
  obtain ⟨old, present, equal⟩ := frame_server same found
  simp only [D2gs.mk.injEq] at equal
  refine ⟨old, present, ?_⟩
  rw [Running, equal.2.2.2.1, equal.2.2.2.2.2.2.2.1]
  exact running

end

theorem grown_refl (world : World) : Grown world.games world world :=
  ⟨⟨[], rfl, by simp, by simp⟩, rfl⟩

variable {world : World} {stopping : Option Nat} {after : World} {curr : Nat} {mid : World}

theorem grown_trans (first : Grown games before mid) (second : Grown mid.games mid after) :
    Grown games before after := by
  obtain ⟨fresh, same, fewer, placed⟩ := first.games
  obtain ⟨later, sameLater, fewerLater, placedLater⟩ := second.games
  refine ⟨⟨later ++ fresh, ?_, ?_, ?_⟩, second.frame.trans first.frame⟩
  · rw [sameLater, same, append_assoc]
  · rw [length_append]
    omega
  intro entry member
  rcases mem_append.mp member with new | old
  · obtain ⟨gs, server, host, found, running⟩ := placedLater entry new
    obtain ⟨earlier, present, ran⟩ := frame_running first.frame found running
    exact ⟨gs, earlier, host, present, ran⟩
  · exact placed entry old

theorem served_refl (world : World) : Served world world := ⟨id, Sublist.refl _, rfl⟩

theorem served_trans (first : Served before mid) (second : Served mid after) :
    Served before after :=
  ⟨second.owned ∘ first.owned, second.order.trans first.order, second.peers.trans first.peers⟩

theorem tidy_created {env : Env} (tidy : Tidy stopping world) (new : Created env world after) :
    Tidy stopping after ∧ after.gqlist = world.gqlist ∧ after.connections = world.connections ∧
      frame after.d2gss = frame world.d2gss ∧
      ∃ entry gs server, after.games = entry :: world.games ∧ entry.2.d2gs = some gs ∧
        find world.d2gss gs = some server ∧ Running server := by
  obtain ⟨gs, server, game, found, running, room, placed, proper, unused, same⟩ := new.made
  have fresh := env.malloc.fresh (addresses world.games)
  rw [same]
  refine ⟨⟨hosting_create tidy.hosting found running room fresh placed,
    register_create tidy.register _ proper unused, tidy.requests, tidy.connections⟩, rfl, rfl,
    frame_change _ _ fun server => server.gamenum + 1, _, gs, server, rfl, placed, found,
    running⟩

theorem owned_finds (owned : Owned world.gqlist world.connections) {gq : Gq}
    (listed : find world.gqlist curr = some gq) :
    ∃ c conn, d2csConnlistFindConnectionBySessionnum world gq.clientid = some (c, conn) ∧
      conn.gamequeue = some curr := by
  obtain ⟨entry, member, waits⟩ := owned.owned curr (mem_map_of_mem (find_mem listed))
  obtain ⟨request, again, same⟩ := owned.waits entry member curr waits
  rw [listed] at again
  cases again
  cases found : d2csConnlistFindConnectionBySessionnum world gq.clientid with
  | none =>
    have missed := find?_eq_none.mp found entry member
    simp [same] at missed
  | some other =>
    have number : other.2.sessionnum = gq.clientid := by simpa using find?_some found
    have equal : other = entry := inj_on_of_nodup_map owned.sessions
      (mem_of_find?_eq_some found) member (number.trans same)
    exact ⟨other.1, other.2, rfl, equal ▸ waits⟩

theorem release_again {connections : Objects Connection} {c : Nat} {conn : Connection}
    (found : find connections c = some conn) (distinct : (addresses connections).Nodup) :
    change (change connections c fun conn => { conn with gamequeue := none }) c
        (fun conn => { conn with gamequeue := none }) =
      change connections c fun conn => { conn with gamequeue := none } := by
  obtain ⟨front, back, rfl, _⟩ := find_split found
  rw [change_split _ distinct, change_split]
  simpa using distinct

theorem retried {env : Env} (tidy : Tidy stopping world) {c : Nat} {conn : Connection} {gq : Gq}
    (listed : find world.gqlist curr = some gq)
    (found : d2csConnlistFindConnectionBySessionnum world gq.clientid = some (c, conn))
    (busy : conn.gamequeue ≠ none) (effect : Requested env world c conn gq.packet mid) :
    mid.gqlist.Sublist world.gqlist ∧
      Tidy stopping (gqDestroy (connSetGamequeue mid c none) curr).1 ∧
      Grown world.games world (gqDestroy (connSetGamequeue mid c none) curr).1 ∧
      Served world (gqDestroy (connSetGamequeue mid c none) curr).1 := by
  have present : find world.connections c = some conn :=
    mem_find tidy.connections (mem_of_find?_eq_some found)
  have shorter : (without world.gqlist curr).length + 1 ≤ world.gqlist.length := by
    obtain ⟨before, rest, split, _⟩ := find_split listed
    rw [split, without_split (split ▸ tidy.requests)]
    simp only [length_append, length_cons]
    omega
  have waits (owned : Owned world.gqlist world.connections) : conn.gamequeue = some curr := by
    obtain ⟨c', conn', again, waits⟩ := owned_finds owned listed
    rw [found] at again
    cases again
    exact waits
  have release (owned : Owned world.gqlist world.connections) :=
    owned_release owned tidy.connections present (waits owned)
  cases effect with
  | nothing =>
    refine ⟨Sublist.refl _, ⟨tidy.hosting, tidy.register, without_distinct _ tidy.requests,
      by simpa [gqDestroy, connSetGamequeue] using tidy.connections⟩,
      ⟨⟨[], rfl, ?_, by simp⟩, rfl⟩, ⟨release, without_sublist _ _, peers_change _ _ _⟩⟩
    have short := (without_sublist world.gqlist curr).length_le
    simpa [gqDestroy, connSetGamequeue] using short
  | dropped gq' waiting =>
    have fewer := without_sublist world.gqlist gq'
    refine ⟨fewer, ⟨tidy.hosting, tidy.register,
      without_distinct _ (without_distinct _ tidy.requests),
      by simpa [gqDestroy, connSetGamequeue] using tidy.connections⟩,
      ⟨⟨[], rfl, ?_, by simp⟩, rfl⟩, ⟨fun owned => ?_, (without_sublist _ _).trans fewer, ?_⟩⟩
    · have short := ((without_sublist (without world.gqlist gq') curr).trans fewer).length_le
      simpa [gqDestroy, connSetGamequeue] using short
    · have same := waits owned
      rw [waiting, some.injEq] at same
      have gone : curr ∉ addresses (without world.gqlist curr) := by
        rw [addresses_without]
        simp
      simp only [gqDestroy, connSetGamequeue, same, release_again present tidy.connections,
        without_unlisted gone]
      exact release owned
    · simp only [gqDestroy, connSetGamequeue, peers_change]
  | queued gamename idle => exact absurd idle busy
  | created after new =>
    obtain ⟨kept, queue, connections, framed, entry, gs, server, games, placed⟩ :=
      tidy_created tidy new
    refine ⟨by rw [queue], ⟨kept.hosting, kept.register, without_distinct _ kept.requests,
      by simpa [gqDestroy, connSetGamequeue] using kept.connections⟩,
      ⟨⟨[entry], games, ?_, ?_⟩, framed⟩, ⟨fun owned => ?_, ?_, ?_⟩⟩
    · simp only [gqDestroy, connSetGamequeue, queue, length_singleton]
      omega
    · intro other member
      rw [mem_singleton.mp member]
      exact ⟨gs, server, placed⟩
    · simp only [connSetGamequeue, queue, connections]
      exact release owned
    · simp only [connSetGamequeue, queue]
      exact without_sublist _ _
    · simp only [gqDestroy, connSetGamequeue, connections, peers_change]

theorem check_step (env : Env) (number : Int) (tidy : Tidy stopping world) (i : Nat)
    {front back : List Nat} (elems : addresses world.gqlist = front ++ curr :: back) :
    ∃ after tried cursor, checkCreategame env number curr (world, i) =
        some ((after, tried), cursor) ∧
      Tidy stopping after ∧ Grown world.games world after ∧ Served world after ∧
      ∀ place, cursor = some place → ∃ before rest, addresses after.gqlist = before ++ rest ∧
        next (addresses after.gqlist) place = some rest.head? ∧ rest.length ≤ back.length := by
  obtain ⟨gq, listed⟩ := find_listed (show curr ∈ addresses world.gqlist by simp [elems])
  have distinct := elems ▸ tidy.requests
  have moves {later : Objects Gq} (fewer : later.Sublist world.gqlist) :
      ∃ before rest, addresses (without later curr) = before ++ rest ∧
        next (addresses (without later curr)) (cursorWithout (addresses later) curr) =
          some rest.head? ∧ rest.length ≤ back.length := by
    rw [addresses_without]
    exact next_without distinct (elems ▸ fewer.map Prod.fst)
  have unowned (nobody : ¬∃ c conn, d2csConnlistFindConnectionBySessionnum world gq.clientid =
      some (c, conn) ∧ conn.gamequeue = some curr) :
      Tidy stopping (gqDestroy world curr).1 ∧ Grown world.games world (gqDestroy world curr).1 ∧
        Served world (gqDestroy world curr).1 := by
    have short := (without_sublist world.gqlist curr).length_le
    exact ⟨⟨tidy.hosting, tidy.register, without_distinct curr tidy.requests, tidy.connections⟩,
      ⟨⟨[], rfl, by simpa [gqDestroy] using short, by simp⟩, rfl⟩,
      ⟨fun owned => absurd (owned_finds owned listed) nobody, without_sublist _ _, rfl⟩⟩
  simp only [checkCreategame, listed, bind_eq_bind, bind_some]
  cases found : d2csConnlistFindConnectionBySessionnum world gq.clientid with
  | none =>
    obtain ⟨kept, grown, served⟩ := unowned (by simp [found])
    refine ⟨_, _, _, rfl, kept, grown, served, ?_⟩
    rintro place ⟨⟩
    exact moves (Sublist.refl _)
  | some entry =>
    obtain ⟨c, conn⟩ := entry
    simp only
    by_cases idle : conn.gamequeue = none
    · obtain ⟨kept, grown, served⟩ := unowned (by
        rintro ⟨c', conn', again, waits⟩
        rw [found] at again
        cases again
        simp [idle] at waits)
      rw [if_pos idle]
      refine ⟨_, _, _, rfl, kept, grown, served, ?_⟩
      rintro place ⟨⟩
      exact moves (Sublist.refl _)
    · obtain ⟨mid, done, effect⟩ := request_effect env tidy c conn gq.packet
      obtain ⟨fewer, kept, grown, served⟩ := retried tidy listed found idle effect
      rw [if_neg idle, done, bind_some]
      refine ⟨_, _, _, rfl, kept, grown, served, ?_⟩
      intro place moved
      split at moved
      · cases moved
      · cases moved
        exact moves fewer

theorem check_creategame (env : Env) (tidy : Tidy stopping world) (number : Int) :
    ∃ after, gqlistCheckCreategame env world number = some after ∧ Tidy stopping after ∧
      Grown world.games world after ∧ Served world after := by
  rw [gqlistCheckCreategame]
  by_cases few : number ≤ 0
  · exact ⟨world, if_pos few, tidy, grown_refl world, served_refl world⟩
  rw [if_neg few]
  obtain ⟨last, walked, result⟩ := walk_rule requests (checkCreategame env number)
    (fun state front back => requests state = front ++ back ∧ Tidy stopping state.1 ∧
      Grown world.games world state.1 ∧ Served world state.1)
    (fun state => Tidy stopping state.1 ∧ Grown world.games world state.1 ∧ Served world state.1)
    (fun _ back => back.length)
    (fun state front held => held.2) (by
      rintro ⟨state, i⟩ front curr back ⟨elems, tidy, grown, served⟩
      obtain ⟨after, tried, cursor, done, kept, further, served', moves⟩ :=
        check_step env number tidy i elems
      have whole := grown_trans grown further
      refine ⟨_, _, done, ?_⟩
      cases cursor with
      | none => exact ⟨kept, whole, served_trans served served'⟩
      | some place =>
        obtain ⟨before, rest, split, moved, shorter⟩ := moves place rfl
        exact ⟨before, rest, moved, ⟨split, kept, whole, served_trans served served'⟩,
          Nat.lt_succ_of_le shorter⟩)
    (world.gqlist.length + 1) (world, 0) [] (addresses world.gqlist)
    ⟨rfl, tidy, grown_refl world, served_refl world⟩ (by simp [addresses])
  exact ⟨last.1, by rw [walked]; rfl, result⟩

end Retries

section Removals

theorem game_destroy (env : Env) (tidy : Tidy stopping world) {game : Game}
    (listed : find world.games address = some game) :
    ∃ after, gameDestroy env world address =
        some (after, cursorWithout (addresses world.games) address) ∧
      Tidy stopping after ∧ Grown (without world.games address) world after ∧
      Served world after := by
  obtain ⟨currElem, moved, register⟩ :=
    register_remove tidy.hosting.gamesDistinct tidy.register listed
  simp only [gameDestroy, listed, moved, bind_eq_bind, bind_some]
  cases host : game.d2gs with
  | none =>
    refine ⟨_, rfl, ⟨hosting_orphan tidy.hosting listed host, register, tidy.requests,
      tidy.connections⟩, ⟨⟨[], rfl, by simp, by simp⟩, rfl⟩, ⟨id, Sublist.refl _, rfl⟩⟩
  | some gs =>
    obtain ⟨server, found, positive, bound, hosting⟩ := hosting_remove tidy.hosting listed host
    have counted := add_gamenum { world with
        games := without world.games address, currElem, totalGame := world.totalGame - 1 }
      tidy.hosting.serversDistinct found (show 0 ≤ (server.gamenum : Int) + -1 by omega)
      (by omega) (fun server => server.gamenum - 1) (by omega)
    have present : find (change world.d2gss gs fun server =>
        { server with gamenum := server.gamenum - 1 }) gs =
        some { server with gamenum := server.gamenum - 1 } := by
      rw [find_change, if_pos rfl, found]
      rfl
    simp only [counted, bind_some, present]
    have mid : Tidy stopping { world with
        games := without world.games address, currElem, totalGame := world.totalGame - 1
        d2gss := change world.d2gss gs fun server =>
          { server with gamenum := server.gamenum - 1 } } :=
      ⟨hosting, register, tidy.requests, tidy.connections⟩
    obtain ⟨after, retried, kept, grown, served⟩ := check_creategame env mid
      ({ server with gamenum := server.gamenum - 1 } : D2gs).free
    have framed : frame (change world.d2gss gs fun server =>
        { server with gamenum := server.gamenum - 1 }) = frame world.d2gss :=
      frame_change _ _ fun server => server.gamenum - 1
    refine ⟨after, by rw [retried]; rfl, kept, ⟨?_, grown.frame.trans framed⟩,
      ⟨served.owned, served.order, served.peers⟩⟩
    obtain ⟨fresh, same, fewer, placed⟩ := grown.games
    refine ⟨fresh, same, fewer, fun entry member => ?_⟩
    obtain ⟨other, later, hosts, present, running⟩ := placed entry member
    obtain ⟨earlier, there, ran⟩ := frame_running framed present running
    exact ⟨other, earlier, hosts, there, ran⟩

theorem next_grown {front back : List Nat} {curr : Nat} (fresh : List Nat)
    (distinct : (front ++ curr :: back).Nodup) (later : (fresh ++ (front ++ back)).Nodup) :
    ∃ before rest, fresh ++ (front ++ back) = before ++ rest ∧
      next (fresh ++ (front ++ back)) (cursorWithout (front ++ curr :: back) curr) =
        some rest.head? ∧ rest.length ≤ fresh.length + back.length ∧
      ∀ other ∈ before, other ∈ front ∨ other ∈ fresh := by
  rw [cursor_without distinct]
  rcases eq_nil_or_concat front with rfl | ⟨first, last, rfl⟩
  · exact ⟨[], fresh ++ back, rfl, rfl, by simp, by simp⟩
  rw [concat_eq_append] at later ⊢
  refine ⟨fresh ++ (first ++ [last]), back, by simp, ?_, by omega, ?_⟩
  · have behind : cursorBehind (first ++ [last]) = cursorBehind (fresh ++ (first ++ [last])) := by
      simp [cursorBehind]
    rw [behind, ← append_assoc]
    exact next_behind (by rwa [append_assoc])
  · intro other member
    exact (mem_append.mp member).symm

theorem sweep (env : Env) (doomed : Game → Prop) [DecidablePred doomed]
    (body : Nat → World → Option (World × Option Cursor))
    (shape : ∀ curr world game, find world.games curr = some game → body curr world =
      if doomed game then (gameDestroy env world curr).map fun result => (result.1, some result.2)
      else some (world, some (.elem curr))) (tidy : Tidy stopping world) :
    ∃ after, walk gameElems body (gameRounds world) world (gameElems world).head? = some after ∧
      Tidy stopping after ∧ Served world after ∧ frame after.d2gss = frame world.d2gss ∧
      ((∀ game gs server, game.d2gs = some gs → find world.d2gss gs = some server →
          Running server → ¬doomed game) → ∀ entry ∈ after.games, ¬doomed entry.2) := by
  have distinctOf {state : World} (kept : Tidy stopping state) : (gameElems state).Nodup :=
    kept.hosting.gamesDistinct
  obtain ⟨last, walked, result⟩ := walk_rule gameElems body
    (fun state front back => gameElems state = front ++ back ∧ Tidy stopping state ∧
      Served world state ∧ frame state.d2gss = frame world.d2gss ∧
      ((∀ game gs server, game.d2gs = some gs → find world.d2gss gs = some server →
          Running server → ¬doomed game) →
        ∀ entry ∈ state.games, entry.1 ∈ front → ¬doomed entry.2))
    (fun state => Tidy stopping state ∧ Served world state ∧ frame state.d2gss = frame world.d2gss ∧
      ((∀ game gs server, game.d2gs = some gs → find world.d2gss gs = some server →
          Running server → ¬doomed game) → ∀ entry ∈ state.games, ¬doomed entry.2))
    (fun state back => back.length + state.gqlist.length)
    (by
      rintro state front ⟨elems, kept, served, framed, clean⟩
      refine ⟨kept, served, framed, fun spared entry member => clean spared entry member ?_⟩
      rw [append_nil] at elems
      exact elems ▸ mem_map_of_mem member)
    (by
      rintro state front curr back ⟨elems, kept, served, framed, clean⟩
      have distinct := elems ▸ distinctOf kept
      obtain ⟨game, listed⟩ := find_listed (show curr ∈ addresses state.games from
        (show curr ∈ gameElems state by simp [elems]))
      rw [Round, shape curr state game listed]
      by_cases hit : doomed game
      · obtain ⟨after, done, tidyAfter, grown, servedAfter⟩ := game_destroy env kept listed
        obtain ⟨fresh, same, fewer, placed⟩ := grown.games
        have rest : addresses (without state.games curr) = front ++ back := by
          rw [addresses_without, show addresses state.games = front ++ curr :: back from elems]
          exact filter_split distinct
        have later : gameElems after = addresses fresh ++ (front ++ back) := by
          rw [gameElems, same, addresses_append, rest]
        obtain ⟨before, behind, split, moved, shorter, origin⟩ :=
          next_grown (addresses fresh) distinct (later ▸ distinctOf tidyAfter)
        rw [if_pos hit, done]
        refine ⟨after, _, rfl, before, behind, ?_, ⟨later.trans split, tidyAfter,
          served_trans served servedAfter, grown.frame.trans framed, ?_⟩, ?_⟩
        · rw [later, show addresses state.games = front ++ curr :: back from elems]
          exact moved
        · intro spared entry member inside
          rw [same] at member
          rcases mem_append.mp member with new | old
          · obtain ⟨gs, server, host, present, running⟩ := placed entry new
            obtain ⟨earlier, there, ran⟩ := frame_running framed present running
            exact spared entry.2 gs earlier host there ran
          have listedStill := (without_sublist state.games curr).subset old
          rcases origin entry.1 inside with before' | new
          · exact clean spared entry listedStill before'
          have twice := later ▸ distinctOf tidyAfter
          refine absurd rfl ((nodup_append.mp twice).2.2 entry.1 new entry.1 ?_)
          rw [← rest]
          exact mem_map_of_mem old
        · rw [addresses, length_map] at shorter
          rw [length_cons]
          omega
      · have split : gameElems state = (front ++ [curr]) ++ back := by simp [elems]
        rw [if_neg hit]
        refine ⟨state, _, rfl, front ++ [curr], back, ?_, ⟨split, kept, served, framed, ?_⟩, ?_⟩
        · rw [elems]
          exact next_elem distinct
        · intro spared entry member inside
          rcases mem_append.mp inside with before | here
          · exact clean spared entry member before
          · have same := mem_find kept.hosting.gamesDistinct member
            rw [mem_singleton.mp here, listed, some.injEq] at same
            rwa [← same]
        · simp)
    (gameRounds world) world [] (gameElems world)
    ⟨rfl, tidy, served_refl world, rfl, by simp⟩ (by simp [gameRounds, gameElems, addresses])
  exact ⟨last, walked, result⟩

end Removals

section Deactivations

/-- Which game servers are allocated, and which of them are in the list. -/
def roll (servers : Objects D2gs) : Objects Bool :=
  servers.map fun entry => (entry.1, entry.2.listed)

def AllListed (servers : Objects D2gs) : Prop := ∀ entry ∈ servers, entry.2.listed = true

theorem roll_frame {before after : Objects D2gs} (same : frame after = frame before) :
    roll after = roll before := by
  have framed (servers : Objects D2gs) : roll (frame servers) = roll servers := by
    rw [frame, roll, List.map_map]
    rfl
  rw [← framed after, same, framed]

theorem roll_edit (world : World) (gs : Nat) (edit : D2gs → D2gs)
    (same : ∀ server, (edit server).listed = server.listed) :
    roll (editGs world gs edit).d2gss = roll world.d2gss := by
  rw [editGs, roll, change, List.map_map]
  apply map_congr_left
  intro entry _
  rw [comp_apply]
  split
  · rw [same]
  · rfl

theorem roll_without (servers : Objects D2gs) (gs : Nat) :
    roll (without servers gs) = without (roll servers) gs := by
  rw [roll, without, roll, without, List.filter_map]
  rfl

theorem roll_addresses {before after : Objects D2gs} (same : roll after = roll before) :
    addresses after = addresses before := by
  have keys (servers : Objects D2gs) : addresses (roll servers) = addresses servers := by
    rw [roll, addresses, List.map_map]
    rfl
  rw [← keys after, same, keys]

theorem all_listed_roll :
    AllListed servers ↔ ∀ entry ∈ roll servers, entry.2 = true := by
  constructor
  · intro all entry member
    obtain ⟨old, inside, rfl⟩ := mem_map.mp member
    exact all old inside
  · intro all entry member
    exact all _ (mem_map_of_mem member)

variable {world : World} {gs : Nat} (env : Env) {server : D2gs}

theorem all_listed_elems (all : AllListed world.d2gss) : d2gslist world = world.d2gss :=
  filter_eq_self.mpr all

theorem tidy_edit {stopping after : Option Nat} (tidy : Tidy stopping world) (gs : Nat)
    (edit : D2gs → D2gs) (here : ∀ server, find world.d2gss gs = some server →
      (edit server).gamenum = hosted world.games gs ∧
      (after ≠ some gs → ¬Running (edit server) → hosted world.games gs = 0))
    (still : ∀ other, other ≠ gs → after ≠ some other → stopping ≠ some other) :
    Tidy after (editGs world gs edit) := by
  refine ⟨?_, tidy.register, tidy.requests, tidy.connections⟩
  refine hosting_edit tidy.hosting gs edit tidy.hosting.gamesDistinct tidy.hosting.hosts
    (fun _ _ => rfl) (fun server found => ?_) still
  obtain ⟨counted, idle⟩ := here server found
  have bound := tidy.hosting.bounded _ (find_mem found)
  rw [tidy.hosting.counted _ (find_mem found)] at bound
  exact ⟨counted, fun moving stopped => counted.trans (idle moving stopped), counted ▸ bound⟩

section
variable (tidy : Tidy none world)
include tidy

theorem deactive (found : find world.d2gss gs = some server) (c : Nat) :
    ∃ after, d2gsDeactive env world gs c = some after ∧ Tidy none after ∧ Served world after ∧
      roll after.d2gss = roll world.d2gss ∧
      (server.active = true → server.connection = some c → hosted after.games gs = 0) := by
  simp only [d2gsDeactive, found, bind_eq_bind, bind_some]
  by_cases stopped : (!server.active) = true ∨ server.connection = none
  · refine ⟨world, if_pos stopped, tidy, served_refl world, rfl, fun active connected => ?_⟩
    simp [active, connected] at stopped
  rw [if_neg stopped]
  by_cases other : server.connection ≠ some c
  · exact ⟨world, if_pos other, tidy, served_refl world, rfl,
      fun _ connected => absurd connected other⟩
  rw [if_neg other]
  have stopping : Tidy (some gs) (editGs world gs fun server =>
      { server with state := .none, connection := none, active := false, maxgame := 0 }) :=
    tidy_edit tidy gs _ (fun again present => ⟨tidy.hosting.counted _ (find_mem present),
      fun moving => absurd rfl moving⟩) (by simp)
  obtain ⟨mid, walked, kept, served, framed, clean⟩ := sweep env (fun game => game.d2gs = some gs)
    (deactiveGame env gs) (by
      intro curr state game listed
      rw [deactiveGame, listed, bind_eq_bind, bind_some]
      split
      · cases gameDestroy env state curr <;> rfl
      · rfl) stopping
  have gone : hosted mid.games gs = 0 := by
    rw [hosted_zero]
    apply clean
    rintro game host running host' present ran same
    rw [same, some.injEq] at host'
    cases host'
    rw [editGs, find_change, if_pos rfl, found] at present
    cases present
    exact absurd ran.1 (by simp)
  rw [walked]
  refine ⟨_, rfl, ?_, ⟨served.owned, served.order, served.peers⟩, ?_, fun _ _ => gone⟩
  · refine tidy_edit kept gs _ (fun again present => ⟨gone.symm, fun _ _ => gone⟩) ?_
    intro host differs _ same
    exact differs (some.inj same).symm
  · rw [roll_edit, roll_frame framed, roll_edit] <;> simp

theorem idle_hosts_none (found : find world.d2gss gs = some server) (stopped : ¬Running server) :
    hosted world.games gs = 0 := by
  have count := tidy.hosting.counted _ (find_mem found)
  rw [← count]
  exact tidy.hosting.idle _ (find_mem found) (by simp) stopped

theorem deactive_previous (server : D2gs) {stored : D2gs}
    (found : find world.d2gss gs = some stored)
    (same : server.active = stored.active ∧ server.connection = stored.connection) :
    ∃ after, deactivePrevious env world gs server = some after ∧
      Tidy none after ∧ Served world after ∧ roll after.d2gss = roll world.d2gss ∧
      hosted after.games gs = 0 := by
  have idle (stopped : ¬Running stored) := idle_hosts_none tidy found stopped
  rw [deactivePrevious, same.1, same.2]
  cases active : stored.active with
  | false =>
    exact ⟨world, rfl, tidy, served_refl world, rfl, idle fun running => by
      rw [Running, active] at running
      exact absurd running.1 (by simp)⟩
  | true =>
    cases connected : stored.connection with
    | none =>
      exact ⟨world, rfl, tidy, served_refl world, rfl, idle fun running =>
        running.2 connected⟩
    | some previous =>
      obtain ⟨after, done, kept, served, rolled, gone⟩ := deactive env tidy found previous
      exact ⟨after, done, kept, served, rolled, gone active connected⟩

theorem activate (found : find world.d2gss gs = some server) (c : Nat) :
    ∃ after, d2gsActive env world gs c = some after ∧ Tidy none after ∧ Served world after ∧
      roll after.d2gss = roll world.d2gss := by
  obtain ⟨mid, stopped, kept, served, same, gone⟩ :=
    deactive_previous env tidy server found ⟨rfl, rfl⟩
  simp only [d2gsActive, found, stopped, bind_eq_bind, bind_some]
  refine ⟨_, rfl, ?_, ⟨served.owned, served.order, served.peers⟩, ?_⟩
  · exact tidy_edit kept gs _ (fun _ _ => ⟨gone.symm, fun _ _ => gone⟩) fun _ _ moving => moving
  · rw [roll_edit, same]
    simp

theorem destroy_server (found : find world.d2gss gs = some server) :
    ∃ after, d2gsDestroy env world gs =
        some (after, cursorWithout (addresses (d2gslist world)) gs) ∧
      Tidy none after ∧ Served world after ∧
      addresses after.d2gss = (addresses world.d2gss).filter (· ≠ gs) ∧
      (AllListed world.d2gss → AllListed after.d2gss) := by
  have unlisted : Tidy none (editGs world gs fun server => { server with listed := false }) :=
    tidy_edit tidy gs _ (fun again present => ⟨tidy.hosting.counted _ (find_mem present),
      fun _ stopped => idle_hosts_none tidy present stopped⟩) fun _ _ moving => moving
  have present : find (editGs world gs fun server => { server with listed := false }).d2gss gs =
      some { server with listed := false } := by
    rw [editGs, find_change, if_pos rfl, found]
    rfl
  obtain ⟨mid, stopped, kept, served, same, gone⟩ :=
    deactive_previous env unlisted server present ⟨rfl, rfl⟩
  simp only [d2gsDestroy, found, stopped, bind_eq_bind, bind_some]
  refine ⟨_, rfl, ⟨?_, kept.register, kept.requests, kept.connections⟩,
    ⟨served.owned, served.order, served.peers⟩, ?_, ?_⟩
  · have others (entry : Nat × D2gs) (member : entry ∈ without mid.d2gss gs) :=
      (mem_filter.mp member).1
    have nobody := hosted_zero.mp gone
    refine ⟨kept.hosting.gamesDistinct, without_distinct gs kept.hosting.serversDistinct, ?_,
      fun entry member => kept.hosting.counted entry (others entry member),
      fun entry member => kept.hosting.idle entry (others entry member),
      fun entry member => kept.hosting.bounded entry (others entry member)⟩
    intro entry member host placed
    rw [addresses_without]
    refine mem_filter.mpr ⟨kept.hosting.hosts entry member host placed, ?_⟩
    have differs : host ≠ gs := by
      rintro rfl
      exact nobody entry member placed
    simpa using differs
  · rw [addresses_without, roll_addresses same, editGs, addresses_change]
  · intro all
    rw [all_listed_roll, roll_without, same]
    intro entry member
    obtain ⟨inside, apart⟩ := mem_filter.mp member
    obtain ⟨old, oldMember, rfl⟩ := mem_map.mp inside
    simp only [editGs] at oldMember
    rcases mem_change tidy.hosting.serversDistinct oldMember with ⟨_, _, rfl⟩ | ⟨_, before⟩
    · simp at apart
    · exact all old before

end

end Deactivations

section Lists

variable (env : Env) {world : World}

theorem clear_valid (tidy : Tidy none world) :
    Tidy none { world with
      d2gss := world.d2gss.map fun entry => (entry.1, { entry.2 with valid := false }) } := by
  have keys : addresses (world.d2gss.map fun entry => (entry.1, { entry.2 with valid := false })) =
      addresses world.d2gss := by
    rw [addresses, List.map_map]
    rfl
  refine ⟨?_, tidy.register, tidy.requests, tidy.connections⟩
  constructor
  · exact tidy.hosting.gamesDistinct
  · rw [keys]
    exact tidy.hosting.serversDistinct
  · rw [keys]
    exact tidy.hosting.hosts
  · intro entry member
    obtain ⟨old, inside, rfl⟩ := mem_map.mp member
    exact tidy.hosting.counted old inside
  · intro entry member
    obtain ⟨old, inside, rfl⟩ := mem_map.mp member
    exact tidy.hosting.idle old inside
  · intro entry member
    obtain ⟨old, inside, rfl⟩ := mem_map.mp member
    exact tidy.hosting.bounded old inside

theorem hosting_enroll (hosting : Hosting none games servers)
    (fresh : address ∉ addresses servers) (empty : server.gamenum = 0) :
    Hosting none games (servers ++ [(address, server)]) := by
  have nobody : hosted games address = 0 :=
    hosted_zero.mpr fun entry member placed => fresh (hosting.hosts entry member address placed)
  have cases {entry : Nat × D2gs} (member : entry ∈ servers ++ [(address, server)]) :
      entry ∈ servers ∨ entry = (address, server) := by simpa using member
  constructor
  · exact hosting.gamesDistinct
  · rw [addresses_append]
    refine nodup_append.mpr ⟨hosting.serversDistinct, by simp, ?_⟩
    intro old listed new only same
    have here : new = address := mem_singleton.mp only
    rw [same, here] at listed
    exact fresh listed
  · intro entry member gs placed
    rw [addresses_append]
    exact mem_append_left _ (hosting.hosts entry member gs placed)
  · intro entry member
    rcases cases member with old | rfl
    · exact hosting.counted entry old
    · rw [empty, nobody]
  · intro entry member moving stopped
    rcases cases member with old | rfl
    · exact hosting.idle entry old moving stopped
    · exact empty
  · intro entry member
    rcases cases member with old | rfl
    · exact hosting.bounded entry old
    · rw [empty]
      decide

structure Enrolled (before after : World) : Prop where
  tidy : Tidy none after
  listed : AllListed after.d2gss
  served : Served before after

theorem validate_enrolled (enrolled : Enrolled before world) (ip : UInt32) :
    Enrolled before (validateGs env world ip) := by
  rw [validateGs]
  split
  · next gs server found =>
      refine ⟨?_, ?_, ⟨enrolled.served.owned, enrolled.served.order, enrolled.served.peers⟩⟩
      · refine tidy_edit enrolled.tidy gs _ (fun again present =>
          ⟨enrolled.tidy.hosting.counted _ (find_mem present), fun _ stopped =>
            idle_hosts_none enrolled.tidy present stopped⟩) fun _ _ moving => moving
      · rw [all_listed_roll, roll_edit _ _ _ (by simp), ← all_listed_roll]
        exact enrolled.listed
  · rw [d2gsCreate]
    split
    · exact enrolled
    refine ⟨⟨hosting_enroll enrolled.tidy.hosting (env.malloc.fresh _) rfl,
      enrolled.tidy.register, enrolled.tidy.requests, enrolled.tidy.connections⟩, ?_,
      ⟨enrolled.served.owned, enrolled.served.order, enrolled.served.peers⟩⟩
    intro entry member
    rcases mem_append.mp member with old | new
    · exact enrolled.listed entry old
    · rw [mem_singleton.mp new]

theorem validate_all (gsaddrs : List UInt32) (world : World) (enrolled : Enrolled before world) :
    Enrolled before (gsaddrs.foldl (validateGs env) world) := by
  induction gsaddrs generalizing world with
  | nil => exact enrolled
  | cons ip rest ih => exact ih _ (validate_enrolled env enrolled ip)

theorem reload (tidy : Tidy none world) (listed : AllListed world.d2gss) (gsaddrs : List UInt32) :
    ∃ after, d2gslistReload env world gsaddrs = some after ∧ Enrolled world after := by
  have cleared : Enrolled world { world with
      d2gss := world.d2gss.map fun entry => (entry.1, { entry.2 with valid := false }) } := by
    refine ⟨clear_valid tidy, ?_, ⟨id, Sublist.refl _, rfl⟩⟩
    intro entry member
    obtain ⟨old, inside, rfl⟩ := mem_map.mp member
    exact listed old inside
  have start := validate_all env gsaddrs _ cleared
  rw [d2gslistReload]
  generalize gsaddrs.foldl (validateGs env) _ = first at start ⊢
  have elemsOf {state : World} (all : AllListed state.d2gss) :
      serverElems state = addresses state.d2gss := by rw [serverElems, all_listed_elems all]
  exact walk_rule serverElems (destroyInvalid env)
    (fun state front back => serverElems state = front ++ back ∧ Enrolled world state)
    (Enrolled world) (fun _ back => back.length) (fun _ _ held => held.2) (by
      rintro state front curr back ⟨elems, enrolled⟩
      have distinct : (front ++ curr :: back).Nodup := by
        rw [← elems, elemsOf enrolled.listed]
        exact enrolled.tidy.hosting.serversDistinct
      have member : curr ∈ addresses state.d2gss := by
        rw [← elemsOf enrolled.listed, elems]
        simp
      obtain ⟨server, found⟩ := find_listed member
      rw [Round, destroyInvalid, found, bind_eq_bind, bind_some]
      by_cases invalid : (!server.valid) = true
      · obtain ⟨after, done, kept, served, gone, all⟩ := destroy_server env enrolled.tidy found
        obtain ⟨before, rest, split, moved, shorter⟩ := next_without distinct (Sublist.refl _)
        have later : serverElems after = (front ++ curr :: back).filter (· ≠ curr) := by
          rw [elemsOf (all enrolled.listed), gone, ← elemsOf enrolled.listed, elems]
        rw [if_pos invalid, done]
        refine ⟨after, _, rfl, before, rest, ?_, ⟨later.trans split, kept, all enrolled.listed,
          served_trans enrolled.served served⟩, Nat.lt_succ_of_le shorter⟩
        rw [later, show addresses (d2gslist state) = front ++ curr :: back from elems]
        exact moved
      · rw [if_neg invalid]
        refine ⟨state, _, rfl, front ++ [curr], back, ?_, ⟨by simp [elems], enrolled⟩, by simp⟩
        rw [elems]
        exact next_elem distinct)
    (first.d2gss.length + 1) first [] (serverElems first) ⟨rfl, start⟩ (by
      rw [elemsOf start.listed, addresses, length_map]
      omega)

end Lists

end Pvpgn.RealmGames
