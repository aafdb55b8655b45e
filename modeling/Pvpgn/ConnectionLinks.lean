import Pvpgn.ConnectionList

/-!
What the connections know of each other: the partner of a route, the leader of a team and the
players of a match.
-/

namespace Pvpgn.ConnectionLinks
open ObjectList ObjectStore ConnectionList List Option Function
open ChannelMembers (ConnClass)

/-- The connections that accounts log in to. -/
def Plays (cclass : ConnClass) : Prop :=
  cclass ≠ .init ∧ cclass ≠ .ircinit ∧ cclass ≠ .w3route ∧ cclass ≠ .d2csBnetd

instance (cclass : ConnClass) : Decidable (Plays cclass) :=
  inferInstanceAs (Decidable (_ ∧ _ ∧ _ ∧ _))

/-- Route partners are linked both ways. -/
structure Routed (live : Nat → Prop) (fields : Nat → Fields) : Prop where
  back : ∀ c d, live c → (fields c).routeconn = some d → live d ∧ (fields d).routeconn = some c
  apart : ∀ c, live c → (fields c).routeconn ≠ some c

/-- The leaders of the teams are there. -/
def Teamed (live : Nat → Prop) (fields : Nat → Fields) : Prop :=
  ∀ c a leader, live c → (fields c).anongame = some a → a.tc.head? = some (some leader) →
    live leader ∧ Plays (fields leader).cclass

/-- The players of a match and their places in it, which the match counts. -/
structure Matched (live : Nat → Prop) (fields : Nat → Fields) (infos : Store Anongameinfo) :
    Prop where
  placed : ∀ c a address, live c → (fields c).anongame = some a → a.info = some address →
    ∃ info, infos.get address = some info ∧ a.playernum ≠ 0 ∧
      info.player[a.playernum - 1]? = some (some c)
  back : ∀ address info i c, infos.get address = some info → info.player[i]? = some (some c) →
    live c ∧ ∃ a, (fields c).anongame = some a ∧ a.info = some address ∧ a.playernum = i + 1
  counted : ∀ address info, infos.get address = some info →
    info.currentplayers = info.player.countP isSome
  size : ∀ address info, infos.get address = some info → info.totalplayers ≤ info.player.length

def outOfGame (c : Nat) (fields : Nat → Fields) : Nat → Fields :=
  Function.update fields c (withGame none (fields c))

variable {after : Nat → Fields}

section Matches
variable {live : Nat → Prop} {fields : Nat → Fields} {infos : Store Anongameinfo} {c : Nat}
  {a : Anongame} {address : Nat}

variable {other : Nat}

theorem out_of_game_other (apart : other ≠ c) : outOfGame c fields other = fields other :=
  update_of_ne apart _ _

theorem out_of_game_self : (outOfGame c fields c).anongame = none := by
  rw [outOfGame, update_self]
  rfl

theorem out_of_game_fields (other : Nat) :
    (outOfGame c fields other).routeconn = (fields other).routeconn ∧
      (outOfGame c fields other).cclass = (fields other).cclass := by
  by_cases same : other = c
  · subst same
    rw [outOfGame, update_self]
    exact ⟨rfl, rfl⟩
  · rw [out_of_game_other same]
    exact ⟨rfl, rfl⟩

theorem out_of_game_none (none_there : (fields c).anongame = none) :
    outOfGame c fields = fields := by
  have same : withGame none (fields c) = fields c := by rw [withGame, ← none_there]
  rw [outOfGame, same, update_eq_self]

theorem out_of_game_sub (still : (outOfGame c fields other).anongame = some a) :
    other ≠ c ∧ (fields other).anongame = some a := by
  by_cases same : other = c
  · subst same
    rw [out_of_game_self] at still
    cases still
  · rw [out_of_game_other same] at still
    exact ⟨same, still⟩

structure Fewer (fields after : Nat → Fields) : Prop where
  cclass : ∀ other, (after other).cclass = (fields other).cclass
  game : ∀ other a, (after other).anongame = some a → (fields other).anongame = some a

theorem fewer_refl (fields : Nat → Fields) : Fewer fields fields := ⟨fun _ => rfl, fun _ _ => id⟩

theorem Fewer.trans {middle after : Nat → Fields} (first : Fewer fields middle)
    (second : Fewer middle after) : Fewer fields after where
  cclass other := (second.cclass other).trans (first.cclass other)
  game other a still := first.game other a (second.game other a still)

theorem out_of_game_fewer (c : Nat) (fields : Nat → Fields) :
    Fewer fields (outOfGame c fields) where
  cclass other := (out_of_game_fields other).2
  game _ _ still := (out_of_game_sub still).2

theorem Teamed.fewer (teamed : Teamed live fields) (fewer : Fewer fields after) :
    Teamed live after := by
  intro other a leader alive game first
  rw [fewer.cclass]
  exact teamed other a leader alive (fewer.game other a game) first

theorem Routed.of_routes (routed : Routed live fields)
    (routes : ∀ other, (after other).routeconn = (fields other).routeconn) : Routed live after := by
  constructor
  · intro other partner alive route
    rw [routes] at route
    rw [routes]
    exact routed.back other partner alive route
  · intro other alive
    rw [routes]
    exact routed.apart other alive

def placeOf (conn : Fields) : Option (Nat × Nat) :=
  conn.anongame.bind fun a => a.info.map fun address => (address, a.playernum)

theorem place_some {conn : Fields} {number : Nat} : placeOf conn = some (address, number) ↔
    ∃ a, conn.anongame = some a ∧ a.info = some address ∧ a.playernum = number := by
  rw [placeOf, bind_eq_some_iff]
  simp only [map_eq_some_iff, Prod.mk.injEq]
  constructor
  · rintro ⟨a, game, place, inMatch, rfl, rfl⟩
    exact ⟨a, game, inMatch, rfl⟩
  · rintro ⟨a, game, inMatch, rfl⟩
    exact ⟨a, game, address, inMatch, rfl, rfl⟩

theorem Matched.of_places (matched : Matched live fields infos)
    (places : ∀ other, placeOf (after other) = placeOf (fields other)) :
    Matched live after infos := by
  refine ⟨fun other a address alive game inMatch => ?_,
    fun address info i other present player => ?_, matched.counted, matched.size⟩
  · have place := place_some.mpr ⟨a, game, inMatch, rfl⟩
    rw [places] at place
    obtain ⟨b, was, within, number⟩ := place_some.mp place
    rw [← number]
    exact matched.placed other b address alive was within
  · obtain ⟨alive, there⟩ := matched.back address info i other present player
    have place := place_some.mpr there
    rw [← places] at place
    exact ⟨alive, place_some.mp place⟩

theorem Matched.of_games (matched : Matched live fields infos)
    (games : ∀ other, (after other).anongame = (fields other).anongame) :
    Matched live after infos :=
  matched.of_places fun other => by rw [placeOf, games, placeOf]

theorem Teamed.of_teams (teamed : Teamed live fields)
    (classes : ∀ other, (after other).cclass = (fields other).cclass)
    (teams : ∀ other a, (after other).anongame = some a →
      ∃ b, (fields other).anongame = some b ∧ b.tc = a.tc) : Teamed live after := by
  intro other a leader alive game first
  obtain ⟨b, was, same⟩ := teams other a game
  rw [classes]
  exact teamed other b leader alive was (same ▸ first)

theorem Teamed.others (teamed : Teamed live fields)
    (unled : ∀ d a, live d → d ≠ c → (fields d).anongame = some a → a.tc.head? ≠ some (some c)) :
    Teamed (fun other => live other ∧ other ≠ c) fields := by
  rintro d a leader ⟨alive, apart⟩ game first
  obtain ⟨there, plays⟩ := teamed d a leader alive game first
  refine ⟨⟨there, ?_⟩, plays⟩
  rintro rfl
  exact unled d a alive apart game first

theorem Matched.others (matched : Matched live fields infos) (left : (fields c).anongame = none) :
    Matched (fun other => live other ∧ other ≠ c) fields infos := by
  refine ⟨fun d a address alive => matched.placed d a address alive.1,
    fun address info i d present player => ?_, matched.counted, matched.size⟩
  obtain ⟨alive, a, game, inMatch⟩ := matched.back address info i d present player
  refine ⟨⟨alive, ?_⟩, a, game, inMatch⟩
  rintro rfl
  rw [left] at game
  cases game

theorem Matched.unmatched (matched : Matched live fields infos)
    (game : (fields c).anongame = some a) (free : a.info = none) :
    Matched live (outOfGame c fields) infos := by
  refine ⟨fun other left place alive there => ?_, fun place info i other present player => ?_,
    matched.counted, matched.size⟩
  · exact matched.placed other left place alive (out_of_game_sub there).2
  obtain ⟨alive, left, there, inMatch, number⟩ := matched.back place info i other present player
  have apart : other ≠ c := by
    rintro rfl
    rw [game, some.injEq] at there
    rw [there, inMatch] at free
    cases free
  rw [out_of_game_other apart]
  exact ⟨alive, left, there, inMatch, number⟩

variable {players : List (Option Nat)}

theorem countP_set_none {i : Nat} (player : players[i]? = some (some c)) :
    (players.set i none).countP isSome + 1 = players.countP isSome := by
  induction players generalizing i with
  | nil => simp at player
  | cons first rest ih =>
    cases i with
    | zero =>
      rw [getElem?_cons_zero, some.injEq] at player
      subst player
      simp
    | succ i =>
      rw [set_cons_succ, countP_cons, countP_cons, ← ih player]
      omega

theorem count_none (empty : players.countP isSome = 0) (i other : Nat) :
    players[i]? ≠ some (some other) := by
  intro there
  have unset := countP_eq_zero.mp empty (some other) (mem_of_getElem? there)
  simp at unset

def vacate (i : Nat) (info : Anongameinfo) : Anongameinfo := { info with
  player := info.player.set i none
  currentplayers := info.currentplayers - 1 }

theorem vacate_other {info : Anongameinfo} {i place : Nat}
    (player : info.player[i]? = some (some c)) (apart : other ≠ c)
    (there : info.player[place]? = some (some other)) :
    (vacate i info).player[place]? = some (some other) := by
  have differs : i ≠ place := by
    intro same
    rw [same, there, some.injEq, some.injEq] at player
    exact apart player
  rw [vacate, getElem?_set_ne differs]
  exact there

section Vacating
variable {info : Anongameinfo} (matched : Matched live fields infos)
  (game : (fields c).anongame = some a) (inMatch : a.info = some address)
  (present : infos.get address = some info)
  (player : info.player[a.playernum - 1]? = some (some c))
include matched game inMatch present player

theorem matched_after {after : Store Anongameinfo}
    (elsewhere : ∀ place, place ≠ address → after.get place = infos.get place)
    (here : ∀ left, after.get address = some left → left = vacate (a.playernum - 1) info)
    (stays : after.get address = none → (vacate (a.playernum - 1) info).player.countP isSome = 0) :
    Matched live (outOfGame c fields) after := by
  have counts := countP_set_none player
  have total := matched.counted address info present
  refine ⟨fun other left place alive there within => ?_, fun place info' i other found slot => ?_,
    fun place info' found => ?_, fun place info' found => ?_⟩
  · obtain ⟨apart, game'⟩ := out_of_game_sub there
    obtain ⟨info', found, number, slot⟩ := matched.placed other left place alive game' within
    by_cases same : place = address
    · subst same
      rw [present, some.injEq] at found
      subst found
      have still := vacate_other player apart slot
      cases kept : after.get place with
      | none => exact absurd still (count_none (stays kept) _ _)
      | some now =>
        rw [here now kept]
        exact ⟨_, rfl, number, still⟩
    · exact ⟨info', by rw [elsewhere place same, found], number, slot⟩
  · by_cases same : place = address
    · subst same
      rw [here info' found, vacate, getElem?_set] at slot
      split at slot
      · split at slot <;> simp at slot
      obtain ⟨alive, left, game', within, number⟩ := matched.back place info i other present slot
      have apart : other ≠ c := by
        rintro rfl
        rw [game, some.injEq] at game'
        subst game'
        omega
      rw [out_of_game_other apart]
      exact ⟨alive, left, game', within, number⟩
    · rw [elsewhere place same] at found
      obtain ⟨alive, left, game', within, number⟩ := matched.back place info' i other found slot
      have apart : other ≠ c := by
        rintro rfl
        rw [game, some.injEq] at game'
        subst game'
        rw [inMatch, some.injEq] at within
        exact same within.symm
      rw [out_of_game_other apart]
      exact ⟨alive, left, game', within, number⟩
  · by_cases same : place = address
    · subst same
      rw [here info' found]
      simp only [vacate]
      omega
    · rw [elsewhere place same] at found
      exact matched.counted place info' found
  · by_cases same : place = address
    · subst same
      rw [here info' found]
      simp only [vacate, length_set]
      exact matched.size place info present
    · rw [elsewhere place same] at found
      exact matched.size place info' found

end Vacating

end Matches

section Growing
variable {live more : Nat → Prop} {fields after : Nat → Fields} {new : Nat}
  (lives : ∀ d, more d ↔ d = new ∨ live d) (kept : ∀ d, live d → after d = fields d)
include lives kept

theorem Routed.grow (routed : Routed live fields) (fresh : (after new).routeconn = none) :
    Routed more after := by
  constructor
  · intro d partner alive route
    rcases (lives d).mp alive with rfl | old
    · rw [fresh] at route
      cases route
    · rw [kept d old] at route
      obtain ⟨there, back⟩ := routed.back d partner old route
      exact ⟨(lives partner).mpr (Or.inr there), by rw [kept partner there, back]⟩
  · intro d alive
    rcases (lives d).mp alive with rfl | old
    · rw [fresh]
      simp
    · rw [kept d old]
      exact routed.apart d old

theorem Teamed.grow (teamed : Teamed live fields) (fresh : (after new).anongame = none) :
    Teamed more after := by
  intro d a leader alive game first
  rcases (lives d).mp alive with rfl | old
  · rw [fresh] at game
    cases game
  · rw [kept d old] at game
    obtain ⟨there, plays⟩ := teamed d a leader old game first
    exact ⟨(lives leader).mpr (Or.inr there), by rwa [kept leader there]⟩

theorem Matched.grow {infos : Store Anongameinfo} (matched : Matched live fields infos)
    (fresh : (after new).anongame = none) : Matched more after infos := by
  refine ⟨fun d a address alive game place => ?_, fun address info i d present player => ?_,
    matched.counted, matched.size⟩
  · rcases (lives d).mp alive with rfl | old
    · rw [fresh] at game
      cases game
    · rw [kept d old] at game
      exact matched.placed d a address old game place
  · obtain ⟨there, a, game, place⟩ := matched.back address info i d present player
    exact ⟨(lives d).mpr (Or.inr there), a, by rw [kept d there, game], place⟩

end Growing

/-! The calls. -/

def Live (server : Server) (c : Nat) : Prop := ∃ conn, server.base.conns.get c = some conn

section Games
variable {live : Nat → Prop} {server : Server} {c : Nat} {a : Anongame}

theorem conn_get_live (alive : Live server c) : connGet server c = some (server.fields c) := by
  obtain ⟨conn, there⟩ := alive
  rw [connGet, there, map_some]

theorem conn_edit_live (alive : Live server c) (change : Fields → Fields) :
    connEdit server c change = some (setFields server c change) := by
  obtain ⟨conn, there⟩ := alive
  rw [connEdit, there, map_some]

theorem leave_match_spec (matched : Matched live server.fields server.infos) (alive : live c)
    (game : (server.fields c).anongame = some a) :
    ∃ infos, leaveMatch server a a.info = some { server with infos } ∧
      Matched live (outOfGame c server.fields) infos := by
  cases inMatch : a.info with
  | none => exact ⟨server.infos, rfl, matched.unmatched game inMatch⟩
  | some address =>
    obtain ⟨info, present, positive, player⟩ := matched.placed c a address alive game inMatch
    obtain ⟨inside, -⟩ := List.getElem?_eq_some_iff.mp player
    have counts := countP_set_none player
    have total := matched.counted address info present
    have bound : ¬(a.playernum = 0 ∨ info.player.length < a.playernum) := by omega
    rw [leaveMatch, present, bind_eq_bind, bind_some]
    rw [if_neg bound]
    by_cases last : info.currentplayers - 1 = 0
    · rw [if_pos last]
      refine ⟨_, rfl, matched_after matched game inMatch present player
        (fun place apart => ?_) (fun left gone => ?_) fun _ => ?_⟩
      · rw [Store.get_free, if_neg apart]
      · rw [Store.get_free, if_pos rfl] at gone
        cases gone
      · simp only [vacate]
        omega
    · rw [if_neg last]
      refine ⟨_, rfl, matched_after matched game inMatch present player
        (fun place apart => ?_) (fun left now => ?_) fun gone => ?_⟩
      · rw [Store.get_edit, if_neg apart]
      · rw [Store.get_edit, if_pos rfl, present, map_some, some.injEq] at now
        exact now.symm
      · rw [Store.get_edit, if_pos rfl, present] at gone
        cases gone

theorem unqueue_spec {searcher : Option Nat} (queue : Int)
    (alive : ∀ c, searcher = some c → Live server c) :
    anongameUnqueue server queue searcher = some server := by
  cases searcher with
  | none => rfl
  | some c =>
    rw [anongameUnqueue, conn_get_live (alive c rfl), map_some]
    split <;> rfl

theorem destroy_anongame_spec (env : Env) (teamed : Teamed (Live server) server.fields)
    (matched : Matched (Live server) server.fields server.infos) (alive : Live server c) :
    ∃ infos, connDestroyAnongame env server c =
        some { server with fields := outOfGame c server.fields, infos } ∧
      Matched (Live server) (outOfGame c server.fields) infos := by
  rw [connDestroyAnongame, conn_get_live alive, bind_eq_bind, bind_some]
  cases game : (server.fields c).anongame with
  | none =>
    rw [out_of_game_none game]
    exact ⟨server.infos, rfl, matched⟩
  | some a =>
    obtain ⟨infos, left, rest⟩ := leave_match_spec matched alive game
    refine ⟨infos, ?_, rest⟩
    have still (other : Nat) (there : Live server other) : Live { server with infos } other := there
    rw [leaveGame, left, bind_eq_bind, bind_some,
      unqueue_spec a.queue fun other searching => ?_, bind_some,
      conn_edit_live (still c alive)]
    · rfl
    split at searching
    · rw [join_eq_some_iff] at searching
      exact still other (teamed c a other alive game searching).1
    · rw [← some.inj searching]
      exact still c alive

theorem others_routed_reads (plnum i : Nat) (players : List (Option Nat))
    (alive : ∀ player, some player ∈ players → Live server player) :
    ∃ answer, othersRouted server plnum i players = some answer := by
  induction players generalizing i with
  | nil => exact ⟨false, rfl⟩
  | cons first rest ih =>
    obtain ⟨answer, later⟩ := ih (i + 1) fun player member =>
      alive player (mem_cons_of_mem first member)
    cases first with
    | none => exact ⟨answer, later⟩
    | some player =>
      rw [othersRouted]
      split
      · exact ⟨answer, later⟩
      rw [conn_get_live (alive player mem_cons_self), bind_eq_bind, bind_some]
      split
      · exact ⟨true, rfl⟩
      · exact ⟨answer, later⟩

theorem anongame_stats_reads (matched : Matched (Live server) server.fields server.infos)
    (alive : Live server c) (game : (server.fields c).anongame = some a) :
    ∃ answer, anongameStats server a a.info = some answer := by
  cases inMatch : a.info with
  | none => exact ⟨false, rfl⟩
  | some address =>
    obtain ⟨info, present, -⟩ := matched.placed c a address alive game inMatch
    rw [anongameStats, present, bind_eq_bind, bind_some,
      if_neg (Nat.not_lt.mpr (matched.size address info present))]
    apply others_routed_reads
    intro player member
    obtain ⟨i, slot⟩ := mem_iff_getElem?.mp (mem_of_mem_take member)
    exact (matched.back address info i player present slot).1

theorem end_route_spec (env : Env) (routed : Routed (Live server) server.fields)
    (teamed : Teamed (Live server) server.fields)
    (matched : Matched (Live server) server.fields server.infos) (alive : Live server c) :
    ∃ fields infos, endRoute env server (server.fields c).routeconn =
        some { server with fields, infos } ∧
      Fewer server.fields fields ∧ Matched (Live server) fields infos ∧
      ∀ other, (fields other).routeconn = (server.fields other).routeconn := by
  cases route : (server.fields c).routeconn with
  | none => exact ⟨_, _, rfl, fewer_refl _, matched, fun _ => rfl⟩
  | some gamec =>
    have partner := (routed.back c gamec alive route).1
    rw [endRoute, conn_get_live partner, bind_eq_bind, bind_some]
    cases game : (server.fields gamec).anongame with
    | none => exact ⟨_, _, rfl, fewer_refl _, matched, fun _ => rfl⟩
    | some a =>
      obtain ⟨answer, reads⟩ := anongame_stats_reads matched partner game
      obtain ⟨infos, ends, rest⟩ := destroy_anongame_spec env teamed matched partner
      rw [endMatch, reads, bind_eq_bind, bind_some]
      exact ⟨_, infos, ends, out_of_game_fewer gamec _, rest, fun other =>
        (out_of_game_fields other).1⟩

end Games

end Pvpgn.ConnectionLinks
