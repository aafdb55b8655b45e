import Pvpgn.ConnectionCalls

/-!
The calls of the automatic games, which link connections with each other.
-/

namespace Pvpgn.ConnectionGames
open ObjectList ObjectStore ConnectionList ConnectionLinks ConnectionDestroy ConnectionCalls Option Function
open List Option Function
open ChannelMembers (ConnClass ConnState)

section Searches
variable {server : Server} {c : Nat}

theorem search_sound (sound : Sound server) (queue : Int) {tc : List (Option Nat)}
    (led : ∀ leader, tc.head? = some (some leader) →
      Live server leader ∧ Plays (server.fields leader).cclass) :
    Sound (anongameSearch server c queue tc) := by
  let fields := (anongameSearch server c queue tc).fields
  have own : fields c = { server.fields c with
      anongame := some { (server.fields c).anongame.getD newAnongame with queue, tc } } :=
    update_self _ _ _
  have other {d : Nat} (apart : d ≠ c) : fields d = server.fields d := update_of_ne apart _ _
  have classes (d : Nat) : (fields d).cclass = (server.fields d).cclass := by
    by_cases same : d = c
    · rw [same, own]
    · rw [other same]
  change Sound { server with fields, infos := server.infos }
  refine sound.of_fields classes
    (sound.intact.routed.of_routes fun d => ?_) (fun d a leader alive game first => ?_)
    (sound.intact.matched.of_places fun d => ?_)
  · by_cases same : d = c
    · rw [same, own]
    · rw [other same]
  · have known : Live server leader ∧ Plays (server.fields leader).cclass := by
      by_cases same : d = c
      · rw [same, own, some.injEq] at game
        rw [← game] at first
        exact led leader first
      · rw [other same] at game
        exact sound.intact.teamed d a leader alive game first
    rw [classes]
    exact known
  · by_cases same : d = c
    · rw [same, own, placeOf, placeOf]
      cases (server.fields c).anongame <;> rfl
    · rw [other same]

end Searches

section Matches
variable {server : Server}

theorem seat_spec (info place : Nat) (players : List Nat) (fields : Nat → Fields)
    (distinct : players.Nodup) (d : Nat) : seat info place players fields d =
      if d ∈ players then playsAt info (place + players.idxOf d) (fields d) else fields d := by
  induction players generalizing place fields with
  | nil => rfl
  | cons c rest ih =>
    obtain ⟨outside, others⟩ := nodup_cons.mp distinct
    rw [seat, ih (place + 1) _ others]
    by_cases same : d = c
    · subst same
      rw [if_neg outside, if_pos mem_cons_self, idxOf_cons_self, update_self]
      rfl
    rw [update_of_ne same, idxOf_cons_ne _ (Ne.symm same)]
    by_cases member : d ∈ rest
    · rw [if_pos member, if_pos (mem_cons_of_mem c member)]
      congr 1
      omega
    · rw [if_neg member, if_neg fun either => (mem_cons.mp either).elim same member]

def matchOf (players : List Nat) : Anongameinfo := ⟨players.length, players.length,
  players.map some ++ replicate (anongameMaxGamecount - players.length) none⟩

/-- Everybody is there once and searches, and nobody is in a match. -/
structure Unmatched (server : Server) (players : List Nat) : Prop where
  distinct : players.Nodup
  alive : ∀ c ∈ players, Live server c
  searches : ∀ c ∈ players, ∃ a, (server.fields c).anongame = some a ∧ a.info = none

variable {players : List Nat}

theorem match_player (distinct : players.Nodup) (i c : Nat) :
    (matchOf players).player[i]? = some (some c) ↔ c ∈ players ∧ players.idxOf c = i := by
  have place : (matchOf players).player[i]? = some (some c) ↔ players[i]? = some c := by
    rw [matchOf, getElem?_append]
    split
    · simp
    rename_i beyond
    rw [length_map] at beyond
    rw [getElem?_replicate, getElem?_eq_none (Nat.not_lt.mp beyond)]
    split <;> simp
  rw [place]
  constructor
  · intro there
    obtain ⟨inside, rfl⟩ := List.getElem?_eq_some_iff.mp there
    exact ⟨getElem_mem inside, distinct.idxOf_getElem i inside⟩
  · rintro ⟨member, rfl⟩
    exact getElem?_idxOf member

theorem match_counted (players : List Nat) :
    ((matchOf players).currentplayers : Int) = (matchOf players).player.countP isSome := by
  rw [matchOf, countP_append, countP_map, countP_replicate]
  have all : (isSome ∘ some : Nat → Bool) = fun _ => true := rfl
  rw [all, countP_true]
  simp

theorem found_sound (sound : Sound server) (unmatched : Unmatched server players) :
    Sound (anongameSearchFound server players) := by
  obtain ⟨distinct, lives, searches⟩ := unmatched
  let new := server.infos.allocated
  let fields := (anongameSearchFound server players).fields
  have seats (d : Nat) : fields d = if d ∈ players then
      playsAt new (0 + players.idxOf d) (server.fields d) else server.fields d :=
    seat_spec new 0 players server.fields distinct d
  have kept (d : Nat) : (fields d).cclass = (server.fields d).cclass ∧
      (fields d).routeconn = (server.fields d).routeconn := by
    rw [seats]
    split <;> exact ⟨rfl, rfl⟩
  let infos := (anongameSearchFound server players).infos
  have stored (address : Nat) : infos.get address =
      if address = new then some (matchOf players) else server.infos.get address :=
    Store.get_append _ _ _
  change Sound { server with fields, infos }
  refine sound.of_fields (fun d => (kept d).1)
    (sound.intact.routed.of_routes fun d => (kept d).2)
    (sound.intact.teamed.of_teams (fun d => (kept d).1) fun d a game => ?_)
    ⟨fun d a address alive game inMatch => ?_, fun address info i d present player => ?_,
      fun address info present => ?_, fun address info present => ?_⟩
  · rw [seats] at game
    split at game
    · obtain ⟨b, was, rfl⟩ := map_eq_some_iff.mp game
      exact ⟨b, was, rfl⟩
    · exact ⟨a, game, rfl⟩
  · rw [stored]
    by_cases member : d ∈ players
    · rw [seats, if_pos member] at game
      obtain ⟨b, was, rfl⟩ := map_eq_some_iff.mp game
      obtain rfl := some.inj inMatch
      refine ⟨matchOf players, if_pos rfl, Nat.succ_ne_zero _, ?_⟩
      rw [match_player distinct]
      exact ⟨member, by simp⟩
    · rw [seats, if_neg member] at game
      obtain ⟨info, present, place⟩ := sound.intact.matched.placed d a address alive game inMatch
      refine ⟨info, ?_, place⟩
      rw [if_neg, present]
      rintro rfl
      rw [Store.get_allocated] at present
      cases present
  · rw [stored] at present
    by_cases same : address = new
    · rw [if_pos same, some.injEq] at present
      rw [← present, match_player distinct] at player
      obtain ⟨member, place⟩ := player
      obtain ⟨a, game, -⟩ := searches d member
      refine ⟨lives d member, { a with info := some new, playernum := players.idxOf d + 1 }, ?_,
        congrArg some same.symm, congrArg (· + 1) place⟩
      rw [seats, if_pos member, playsAt, game, Nat.zero_add]
      rfl
    · rw [if_neg same] at present
      obtain ⟨alive, a, game, inMatch, number⟩ :=
        sound.intact.matched.back address info i d present player
      refine ⟨alive, a, ?_, inMatch, number⟩
      rw [seats, if_neg, game]
      intro member
      obtain ⟨b, was, free⟩ := searches d member
      rw [game, some.injEq] at was
      rw [← was, inMatch] at free
      cases free
  · rw [stored] at present
    split at present
    · rw [← some.inj present]
      exact match_counted players
    · exact sound.intact.matched.counted address info present
  · rw [stored] at present
    split at present
    · rw [← some.inj present, matchOf, length_append, length_map]
      exact Nat.le_add_right _ _
    · exact sound.intact.matched.size address info present

theorem leave_sound (env : Env) (sound : Sound server) {c : Nat} (alive : Live server c) :
    ∃ infos, connDestroyAnongame env server c =
        some { server with fields := outOfGame c server.fields, infos } ∧
      Sound { server with fields := outOfGame c server.fields, infos } := by
  obtain ⟨infos, leaves, matched⟩ :=
    destroy_anongame_spec env sound.intact.teamed sound.intact.matched alive
  have fewer := out_of_game_fewer c server.fields
  exact ⟨infos, leaves, sound.of_fields fewer.cclass
    (sound.intact.routed.of_routes fun d => (out_of_game_fields d).1)
    (sound.intact.teamed.fewer fewer) matched⟩

theorem cancel_members_sound (env : Env) (members : List (Option Nat)) (server : Server)
    (sound : Sound server) (alive : ∀ d, some d ∈ members → Live server d)
    (unrouted : ∀ d, some d ∈ members → (server.fields d).routeconn = none) :
    ∃ after, cancelMembers env server members = some after ∧ Sound after := by
  induction members generalizing server with
  | nil => exact ⟨server, rfl, sound⟩
  | cons first rest ih =>
    have later (d : Nat) (member : some d ∈ rest) : some d ∈ first :: rest :=
      mem_cons_of_mem first member
    cases first with
    | none =>
      exact ih server sound (fun d member => alive d (later d member))
        fun d member => unrouted d (later d member)
    | some member =>
      have there := alive member mem_cons_self
      have plain : setFields server member (withRoute none) = server := by
        have same : withRoute none (server.fields member) = server.fields member := by
          rw [withRoute, ← unrouted member mem_cons_self]
        rw [setFields, same, update_eq_self]
      obtain ⟨infos, leaves, kept⟩ := leave_sound env sound there
      obtain ⟨after, ran, still⟩ := ih _ kept (fun d member => alive d (later d member))
        fun d member => (out_of_game_fields d).1.trans (unrouted d (later d member))
      refine ⟨after, ?_, still⟩
      rw [cancelMembers, conn_edit_live there, plain, bind_eq_bind, bind_some, leaves, bind_some]
      exact ran

end Matches

section Routes
variable {server : Server} {c gamec : Nat}

def rerouted (c gamec : Nat) (fields : Nat → Fields) (d : Nat) : Fields :=
  if d = gamec then withRoute (some c) (fields d)
  else if d = c then withRoute (some gamec) (fields d)
  else parted gamec fields d

theorem rerouted_fields (fields : Nat → Fields) (d : Nat) :
    (rerouted c gamec fields d).cclass = (fields d).cclass ∧
      (rerouted c gamec fields d).anongame = (fields d).anongame := by
  rw [rerouted]
  split
  · exact ⟨rfl, rfl⟩
  · split
    · exact ⟨rfl, rfl⟩
    · exact parted_fields gamec d

def withRoutes (c gamec : Nat) (fields : Nat → Fields) : Nat → Fields :=
  let linked := update fields c (withRoute (some gamec) (fields c))
  update linked gamec (withRoute (some c) (linked gamec))

variable {fields : Nat → Fields}

theorem rerouted_written (apart : c ≠ gamec) (self : (fields gamec).routeconn ≠ some gamec) :
    withRoutes c gamec (parted gamec fields) = rerouted c gamec fields := by
  let linked := update (parted gamec fields) c
    (withRoute (some gamec) (parted gamec fields c))
  have first : linked c = withRoute (some gamec) (parted gamec fields c) := update_self _ _ _
  have others (d : Nat) (apart : d ≠ c) : linked d = parted gamec fields d := update_of_ne apart _ _
  change update linked gamec (withRoute (some c) (linked gamec)) = _
  funext d
  by_cases same : d = gamec
  · rw [same, update_self, rerouted, if_pos rfl]
    rw [others gamec (Ne.symm apart), parted, if_neg self]
  rw [update_of_ne same, rerouted, if_neg same]
  by_cases own : d = c
  · rw [own, first, if_pos rfl, parted]
    split <;> rfl
  · rw [others d own, if_neg own]

theorem rerouted_routed {live : Nat → Prop} (routed : Routed live fields) (here : live c)
    (there : live gamec) (apart : c ≠ gamec)
    (free : (fields c).routeconn = none ∨ (fields c).routeconn = some gamec) :
    Routed live (rerouted c gamec fields) := by
  constructor
  · intro d partner alive route
    rw [rerouted] at route
    by_cases game : d = gamec
    · rw [if_pos game, withRoute, some.injEq] at route
      rw [← route, rerouted, if_neg apart, if_pos rfl, game]
      exact ⟨here, rfl⟩
    rw [if_neg game] at route
    by_cases own : d = c
    · rw [if_pos own, withRoute, some.injEq] at route
      rw [← route, rerouted, if_pos rfl, own]
      exact ⟨there, rfl⟩
    rw [if_neg own, parted] at route
    split at route
    · cases route
    rename_i unlinked
    obtain ⟨lives, back⟩ := routed.back d partner alive route
    have notGame : partner ≠ gamec := by
      rintro rfl
      exact unlinked back
    have notOwn : partner ≠ c := by
      rintro rfl
      rcases free with none | linked
      · rw [none] at back
        cases back
      · rw [linked, some.injEq] at back
        exact game back.symm
    refine ⟨lives, ?_⟩
    rw [rerouted, if_neg notGame, if_neg notOwn, parted, if_neg, back]
    intro linked
    obtain ⟨-, same⟩ := routed.back gamec partner there linked
    rw [back, some.injEq] at same
    exact game same
  · intro d alive self
    rw [rerouted] at self
    by_cases game : d = gamec
    · rw [if_pos game, withRoute, some.injEq] at self
      exact apart (self.trans game)
    rw [if_neg game] at self
    by_cases own : d = c
    · rw [if_pos own, withRoute, some.injEq] at self
      exact game self.symm
    rw [if_neg own, parted] at self
    split at self
    · cases self
    · exact routed.apart d alive self

theorem drop_route_spec (sound : Sound server) (game : Live server gamec) :
    ∃ base, dropRoute server (server.fields gamec).routeconn =
        some { server with base, fields := parted gamec server.fields } ∧
      Sound { server with base } ∧ Live { server with base } = Live server := by
  cases route : (server.fields gamec).routeconn with
  | none =>
    rw [parted_none route]
    exact ⟨server.base, rfl, sound, rfl⟩
  | some oldc =>
    have partner := (sound.intact.routed.back gamec oldc game route).1
    obtain ⟨base, ran, kept, states, -⟩ :=
      set_state_sound sound partner .destroy (Or.inl (by decide))
    refine ⟨base, ?_, kept, ?_⟩
    · rw [dropRoute, conn_edit_live partner, parted_written route, bind_eq_bind,
        bind_some, connSetState, ran]
      rfl
    have known (held : RealmLinks.Server) (d : Nat) :
        (∃ conn, held.conns.get d = some conn) ↔ stateOf held d ≠ none := by
      rw [stateOf, ne_eq, map_eq_none_iff, ← ne_eq, ne_none_iff_exists']
    funext d
    rw [eq_iff_iff, Live, known, Live, known, states]
    by_cases same : d = oldc
    · rw [if_pos same, same]
      exact iff_of_true (by simp) ((known _ _).mp partner)
    · rw [if_neg same]

theorem route_sound (sound : Sound server) (alive : Live server c) (game : Live server gamec)
    (apart : c ≠ gamec)
    (free : (server.fields c).routeconn = none ∨ (server.fields c).routeconn = some gamec) :
    ∃ after, clientW3routeReq server c gamec = some after ∧ Sound after := by
  obtain ⟨base, drops, kept, lives⟩ := drop_route_spec sound game
  let linked (fields : Nat → Fields) : Server := { server with base, fields }
  have there (fields : Nat → Fields) {d : Nat} (alive : Live server d) :
      Live (linked fields) d := by
    rw [← lives] at alive
    exact alive
  refine ⟨linked (rerouted c gamec server.fields), ?_, kept.of_fields
    (fun d => (rerouted_fields _ d).1) ?_ ?_ ?_⟩
  · rw [clientW3routeReq, drops, bind_eq_bind, bind_some]
    rw [conn_edit_live (there _ alive), bind_some,
      ← rerouted_written apart (sound.intact.routed.apart gamec game)]
    exact conn_edit_live (there (update _ c _) game) _
  · rw [lives]
    exact rerouted_routed sound.intact.routed alive game apart free
  · refine kept.intact.teamed.of_teams (fun d => (rerouted_fields _ d).1) fun d a has => ?_
    rw [(rerouted_fields _ d).2] at has
    exact ⟨a, has, rfl⟩
  · exact kept.intact.matched.of_games fun d => (rerouted_fields _ d).2

end Routes

end Pvpgn.ConnectionGames
