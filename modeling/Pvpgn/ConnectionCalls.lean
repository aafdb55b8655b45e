import Pvpgn.ConnectionDestroy

/-!
The other calls that change connections keep the lists, as long as they keep the links between the
connections.
-/

namespace Pvpgn.ConnectionCalls
open ObjectList ObjectStore ConnectionArray ConnectionList ConnectionLinks ConnectionDestroy Option
open List Option Function
open ChannelMembers (ConnClass ConnState)
open RealmLinks (Linked Realm Same editConn editRealm inState onRealm realmActive realmGet realmOf
  realmPut)

structure Sound (server : Server) : Prop where
  intact : Intact server
  listed : Listed server

section States
variable {server : Server} {base : RealmLinks.Server} {c : Nat} {refs : Nat → List Nat}

theorem Sound.of_base (sound : Sound server) (linked : Linked none base refs)
    (dead : Dead none base) (numbers : ∀ c, numberOf base c = numberOf server.base c)
    (serving : Serving base server.fields) (unplaced : Unplaced base server.fields) :
    Sound { server with base } := by
  have lives : Live { server with base } = Live server := live_of_numbers numbers
  obtain ⟨intact, listed⟩ := sound
  refine ⟨⟨⟨refs, linked⟩, dead, serving, unplaced, ?_, ?_, ?_⟩, ⟨listed.nodup, fun d => ?_,
    listed.free, fun index d => ?_, listed.small⟩⟩
  · exact lives ▸ intact.routed
  · exact lives ▸ intact.teamed
  · exact lives ▸ intact.matched
  · rw [lives]
    exact listed.member d
  · rw [numbers]
    exact listed.held index d

variable {fields : Nat → Fields} {infos : Store Anongameinfo}

theorem Sound.of_links (sound : Sound server) (serving : Serving server.base fields)
    (unplaced : Unplaced server.base fields) (routed : Routed (Live server) fields)
    (teamed : Teamed (Live server) fields) (matched : Matched (Live server) fields infos) :
    Sound { server with fields, infos } := by
  obtain ⟨intact, listed⟩ := sound
  exact ⟨⟨intact.linked, intact.dead, serving, unplaced, routed, teamed, matched⟩,
    ⟨listed.nodup, listed.member, listed.free, listed.held, listed.small⟩⟩

theorem Sound.of_fields (sound : Sound server)
    (classes : ∀ c, (fields c).cclass = (server.fields c).cclass)
    (routed : Routed (Live server) fields) (teamed : Teamed (Live server) fields)
    (matched : Matched (Live server) fields infos) : Sound { server with fields, infos } :=
  sound.of_links (sound.intact.serving.of_same (fun _ => rfl) (fun _ => rfl) classes)
    (sound.intact.unplaced.of_same (fun _ => rfl) (fun _ => id) classes) routed teamed matched

theorem set_state_sound (sound : Sound server) (alive : Live server c) (state : ConnState)
    (early : state ≠ .connected ∨ (server.fields c).cclass ≠ .d2csBnetd) :
    ∃ base, RealmLinks.connSetState server.base c state = some base ∧ Sound { server with base } ∧
      (∀ d, stateOf base d = if d = c then some state else stateOf server.base d) ∧
      (∀ d, realmOf base d = realmOf server.base d) ∧ base.realms = server.base.realms := by
  obtain ⟨conn, there⟩ := alive
  obtain ⟨refs, linked⟩ := sound.intact.linked
  obtain ⟨base, ran, dead, conns, realms, -⟩ :=
    set_state_dead sound.intact.dead (by simp) there state
  obtain ⟨again, same, relinked, -, -, -, places⟩ :=
    RealmLinks.conn_set_state_spec linked there state
  obtain rfl := some.inj (ran.symm.trans same)
  have numbers (d : Nat) : numberOf base d = numberOf server.base d := by
    have edited := number_of_edit server.base c d state
    rw [numberOf, conns]
    exact edited
  have servers (realm : Nat) : serverOf base realm = serverOf server.base realm := by
    rw [serverOf, realms, serverOf]
  have states (d : Nat) : stateOf base d = if d = c then some state else stateOf server.base d := by
    have edited := state_of_edit server.base c d state
    rw [stateOf, editConn, there] at edited
    rw [stateOf, conns]
    exact edited
  refine ⟨base, ran, sound.of_base relinked dead numbers ?_ fun d realm pending => ?_, states,
    places, realms⟩
  · exact sound.intact.serving.of_same servers places fun _ => rfl
  rw [places]
  apply sound.intact.unplaced d realm
  rcases pending with first | other | ⟨serves, connected⟩
  · exact Or.inl first
  · exact Or.inr (Or.inl other)
  refine Or.inr (Or.inr ⟨serves, ?_⟩)
  rw [states] at connected
  by_cases same : d = c
  · rw [if_pos same, some.injEq] at connected
    exact early.elim (absurd connected) (absurd (same ▸ serves))
  · rwa [if_neg same] at connected

end States

section Creation
variable {server : Server}

theorem room_free (listed : Listed server)
    (room : server.base.conns.objects.length < server.connarray.entries.length) :
    ∃ index : Nat, server.connarray.entries[index]? = some none := by
  by_contra full
  have used : ∀ entry ∈ server.connarray.entries, entry ≠ none := by
    rintro entry member rfl
    obtain ⟨index, inside, there⟩ := mem_iff_getElem.mp member
    exact full ⟨index, List.getElem?_eq_some_iff.mpr ⟨inside, there⟩⟩
  obtain ⟨holders, all⟩ : ∃ holders : List Nat, server.connarray.entries = holders.map some := by
    generalize server.connarray.entries = entries at used
    induction entries with
    | nil => exact ⟨[], rfl⟩
    | cons entry rest ih =>
      obtain ⟨holders, same⟩ := ih fun other member => used other (mem_cons_of_mem _ member)
      obtain ⟨c, rfl⟩ := ne_none_iff_exists'.mp (used entry mem_cons_self)
      exact ⟨c :: holders, by rw [same, map_cons]⟩
  have place (index c : Nat) (there : holders[index]? = some c) :
      ∃ number, numberOf server.base c = some number ∧ number.toNat = index := by
    rw [← listed.held, all, getElem?_map, there]
    rfl
  have distinct : holders.Nodup := by
    rw [nodup_iff_getElem?_ne_getElem?]
    intro first second less inside same
    have there := getElem?_eq_getElem inside
    obtain ⟨number, is, one⟩ := place first _ (same.trans there)
    obtain ⟨other, too, two⟩ := place second _ there
    rw [is, some.injEq] at too
    subst too
    omega
  have inside : holders ⊆ addresses server.base.conns.objects := by
    intro c member
    obtain ⟨index, there⟩ := mem_iff_getElem?.mp member
    obtain ⟨number, is, -⟩ := place index c there
    obtain ⟨conn, alive, -⟩ := map_eq_some_iff.mp is
    exact (server.base.conns.get_listed c).mp ⟨conn, alive⟩
  have short := distinct.length_le_of_subset inside
  rw [all, length_map] at room
  rw [addresses, length_map] at short
  omega

theorem create_sound (sound : Sound server) (tsock usock : Int)
    (room : server.base.conns.objects.length < server.connarray.entries.length) :
    ∃ after, connCreate server tsock usock = some after ∧ Sound after := by
  rw [connCreate]
  split
  · exact ⟨server, rfl, sound⟩
  obtain ⟨intact, listed⟩ := sound
  obtain ⟨refs, linked⟩ := intact.linked
  obtain ⟨index, empty⟩ := room_free listed room
  let temp := server.base.conns.allocated
  obtain ⟨taken, connarray, added, unused, entries, free⟩ := add_conn_spec listed.free empty temp
  obtain ⟨inside, -⟩ := List.getElem?_eq_some_iff.mp unused
  have small := listed.small
  rw [UInt32.size] at small
  let after : Server := {
    base := RealmUse.connCreate server.base taken.toUInt32 tsock
    fields := update server.fields temp ⟨.init, false, none, none⟩
    infos := server.infos
    connHead := temp :: server.connHead
    connarray }
  have conns (d : Nat) : after.base.conns.get d = if d = temp then
      some ⟨taken.toUInt32, tsock, .initial, none⟩ else server.base.conns.get d :=
    Store.get_append _ d _
  have absent : server.base.conns.get temp = none := Store.get_allocated _
  have older (d : Nat) (alive : Live server d) : d ≠ temp := by
    rintro rfl
    obtain ⟨conn, there⟩ := alive
    rw [absent] at there
    cases there
  have lives (d : Nat) : Live after d ↔ d = temp ∨ Live server d := by
    rw [Live, conns, Live]
    by_cases new : d = temp <;> simp [new]
  have kept (d : Nat) (alive : Live server d) : after.fields d = server.fields d :=
    update_of_ne (older d alive) _ _
  have fresh : after.fields temp = ⟨.init, false, none, none⟩ := update_self _ _ _
  have still : Intact after := by
    refine ⟨⟨refs, RealmUse.linked_connect linked _ tsock (by omega)⟩, ⟨intact.dead.nodup, ?_⟩, ?_,
      ?_, intact.routed.grow lives kept (by rw [fresh]),
      intact.teamed.grow lives kept (by rw [fresh]), intact.matched.grow lives kept (by rw [fresh])⟩
    · intro d known
      have member := intact.dead.member d known
      rw [stateOf] at member
      rw [stateOf, conns]
      by_cases new : d = temp
      · subst new
        rw [absent] at member
        exact iff_of_false (fun listed => by cases member.mp listed) (by simp)
      · rw [if_neg new]
        exact member
    · intro realm d serves
      obtain ⟨placed, cclass⟩ := intact.serving realm d serves
      obtain ⟨conn, there, -⟩ := map_eq_some_iff.mp placed
      have alive : Live server d := ⟨conn, there⟩
      rw [realmOf, conns, if_neg (older d alive), kept d alive]
      exact ⟨placed, cclass⟩
    · intro d realm pending here
      have alive : Live server d := by
        have known := (lives d).mp ((map_eq_some_iff.mp here).imp fun _ both => both.1)
        refine known.resolve_left fun new => ?_
        rw [realmOf, conns, if_pos new] at here
        cases here
      rw [realmOf, conns, if_neg (older d alive)] at here
      rw [stateOf, conns, if_neg (older d alive), kept d alive] at pending
      exact intact.unplaced d realm pending here
  refine ⟨after, ?_, still, ?_, fun d => ?_, free, fun place d => ?_, ?_⟩
  · change (connarrayAddConn server.connarray temp).bind _ = _
    rw [added]
    rfl
  · refine nodup_cons.mpr ⟨fun member => ?_, listed.nodup⟩
    exact older temp ((listed.member temp).mp member) rfl
  · rw [lives, ← listed.member]
    exact mem_cons
  · have held := listed.held place d
    rw [numberOf] at held ⊢
    have same : after.connarray.entries = server.connarray.entries.set taken (some temp) := entries
    rw [same, conns, getElem?_set]
    have number : taken.toUInt32.toNat = taken := by
      rw [Nat.toUInt32, UInt32.toNat_ofNat']
      omega
    by_cases here : taken = place
    · subst here
      rw [if_pos rfl, if_pos inside]
      by_cases new : d = temp
      · simp [new, number]
      · rw [if_neg new, ← held, unused]
        simp [Ne.symm new]
    · rw [if_neg here]
      by_cases new : d = temp
      · subst new
        rw [held, absent, if_pos rfl]
        simp [number, here]
      · rw [if_neg new]
        exact held
  · have same : after.connarray.entries = server.connarray.entries.set taken (some temp) := entries
    rw [same, length_set]
    exact listed.small

end Creation

section Realms
variable {server : Server} {base after : RealmLinks.Server} {c : Nat}

variable {found : Realm} {place : Option Nat} {realm : Nat}

theorem set_realm_kept (ran : RealmLinks.connSetRealm base c place = some after) :
    after.connDead = base.connDead ∧ (∀ d, stateOf after d = stateOf base d) ∧
      ∀ d, numberOf after d = numberOf base d := by
  obtain ⟨conn, -, ran⟩ := bind_eq_some_iff.mp ran
  obtain ⟨put, left, entered⟩ := bind_eq_some_iff.mp ran
  have quits : put.conns = base.conns ∧ put.connDead = base.connDead := by
    cases old : conn.realm with
    | none =>
      rw [old] at left
      obtain rfl := some.inj left
      exact ⟨rfl, rfl⟩
    | some realm =>
      rw [old] at left
      exact put_kept left
  have enters : after.conns = base.conns.edit c (onRealm place) ∧
      after.connDead = base.connDead := by
    rw [← quits.1, ← quits.2]
    cases place with
    | none =>
      obtain rfl := some.inj entered
      exact ⟨rfl, rfl⟩
    | some realm =>
      obtain ⟨got, gets, entered⟩ := bind_eq_some_iff.mp entered
      obtain ⟨found, -, gets⟩ := bind_eq_some_iff.mp gets
      obtain rfl := some.inj gets
      obtain rfl := some.inj entered
      exact ⟨rfl, rfl⟩
  refine ⟨enters.2, fun d => ?_, fun d => ?_⟩
  · rw [stateOf, enters.1, Store.get_edit, stateOf]
    split
    · rw [Option.map_map]
      rfl
    · rfl
  · rw [numberOf, enters.1, Store.get_edit, numberOf]
    split
    · rw [Option.map_map]
      rfl
    · rfl

theorem place_spec {refs : Nat → List Nat} {conn : RealmLinks.Connection}
    (linked : Linked none base refs) (dead : Dead none base) (there : base.conns.get c = some conn)
    (target : ∀ new, place = some new → ∃ found, base.realms.get new = some found) :
    ∃ after moved, RealmLinks.connSetRealm base c place = some after ∧ Linked none after moved ∧
      Dead none after ∧ (∀ d, numberOf after d = numberOf base d) ∧
      (∀ d, stateOf after d = stateOf base d) ∧
      (∀ realm, serverOf after realm = serverOf base realm) ∧
      ∀ d, realmOf after d = if d = c then some place else realmOf base d := by
  obtain ⟨after, moved, ran, relinked, same, places⟩ :=
    RealmLinks.conn_set_realm_spec linked there target
  obtain ⟨connDead, states, numbers⟩ := set_realm_kept ran
  refine ⟨after, moved, ran, relinked, ⟨connDead ▸ dead.nodup, fun d known => ?_⟩, numbers, states,
    same_server_of same, places⟩
  rw [connDead, states]
  exact dead.member d known

theorem set_realm_sound (sound : Sound server) (alive : Live server c)
    (player : (server.fields c).cclass = .bnet)
    (target : ∀ new, place = some new → ∃ found, server.base.realms.get new = some found) :
    ∃ after, connSetRealm server c place = some after ∧ Sound after := by
  obtain ⟨conn, there⟩ := alive
  obtain ⟨refs, linked⟩ := sound.intact.linked
  obtain ⟨base, moved, ran, relinked, dead, numbers, states, servers, places⟩ :=
    place_spec linked sound.intact.dead there target
  refine ⟨{ server with base }, by rw [connSetRealm, ran]; rfl,
    sound.of_base relinked dead numbers (fun realm d serves => ?_) fun d realm pending => ?_⟩
  · rw [servers] at serves
    obtain ⟨placed, cclass⟩ := sound.intact.serving realm d serves
    have apart : d ≠ c := by
      rintro rfl
      rw [player] at cclass
      cases cclass
    rw [places, if_neg apart]
    exact ⟨placed, cclass⟩
  · have apart : d ≠ c := by
      rintro rfl
      rw [player] at pending
      simp [Pending] at pending
    rw [places, if_neg apart]
    rw [states] at pending
    exact sound.intact.unplaced d realm pending

theorem deactive_active (present : base.realms.get realm = some found) :
    RealmLinks.deactiveActive base realm = RealmLinks.realmDeactive base realm := by
  rw [RealmLinks.deactiveActive, present, bind_eq_bind, bind_some]
  by_cases idle : found.active = 0
  · rw [if_pos idle, RealmLinks.realmDeactive, present, bind_eq_bind, bind_some, if_pos idle]
  · rw [if_neg idle]

theorem realm_active_spec {fields : Nat → Fields} {refs : Nat → List Nat}
    (linked : Linked none base refs) (dead : Dead none base) (serving : Serving base fields)
    (home : realmOf base c = some none) (present : base.realms.get realm = some found) :
    ∃ after moved, realmActive base realm c = some after ∧ Linked none after moved ∧
      Dead none after ∧ (∀ d, numberOf after d = numberOf base d) ∧
      (∀ d, stateOf after d = some .connected → stateOf base d = some .connected) ∧
      (∀ other, serverOf after other =
        if other = realm then some c else serverOf base other) ∧
      ∀ d, realmOf after d = if d = c then some (some realm) else realmOf base d := by
  obtain ⟨quiet, stops, stopped, quietDead, numbers, places, settles, ⟨now, still⟩, servers, -⟩ :=
    close_realm_spec linked dead serving present
  let serve : Realm → Realm := fun found => { found with active := 1, conn := some c }
  have edited (other : Nat) : (editRealm quiet realm serve).realms.get other =
      if other = realm then (quiet.realms.get other).map serve else quiet.realms.get other :=
    Store.get_edit _ _ _ _
  have taken : Linked none (editRealm quiet realm serve) refs := by
    refine stopped.of_realms fun other => ?_
    rw [Store.get_edit]
    split
    · rw [Option.map_map]
      rfl
    · rfl
  have takenServers (other : Nat) : serverOf (editRealm quiet realm serve) other =
      if other = realm then some c else serverOf base other := by
    rw [serverOf, edited]
    by_cases same : other = realm
    · rw [if_pos same, if_pos same, same, still]
      rfl
    · rw [if_neg same, if_neg same, ← serverOf, servers, if_neg same]
  have takenPlaces (d : Nat) : realmOf (editRealm quiet realm serve) d = realmOf base d := by
    rw [realmOf, RealmLinks.edit_realm_conns, ← realmOf, places]
  obtain ⟨object, alive, -⟩ := map_eq_some_iff.mp ((takenPlaces c).trans home)
  have target (new : Nat) (same : some realm = some new) :
      ∃ found, (editRealm quiet realm serve).realms.get new = some found := by
    rw [edited, ← some.inj same, if_pos rfl, still]
    exact ⟨_, rfl⟩
  obtain ⟨placed, moved, enters, relinked, placedDead, placedNumbers, states, placedServers,
    seats⟩ := place_spec taken (quietDead.of_conns rfl rfl) alive target
  have seated := seats c
  rw [if_pos rfl] at seated
  obtain ⟨last, ends, -⟩ := map_eq_some_iff.mp seated
  let number : Realm → Realm := fun found =>
    { found with sessionnum := last.sessionnum, tcpSock := last.tcpSock }
  refine ⟨editRealm placed realm number, moved, ?_, relinked.of_realms fun other => ?_,
    placedDead.of_conns rfl rfl, fun d => (placedNumbers d).trans (numbers d),
    fun d connected => ?_, fun other => ?_, fun d => ?_⟩
  · simp only [realmActive, deactive_active present, stops, bind_eq_bind, bind_some]
    rw [enters, bind_some, ends, bind_some]
  · rw [Store.get_edit]
    split
    · rw [Option.map_map]
      rfl
    · rfl
  · have before : stateOf placed d = some .connected := connected
    rw [states] at before
    exact settles d before
  · rw [server_of_edit realm other number (fun _ => rfl) (fun _ => rfl), placedServers,
      takenServers]
  · rw [realmOf, RealmLinks.edit_realm_conns, ← realmOf, seats, takenPlaces]

theorem authreply_sound (sound : Sound server) (serves : (server.fields c).cclass = .d2csBnetd)
    (connected : stateOf server.base c = some .connected)
    (present : server.base.realms.get realm = some found) :
    ∃ after, onD2csAuthreply server realm c = some after ∧ Sound after := by
  obtain ⟨conn, there, -⟩ := map_eq_some_iff.mp connected
  have home : realmOf server.base c = some none := by
    have unplaced := sound.intact.unplaced c
    rw [realmOf, there, map_some] at unplaced ⊢
    cases place : conn.realm with
    | none => rfl
    | some other =>
      rw [place] at unplaced
      exact absurd rfl (unplaced other (Or.inr (Or.inr ⟨serves, connected⟩)))
  obtain ⟨ready, logs, kept, states, places, realms⟩ :=
    set_state_sound sound ⟨conn, there⟩ .loggedin (Or.inl (by decide))
  obtain ⟨refs, linked⟩ := kept.intact.linked
  obtain ⟨after, moved, active, relinked, dead, numbers, settles, servers, seats⟩ :=
    realm_active_spec linked kept.intact.dead kept.intact.serving ((places c).trans home)
      ((congrArg (Store.get · realm) realms).trans present)
  refine ⟨{ server with base := after }, ?_, kept.of_base relinked dead numbers
    (fun other d serving => ?_) fun d other pending => ?_⟩
  · simp only [onD2csAuthreply, connSetState, logs, onBase, map_some, bind_eq_bind,
      bind_some, active]
  · rw [servers] at serving
    rw [seats]
    by_cases same : other = realm
    · rw [if_pos same, some.injEq] at serving
      rw [if_pos serving.symm, same, ← serving]
      exact ⟨rfl, serves⟩
    rw [if_neg same] at serving
    obtain ⟨before, cclass⟩ := kept.intact.serving other d serving
    have apart : d ≠ c := by
      rintro rfl
      rw [places, home] at before
      cases before
    rw [if_neg apart]
    exact ⟨before, cclass⟩
  · have before : Pending (server.fields d).cclass (stateOf ready d) :=
      pending.imp_right (Or.imp_right fun both => ⟨both.1, settles d both.2⟩)
    have apart : d ≠ c := by
      rintro rfl
      rw [serves, states, if_pos rfl] at before
      simp [Pending] at before
    rw [seats, if_neg apart]
    exact kept.intact.unplaced d other before

end Realms

section Accounts
variable {server : Server} {c : Nat}

theorem output_sound (sound : Sound server) (alive : Live server c) (outqueue : Bool) :
    ∃ after, connEdit server c (fun conn => { conn with outqueue }) = some after ∧ Sound after := by
  let fields := (setFields server c fun conn => { conn with outqueue }).fields
  have kept (d : Nat) : (fields d).cclass = (server.fields d).cclass ∧
      (fields d).routeconn = (server.fields d).routeconn ∧
      (fields d).anongame = (server.fields d).anongame := by
    by_cases same : d = c
    · have here : fields d = { server.fields d with outqueue } := by
        rw [same]
        exact update_self _ _ _
      rw [here]
      exact ⟨rfl, rfl, rfl⟩
    · have other : fields d = server.fields d := update_of_ne same _ _
      rw [other]
      exact ⟨rfl, rfl, rfl⟩
  refine ⟨{ server with fields }, conn_edit_live alive _, sound.of_fields (fun d => (kept d).1)
    (sound.intact.routed.of_routes fun d => (kept d).2.1)
    (sound.intact.teamed.of_teams (fun d => (kept d).1) fun d a game => ?_)
    (sound.intact.matched.of_games fun d => (kept d).2.2)⟩
  rw [(kept d).2.2] at game
  exact ⟨a, game, rfl⟩

theorem set_class_sound (sound : Sound server) (alive : Live server c) (cclass : ConnClass)
    (new : (server.fields c).cclass = .init ∨ (server.fields c).cclass = .ircinit) :
    ∃ after, connEdit server c (fun conn => { conn with cclass }) = some after ∧ Sound after := by
  let fields := (setFields server c fun conn => { conn with cclass }).fields
  have own : fields c = { server.fields c with cclass } := update_self _ _ _
  have other {d : Nat} (apart : d ≠ c) : fields d = server.fields d := update_of_ne apart _ _
  have kept (d : Nat) : (fields d).routeconn = (server.fields d).routeconn ∧
      (fields d).anongame = (server.fields d).anongame := by
    by_cases same : d = c
    · rw [same, own]
      exact ⟨rfl, rfl⟩
    · rw [other same]
      exact ⟨rfl, rfl⟩
  refine ⟨{ server with fields }, conn_edit_live alive _, sound.of_links (fun realm d serves => ?_)
    (fun d realm pending => ?_) (sound.intact.routed.of_routes fun d => (kept d).1)
    (fun d a leader there game first => ?_) (sound.intact.matched.of_games fun d => (kept d).2)⟩
  · obtain ⟨placed, serving⟩ := sound.intact.serving realm d serves
    have apart : d ≠ c := by
      rintro rfl
      rw [serving] at new
      simp at new
    exact ⟨placed, by rw [other apart, serving]⟩
  · by_cases same : d = c
    · rw [same]
      exact sound.intact.unplaced c realm (new.imp_right Or.inl)
    · rw [other same] at pending
      exact sound.intact.unplaced d realm pending
  · rw [(kept d).2] at game
    obtain ⟨lives, plays⟩ := sound.intact.teamed d a leader there game first
    have apart : leader ≠ c := by
      rintro rfl
      rcases new with fresh | fresh
      · exact plays.1 fresh
      · exact plays.2.1 fresh
    exact ⟨lives, by rwa [other apart]⟩

theorem set_state_plain {base : RealmLinks.Server} {state : ConnState}
    (stays : stateOf base c ≠ some .destroy) (alive : ∃ conn, base.conns.get c = some conn)
    (lives : state ≠ .destroy) :
    RealmLinks.connSetState base c state = some (editConn base c (inState state)) := by
  obtain ⟨conn, there⟩ := alive
  have was : conn.state ≠ .destroy := by
    intro dying
    rw [stateOf, there, map_some, dying] at stays
    exact stays rfl
  rw [RealmLinks.connSetState, there, bind_eq_bind, bind_some]
  rw [if_neg fun both => lives both.1, if_neg fun both => was both.2]

theorem login_sound (sound : Sound server) (alive : Live server c) {other : Option Nat}
    (known : ∀ d, other = some d → Live server d) (stays : stateOf server.base c ≠ some .destroy)
    (apart : other ≠ some c) :
    ∃ after, connSetAccount server c other = some after ∧ Sound after := by
  have out : ∃ base, logOut server other = some { server with base } ∧ Sound { server with base } ∧
      stateOf base c = stateOf server.base c := by
    cases other with
    | none => exact ⟨server.base, rfl, sound, rfl⟩
    | some d =>
      obtain ⟨base, ran, kept, states, -⟩ :=
        set_state_sound sound (known d rfl) .destroy (Or.inl (by decide))
      refine ⟨base, by rw [logOut, connSetState, ran]; rfl, kept, ?_⟩
      rw [states, if_neg]
      rintro rfl
      exact apart rfl
  obtain ⟨base, ran, kept, same⟩ := out
  have there : Live { server with base } c := by
    obtain ⟨conn, there⟩ := alive
    have known : stateOf base c = some conn.state := by rw [same, stateOf, there]; rfl
    obtain ⟨object, found, -⟩ := map_eq_some_iff.mp known
    exact ⟨object, found⟩
  obtain ⟨after, sets, still, -⟩ := set_state_sound kept there .loggedin (Or.inl (by decide))
  rw [set_state_plain (same ▸ stays) there (by decide)] at sets
  obtain rfl := some.inj sets
  exact ⟨_, by rw [connSetAccount, ran]; rfl, still⟩

end Accounts

end Pvpgn.ConnectionCalls
