import Pvpgn.ReferenceChange
import Pvpgn.ChannelMembers

/-!
The realms of bnetd, the connections that are placed on them and the connections to their servers. A
use of a realm or a connection that is not allocated any more is a fault, `none`.
-/

namespace Pvpgn.RealmLinks
open Stdio EmbeddedList ObjectList ObjectStore ReferenceChange List Option Function
open ChannelMembers (ConnState)

structure Realm where
  name : Text
  description : Text
  ip : UInt32
  port : UInt16
  conn : Option Nat
  active : UInt32
  playerNumber : UInt32
  gameNumber : UInt32
  sessionnum : UInt32
  tcpSock : Int
  rcm : Rcm

structure Connection where
  sessionnum : UInt32
  tcpSock : Int
  state : ConnState
  realm : Option Nat

structure Server where
  realms : Store Realm
  conns : Store Connection
  connDead : List Nat
  realmlistHead : Option (List Nat)

structure Entry where
  name : Text
  description : Text
  ip : UInt32
  port : UInt16

/-- `LIST_TRAVERSE` has no turn for a list that is NULL. -/
def realmlist (server : Server) : List Nat := server.realmlistHead.getD []

def editRealm (server : Server) (realm : Nat) (change : Realm → Realm) : Server :=
  { server with realms := server.realms.edit realm change }

def editConn (server : Server) (c : Nat) (change : Connection → Connection) : Server :=
  { server with conns := server.conns.edit c change }

def setRcm (rcm : Rcm) (realm : Realm) : Realm := { realm with rcm }

def onRealm (realm : Option Nat) (conn : Connection) : Connection := { conn with realm }

def inState (state : ConnState) (conn : Connection) : Connection := { conn with state }

def realmGet (server : Server) (realm regref : Nat) : Option Server := do
  let found ← server.realms.get realm
  some (editRealm server realm (setRcm (rcmGet found.rcm regref)))

def realmPut (server : Server) (realm regref : Nat) : Option Server := do
  let found ← server.realms.get realm
  let rcm ← rcmPut found.rcm regref
  some (editRealm server realm (setRcm rcm))

def connSetState (server : Server) (c : Nat) (state : ConnState) : Option Server := do
  let conn ← server.conns.get c
  let marked := editConn server c (inState state)
  if state = .destroy ∧ conn.state ≠ .destroy then
    some { marked with connDead := server.connDead ++ [c] }
  else if state ≠ .destroy ∧ conn.state = .destroy then
    if c ∈ server.connDead then some { marked with connDead := server.connDead.erase c }
    else some server
  else some marked

def leaveRealm (server : Server) (c : Nat) : Option Nat → Option Server
  | none => some server
  | some old => realmPut server old c

def enterRealm (server : Server) (c : Nat) : Option Nat → Option Server
  | none => some (editConn server c (onRealm none))
  | some new => do
    let server ← realmGet server new c
    some (editConn server c (onRealm (some new)))

def connSetRealm (server : Server) (c : Nat) (realm : Option Nat) : Option Server := do
  let conn ← server.conns.get c
  let server ← leaveRealm server c conn.realm
  enterRealm server c realm

/-- The connection must have a realm. Players on unconfigured realms are closed. -/
def connSetRealmCb (newref : Option Nat) (c : Nat) (server : Server) : Option Server := do
  let conn ← server.conns.get c
  let old ← conn.realm
  let server ← realmPut server old c
  match newref with
  | some new => enterRealm server c (some new)
  | none => do
    let server ← connSetState server c .destroy
    enterRealm server c none

/-- `rcm_chref(&realm->rcm, newref)` -/
def realmChref (server : Server) (realm : Nat) (newref : Option Nat) : Option Server :=
  rcmChref (fun server => (server.realms.get realm).map Realm.rcm) (connSetRealmCb newref)
    server.conns.objects.length server

def deactivated (realm : Realm) : Realm := { realm with active := 0, sessionnum := 0, tcpSock := 0 }

def destroyConn (server : Server) : Option Nat → Option Server
  | none => some server
  | some c => connSetState server c .destroy

def realmDeactive (server : Server) (realm : Nat) : Option Server := do
  let found ← server.realms.get realm
  if found.active = 0 then some server
  else do
    let server ← destroyConn server found.conn
    some (editRealm server realm deactivated)

/-- `if (realm->active) realm_deactive(realm)` -/
def deactiveActive (server : Server) (realm : Nat) : Option Server := do
  let found ← server.realms.get realm
  if found.active = 0 then some server else realmDeactive server realm

def realmActive (server : Server) (realm c : Nat) : Option Server := do
  let server ← deactiveActive server realm
  let server := editRealm server realm fun found => { found with active := 1, conn := some c }
  let server ← connSetRealm server c (some realm)
  let conn ← server.conns.get c
  some (editRealm server realm fun found =>
    { found with sessionnum := conn.sessionnum, tcpSock := conn.tcpSock })

def realmDestroy (server : Server) (realm : Nat) : Option Server := do
  let server ← deactiveActive server realm
  some { server with realms := server.realms.free realm }

def realmAddPlayerNumber (server : Server) (realm : Nat) (number : Int32) : Option Server := do
  let _ ← server.realms.get realm
  some (editRealm server realm fun found =>
    { found with playerNumber := found.playerNumber + number.toUInt32 })

def realmAddGameNumber (server : Server) (realm : Nat) (number : Int32) : Option Server := do
  let _ ← server.realms.get realm
  some (editRealm server realm fun found =>
    { found with gameNumber := found.gameNumber + number.toUInt32 })

/-- The references to each realm, in order: a realm counts and links the connections that are placed
on it, and no connection is placed on a realm that is gone. The spare connection is between two
realms. -/
structure Linked (spare : Option Nat) (server : Server) (refs : Nat → List Nat) : Prop where
  counted : ∀ realm found, server.realms.get realm = some found → Counted found.rcm (refs realm)
  placed : ∀ c realm, c ∈ refs realm ↔
    spare ≠ some c ∧ ∃ conn, server.conns.get c = some conn ∧ conn.realm = some realm
  there : ∀ c realm, c ∈ refs realm → ∃ found, server.realms.get realm = some found
  -- each connection has a descriptor of its own, which is an `int`
  few : server.conns.objects.length < 2 ^ 32

/-- The connection to the server of an active realm is not gone. -/
def Attended (server : Server) (found : Realm) : Prop :=
  found.active ≠ 0 → ∀ c, found.conn = some c → ∃ conn, server.conns.get c = some conn

def realmOf (server : Server) (c : Nat) : Option (Option Nat) :=
  (server.conns.get c).map Connection.realm

structure Same (server after : Server) : Prop where
  realms : ∀ realm, (after.realms.get realm).map (setRcm rcmInit) =
    (server.realms.get realm).map (setRcm rcmInit)
  conns : addresses after.conns.objects = addresses server.conns.objects
  head : after.realmlistHead = server.realmlistHead

theorem same_refl (server : Server) : Same server server := ⟨fun _ => rfl, rfl, rfl⟩

theorem Same.trans {server middle after : Server} (first : Same server middle)
    (second : Same middle after) : Same server after :=
  ⟨fun realm => (second.realms realm).trans (first.realms realm), second.conns.trans first.conns,
    second.head.trans first.head⟩

@[simp] theorem edit_conn_realms (server : Server) (c : Nat) (change : Connection → Connection) :
    (editConn server c change).realms = server.realms := rfl

@[simp] theorem edit_realm_conns (server : Server) (realm : Nat) (change : Realm → Realm) :
    (editRealm server realm change).conns = server.conns := rfl

theorem same_edit_conn (server : Server) (c : Nat) (change : Connection → Connection) :
    Same server (editConn server c change) :=
  ⟨fun _ => rfl, Store.addresses_edit _ _ _, rfl⟩

theorem same_set_rcm (server : Server) (realm : Nat) (rcm : Rcm) :
    Same server (editRealm server realm (setRcm rcm)) := by
  refine ⟨fun other => ?_, rfl, rfl⟩
  rw [editRealm, Store.get_edit]
  by_cases same : other = realm
  · rw [if_pos same, Option.map_map]
    rfl
  · rw [if_neg same]

section Objects
variable {server : Server} {refs : Nat → List Nat} {spare : Option Nat} {c realm : Nat}
  {conn : Connection} {found : Realm}

theorem Linked.nodup (linked : Linked spare server refs) (realm : Nat) : (refs realm).Nodup := by
  cases list : refs realm with
  | nil => exact nodup_nil
  | cons c rest =>
    obtain ⟨found, present⟩ := linked.there c realm (by rw [list]; exact mem_cons_self)
    rw [← list]
    exact (linked.counted realm found present).ring.nodup

theorem Linked.room (linked : Linked spare server refs) (alive : server.conns.get c = some conn)
    (outside : c ∉ refs realm) : (refs realm).length + 1 < 2 ^ 32 := by
  have inside : c :: refs realm ⊆ addresses server.conns.objects := by
    intro other member
    rcases mem_cons.mp member with rfl | placed
    · exact (server.conns.get_listed _).mp ⟨conn, alive⟩
    · obtain ⟨_, conn, present, _⟩ := (linked.placed other realm).mp placed
      exact (server.conns.get_listed other).mp ⟨conn, present⟩
  have short := (nodup_cons.mpr ⟨outside, linked.nodup realm⟩).length_le_of_subset inside
  have few := linked.few
  simp only [addresses, length_cons, length_map] at short
  omega

theorem Linked.of_realms {realms : Store Realm} (linked : Linked spare server refs)
    (kept : ∀ realm, (realms.get realm).map Realm.rcm = (server.realms.get realm).map Realm.rcm) :
    Linked spare { server with realms } refs := by
  refine ⟨fun realm found present => ?_, linked.placed, fun c realm member => ?_, linked.few⟩
  · have same := kept realm
    rw [present] at same
    obtain ⟨old, before, rcm⟩ := map_eq_some_iff.mp same.symm
    rw [← rcm]
    exact linked.counted realm old before
  · obtain ⟨old, before⟩ := linked.there c realm member
    have same := kept realm
    rw [before] at same
    obtain ⟨found, present, _⟩ := map_eq_some_iff.mp same
    exact ⟨found, present⟩

variable {newref : Option Nat} {after : Server} {place : Option Nat}

theorem Linked.of_conns (linked : Linked spare server refs) (realms : after.realms = server.realms)
    (kept : ∀ c, realmOf after c = realmOf server c)
    (listed : addresses after.conns.objects = addresses server.conns.objects) :
    Linked spare after refs := by
  have seat (held : Server) (c realm : Nat) : (∃ conn, held.conns.get c = some conn ∧
      conn.realm = some realm) ↔ realmOf held c = some (some realm) := by
    rw [realmOf, map_eq_some_iff]
  refine ⟨?_, fun c realm => ?_, ?_, ?_⟩
  · rw [realms]
    exact linked.counted
  · rw [linked.placed, seat, seat, kept]
  · rw [realms]
    exact linked.there
  · have same := congrArg length listed
    simp only [addresses, length_map] at same
    rw [same]
    exact linked.few

theorem realm_of_edit (server : Server) (c other : Nat) (change : Connection → Connection) :
    realmOf (editConn server c change) other = if other = c then
      ((server.conns.get c).map fun conn => (change conn).realm) else realmOf server other := by
  rw [realmOf, editConn, Store.get_edit]
  by_cases same : other = c
  · subst same
    rw [if_pos rfl, if_pos rfl, Option.map_map]
    rfl
  · rw [if_neg same, if_neg same]
    rfl

theorem spare_outside (linked : Linked (some c) server refs) : c ∉ refs realm := fun member =>
  ((linked.placed c realm).mp member).1 rfl

theorem realm_put_spec (linked : Linked none server refs)
    (here : realmOf server c = some (some realm)) :
    ∃ after, realmPut server realm c = some after ∧ Same server after ∧ after.conns = server.conns ∧
      Linked (some c) after (update refs realm ((refs realm).erase c)) := by
  obtain ⟨conn, alive, onIt⟩ := map_eq_some_iff.mp here
  have member : c ∈ refs realm := (linked.placed c realm).mpr ⟨by simp, conn, alive, onIt⟩
  obtain ⟨found, present⟩ := linked.there c realm member
  obtain ⟨rcm, ran, counted⟩ := (linked.counted realm found present).put member
  refine ⟨editRealm server realm (setRcm rcm), ?_, same_set_rcm server realm rcm, rfl, ?_⟩
  · rw [realmPut, present, bind_eq_bind, bind_some, ran]
    rfl
  refine ⟨fun other object still => ?_, fun other place => ?_, fun other place inside => ?_,
    linked.few⟩
  · rw [editRealm, Store.get_edit] at still
    by_cases same : other = realm
    · rw [if_pos same, same, present] at still
      obtain rfl := some.inj still
      rw [same, update_self]
      exact counted
    · rw [if_neg same] at still
      rw [update_of_ne same]
      exact linked.counted other object still
  · by_cases same : place = realm
    · subst same
      rw [update_self, (linked.nodup place).mem_erase_iff, linked.placed]
      simp [eq_comm]
    rw [update_of_ne same, linked.placed]
    refine ⟨fun ⟨_, seat⟩ => ⟨?_, seat⟩, fun ⟨_, seat⟩ => ⟨by simp, seat⟩⟩
    intro equal
    obtain rfl := some.inj equal
    obtain ⟨other, occupied, onOther⟩ := seat
    rw [alive] at occupied
    obtain rfl := some.inj occupied
    rw [onIt] at onOther
    exact same (some.inj onOther).symm
  · have before : other ∈ refs place := by
      by_cases same : place = realm
      · subst same
        rw [update_self] at inside
        exact mem_of_mem_erase inside
      · rwa [update_of_ne same] at inside
    obtain ⟨object, old⟩ := linked.there other place before
    rw [editRealm, Store.get_edit, old]
    split <;> exact ⟨_, rfl⟩

theorem Linked.homeless (linked : Linked none server refs) (here : realmOf server c = some none) :
    Linked (some c) server refs := by
  refine ⟨linked.counted, fun other realm => ?_, linked.there, linked.few⟩
  rw [linked.placed]
  refine ⟨fun ⟨_, seat⟩ => ⟨?_, seat⟩, fun ⟨_, seat⟩ => ⟨by simp, seat⟩⟩
  intro same
  obtain rfl := some.inj same
  obtain ⟨conn, alive, placed⟩ := seat
  rw [realmOf, alive, map_some, placed] at here
  simp at here

theorem release_spec (linked : Linked (some c) server refs) :
    Linked none (editConn server c (onRealm none)) refs := by
  refine ⟨linked.counted, fun other realm => ?_, linked.there, ?_⟩
  · rw [linked.placed, editConn, Store.get_edit]
    by_cases same : other = c
    · simp [same, onRealm]
    · simp [same, Ne.symm same]
  · have few := linked.few
    simpa [editConn, Store.edit, change] using few

theorem realm_get_spec (linked : Linked (some c) server refs)
    (alive : server.conns.get c = some conn) (present : server.realms.get realm = some found) :
    ∃ after, realmGet server realm c = some after ∧ Same server after ∧
      after.conns = server.conns ∧ Linked none (editConn after c (onRealm (some realm)))
        (update refs realm (refs realm ++ [c])) := by
  have outside : c ∉ refs realm := spare_outside linked
  refine ⟨editRealm server realm (setRcm (rcmGet found.rcm c)), ?_, same_set_rcm server realm _,
    rfl, ?_⟩
  · rw [realmGet, present]
    rfl
  refine ⟨fun other object still => ?_, fun other place => ?_, fun other place inside => ?_, ?_⟩
  · rw [edit_conn_realms, editRealm, Store.get_edit] at still
    by_cases same : other = realm
    · rw [if_pos same, same, present] at still
      obtain rfl := some.inj still
      rw [same, update_self]
      exact (linked.counted realm found present).get outside (linked.room alive outside)
    · rw [if_neg same] at still
      rw [update_of_ne same]
      exact linked.counted other object still
  · have seat : (∃ object, (editConn (editRealm server realm (setRcm (rcmGet found.rcm c))) c
        (onRealm (some realm))).conns.get other = some object ∧ object.realm = some place) ↔
        if other = c then place = realm else ∃ object, server.conns.get other = some object ∧
          object.realm = some place := by
      rw [editConn, edit_realm_conns, Store.get_edit]
      by_cases same : other = c
      · simp [same, alive, onRealm, eq_comm]
      · simp [same]
    rw [seat]
    by_cases same : place = realm
    · subst same
      rw [update_self, mem_append, mem_singleton, linked.placed]
      by_cases self : other = c
      · simp [self]
      · simp [self, Ne.symm self]
    · rw [update_of_ne same, linked.placed]
      by_cases self : other = c
      · simp [self, same]
      · simp [self, Ne.symm self]
  · have before : place = realm ∨ other ∈ refs place := by
      by_cases same : place = realm
      · exact Or.inl same
      · rw [update_of_ne same] at inside
        exact Or.inr inside
    have old : ∃ object, server.realms.get place = some object := by
      rcases before with rfl | member
      · exact ⟨found, present⟩
      · exact linked.there other place member
    obtain ⟨object, old⟩ := old
    rw [edit_conn_realms, editRealm, Store.get_edit, old]
    split <;> exact ⟨_, rfl⟩
  · have few := linked.few
    simpa [editConn, editRealm, Store.edit, change] using few

theorem conn_set_state_spec (linked : Linked spare server refs)
    (alive : server.conns.get c = some conn) (state : ConnState) :
    ∃ after, connSetState server c state = some after ∧ Linked spare after refs ∧
      after.realms = server.realms ∧ after.realmlistHead = server.realmlistHead ∧
      addresses after.conns.objects = addresses server.conns.objects ∧
      ∀ other, realmOf after other = realmOf server other := by
  have still (other : Nat) : realmOf (editConn server c (inState state)) other =
      realmOf server other := by
    rw [realm_of_edit]
    by_cases same : other = c
    · rw [if_pos same, same]
      rfl
    · rw [if_neg same]
  have marked (dead : List Nat) : Linked spare
      { editConn server c (inState state) with connDead := dead } refs :=
    linked.of_conns rfl still (Store.addresses_edit _ _ _)
  rw [connSetState, alive, bind_eq_bind, bind_some]
  split
  · exact ⟨_, rfl, marked _, rfl, rfl, Store.addresses_edit _ _ _, still⟩
  split
  · split
    · exact ⟨_, rfl, marked _, rfl, rfl, Store.addresses_edit _ _ _, still⟩
    · exact ⟨_, rfl, linked, rfl, rfl, rfl, fun _ => rfl⟩
  · exact ⟨_, rfl, marked _, rfl, rfl, Store.addresses_edit _ _ _, still⟩

theorem Same.there (same : Same server after)
    (present : ∃ found, server.realms.get realm = some found) :
    ∃ found, after.realms.get realm = some found := by
  obtain ⟨old, present⟩ := present
  have fields := same.realms realm
  rw [present] at fields
  obtain ⟨found, still, _⟩ := map_eq_some_iff.mp fields
  exact ⟨found, still⟩

theorem enter_realm_spec (linked : Linked (some c) server refs)
    (alive : server.conns.get c = some conn)
    (target : ∀ new, place = some new → ∃ found, server.realms.get new = some found) :
    ∃ after moved, enterRealm server c place = some after ∧ Linked none after moved ∧
      Same server after ∧
      (∀ other, realmOf after other = if other = c then some place else realmOf server other) ∧
      ∀ other, place ≠ some other → moved other = refs other := by
  cases place with
  | none =>
    refine ⟨_, refs, rfl, release_spec linked, same_edit_conn _ _ _, fun other => ?_,
      fun _ _ => rfl⟩
    rw [realm_of_edit, alive]
    rfl
  | some new =>
    obtain ⟨found, present⟩ := target new rfl
    obtain ⟨got, added, grown, kept, placed⟩ := realm_get_spec linked alive present
    refine ⟨editConn got c (onRealm (some new)), _, ?_, placed,
      grown.trans (same_edit_conn _ _ _), fun other => ?_, fun other apart => ?_⟩
    · rw [enterRealm, added]
      rfl
    · rw [realm_of_edit, realmOf, kept, alive, realmOf]
      rfl
    · exact update_of_ne (fun equal => apart (congrArg some equal.symm)) _ _

theorem conn_set_realm_cb_spec (linked : Linked none server refs)
    (here : realmOf server c = some (some realm))
    (target : ∀ new, newref = some new → ∃ found, server.realms.get new = some found) :
    ∃ after moved, connSetRealmCb newref c server = some after ∧ Linked none after moved ∧
      Same server after ∧
      (∀ other, realmOf after other = if other = c then some newref else realmOf server other) ∧
      (newref ≠ some realm → moved realm = (refs realm).erase c) := by
  obtain ⟨conn, alive, onIt⟩ := map_eq_some_iff.mp here
  obtain ⟨put, ran, same, conns, spared⟩ := realm_put_spec linked here
  have still : put.conns.get c = some conn := by rw [conns, alive]
  have others (other : Nat) : realmOf put other = realmOf server other := by
    rw [realmOf, conns, realmOf]
  cases newref with
  | none =>
    obtain ⟨marked, closed, spared, realms, head, listed, kept⟩ :=
      conn_set_state_spec spared still .destroy
    have fields : Same put marked := ⟨fun _ => by rw [realms], listed, head⟩
    have present : realmOf marked c = some (some realm) := by rw [kept, others, here]
    obtain ⟨object, closing, _⟩ := map_eq_some_iff.mp present
    have nowhere (new : Nat) (never : none = some new) :
        ∃ found, marked.realms.get new = some found := by cases never
    obtain ⟨after, moved, entered, relinked, left, places, untouched⟩ :=
      enter_realm_spec spared closing nowhere
    refine ⟨after, moved, ?_, relinked, same.trans (fields.trans left), fun other => ?_,
      fun apart => ?_⟩
    · simp only [connSetRealmCb, alive, onIt, ran, closed, entered, bind_eq_bind, bind_some]
    · rw [places, kept, others]
    · rw [untouched realm apart, update_self]
  | some new =>
    obtain ⟨after, moved, entered, relinked, left, places, untouched⟩ :=
      enter_realm_spec spared still fun other equal => same.there (target other equal)
    refine ⟨after, moved, ?_, relinked, same.trans left, fun other => ?_, fun apart => ?_⟩
    · simp only [connSetRealmCb, alive, onIt, ran, entered, bind_eq_bind, bind_some]
    · rw [places, others]
    · rw [untouched realm apart, update_self]

theorem conn_set_realm_spec (linked : Linked none server refs)
    (alive : server.conns.get c = some conn)
    (target : ∀ new, place = some new → ∃ found, server.realms.get new = some found) :
    ∃ after moved, connSetRealm server c place = some after ∧ Linked none after moved ∧
      Same server after ∧
      ∀ other, realmOf after other = if other = c then some place else realmOf server other := by
  have here : realmOf server c = some conn.realm := by
    rw [realmOf, alive]
    rfl
  have left : ∃ put refs, leaveRealm server c conn.realm = some put ∧ Same server put ∧
      put.conns = server.conns ∧ Linked (some c) put refs := by
    cases before : conn.realm with
    | none => exact ⟨server, refs, rfl, same_refl server, rfl, linked.homeless (before ▸ here)⟩
    | some old =>
      obtain ⟨put, ran, same, conns, spared⟩ := realm_put_spec linked (before ▸ here)
      exact ⟨put, _, ran, same, conns, spared⟩
  obtain ⟨put, refs, ran, same, conns, spared⟩ := left
  have still : put.conns.get c = some conn := by rw [conns, alive]
  obtain ⟨after, moved, entered, relinked, kept, places, _⟩ :=
    enter_realm_spec spared still fun other equal => same.there (target other equal)
  refine ⟨after, moved, ?_, relinked, same.trans kept, fun other => ?_⟩
  · simp only [connSetRealm, alive, ran, entered, bind_eq_bind, bind_some]
  · rw [places, realmOf, conns, realmOf]

/-- A realm in the middle of `rcm_chref`: the references that it has left are not moved yet. -/
def Moving (server : Server) (realm : Nat) (newref : Option Nat) (state : Server)
    (nodes : List Nat) : Prop :=
  ∃ moved, Linked none state moved ∧ Same server state ∧ moved realm = nodes ∧
    ∀ c, realmOf state c = if c ∈ nodes then realmOf server c else
      (realmOf server c).map fun old => if old = some realm then newref else old

theorem Linked.mem (linked : Linked none server refs) (c realm : Nat) :
    c ∈ refs realm ↔ realmOf server c = some (some realm) := by
  rw [linked.placed, realmOf, map_eq_some_iff]
  simp

theorem moving_start (linked : Linked none server refs) (newref : Option Nat) :
    Moving server realm newref server (refs realm) := by
  refine ⟨refs, linked, same_refl server, rfl, fun c => ?_⟩
  by_cases member : c ∈ refs realm
  · rw [if_pos member]
  rw [if_neg member]
  cases place : realmOf server c with
  | none => rfl
  | some old =>
    have other : old ≠ some realm := fun equal =>
      member ((linked.mem c realm).mpr (by rw [place, equal]))
    simp [other]

theorem moving_step {state : Server} {curr : Nat} {rest : List Nat} (apart : newref ≠ some realm)
    (target : ∀ new, newref = some new → ∃ found, server.realms.get new = some found)
    (moving : Moving server realm newref state (curr :: rest)) :
    ∃ after, connSetRealmCb newref curr state = some after ∧
      Moving server realm newref after rest := by
  obtain ⟨moved, linked, same, nodes, places⟩ := moving
  have here : realmOf state curr = some (some realm) :=
    (linked.mem curr realm).mp (by rw [nodes]; exact mem_cons_self)
  obtain ⟨after, left, ran, relinked, kept, changed, erased⟩ :=
    conn_set_realm_cb_spec linked here fun new equal => same.there (target new equal)
  have nodup := linked.nodup realm
  rw [nodes] at nodup
  refine ⟨after, ran, left, relinked, same.trans kept, ?_, fun c => ?_⟩
  · rw [erased apart, nodes, erase_cons_head]
  rw [changed, places]
  by_cases self : c = curr
  · have before := places curr
    rw [here, if_pos mem_cons_self] at before
    rw [if_pos self, self, if_neg (nodup_cons.mp nodup).1, ← before]
    simp
  · simp [self]

theorem realm_chref_spec (linked : Linked none server refs)
    (present : ∃ found, server.realms.get realm = some found) (apart : newref ≠ some realm)
    (target : ∀ new, newref = some new → ∃ found, server.realms.get new = some found) :
    ∃ after moved, realmChref server realm newref = some after ∧ Linked none after moved ∧
      Same server after ∧ moved realm = [] ∧
      ∀ c, realmOf after c = (realmOf server c).map fun old =>
        if old = some realm then newref else old := by
  have short : (refs realm).length ≤ server.conns.objects.length := by
    have inside : refs realm ⊆ addresses server.conns.objects := by
      intro c member
      obtain ⟨_, conn, alive, _⟩ := (linked.placed c realm).mp member
      exact (server.conns.get_listed c).mp ⟨conn, alive⟩
    simpa [addresses] using (linked.nodup realm).length_le_of_subset inside
  obtain ⟨after, ran, moved, relinked, same, none, still⟩ := chref_rule
    (Moving server realm newref)
    (by
      rintro state nodes ⟨moved, linked, same, rfl, _⟩
      obtain ⟨now, there⟩ := same.there present
      exact ⟨now.rcm, congrArg (Option.map Realm.rcm) there, (linked.counted realm now there).ring⟩)
    (fun _ _ _ => moving_step apart target) (moving_start linked newref) short
  exact ⟨after, moved, ran, relinked, same, none, by simpa using still⟩

theorem realm_deactive_spec (linked : Linked none server refs)
    (present : server.realms.get realm = some found) (attended : Attended server found) :
    ∃ after, realmDeactive server realm = some after ∧ Linked none after refs ∧
      after.realmlistHead = server.realmlistHead ∧
      addresses after.conns.objects = addresses server.conns.objects ∧
      (∀ c, realmOf after c = realmOf server c) ∧
      ∀ other, after.realms.get other = if other = realm ∧ found.active ≠ 0 then
        some (deactivated found) else server.realms.get other := by
  rw [realmDeactive, present, bind_eq_bind, bind_some]
  by_cases idle : found.active = 0
  · refine ⟨server, if_pos idle, linked, rfl, rfl, fun _ => rfl, fun other => ?_⟩
    rw [if_neg fun both => both.2 idle]
  have closed : ∃ marked, destroyConn server found.conn = some marked ∧
      Linked none marked refs ∧ marked.realms = server.realms ∧
      marked.realmlistHead = server.realmlistHead ∧
      addresses marked.conns.objects = addresses server.conns.objects ∧
      ∀ other, realmOf marked other = realmOf server other := by
    cases conn : found.conn with
    | none => exact ⟨server, rfl, linked, rfl, rfl, rfl, fun _ => rfl⟩
    | some c =>
      obtain ⟨object, alive⟩ := attended idle c conn
      exact conn_set_state_spec linked alive .destroy
  obtain ⟨marked, ran, relinked, realms, head, listed, places⟩ := closed
  have changed (other : Nat) : (marked.realms.edit realm deactivated).get other =
      if other = realm ∧ found.active ≠ 0 then some (deactivated found)
      else server.realms.get other := by
    rw [Store.get_edit, realms]
    by_cases same : other = realm
    · rw [if_pos same, if_pos ⟨same, idle⟩, same, present]
      rfl
    · rw [if_neg same, if_neg fun both => same both.1]
  refine ⟨editRealm marked realm deactivated, ?_, ?_, head, listed, places, changed⟩
  · rw [if_neg idle, ran]
    rfl
  refine relinked.of_realms fun other => ?_
  rw [changed, realms]
  split
  · next both =>
      rw [both.1, present]
      rfl
  · rfl

theorem deactive_active (server : Server) (realm : Nat) :
    deactiveActive server realm = realmDeactive server realm := by
  rw [deactiveActive, realmDeactive]
  cases server.realms.get realm with
  | none => rfl
  | some found =>
    simp only [bind_eq_bind, bind_some]
    split <;> rfl

theorem realm_destroy_spec (linked : Linked none server refs) (unused : refs realm = [])
    (present : server.realms.get realm = some found) (attended : Attended server found) :
    ∃ after, realmDestroy server realm = some after ∧ Linked none after refs ∧
      after.realmlistHead = server.realmlistHead ∧
      addresses after.conns.objects = addresses server.conns.objects ∧
      (∀ c, realmOf after c = realmOf server c) ∧
      ∀ other, after.realms.get other = if other = realm then none
        else server.realms.get other := by
  obtain ⟨quiet, stopped, relinked, head, listed, places, realms⟩ :=
    realm_deactive_spec linked present attended
  have left (other : Nat) : (quiet.realms.free realm).get other =
      if other = realm then none else server.realms.get other := by
    rw [Store.get_free]
    by_cases same : other = realm
    · rw [if_pos same, if_pos same]
    · rw [if_neg same, if_neg same, realms, if_neg fun both => same both.1]
  refine ⟨{ quiet with realms := quiet.realms.free realm }, ?_, ?_, head, listed, places, left⟩
  · rw [realmDestroy, deactive_active, stopped]
    rfl
  refine ⟨fun other object still => ?_, relinked.placed, fun c other member => ?_, relinked.few⟩
  · rw [Store.get_free] at still
    split at still
    · cases still
    · exact relinked.counted other object still
  obtain ⟨object, still⟩ := relinked.there c other member
  have apart : other ≠ realm := by
    rintro rfl
    rw [unused] at member
    exact absurd member not_mem_nil
  exact ⟨object, by rw [Store.get_free, if_neg apart, still]⟩

end Objects

end Pvpgn.RealmLinks
