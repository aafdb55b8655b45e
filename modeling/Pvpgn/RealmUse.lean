import Pvpgn.RealmLinks

/-!
What happens to realms between two reloads of their file: connections come, are placed on realms and
activate them.
-/

namespace Pvpgn.RealmUse
open ObjectList ObjectStore ReferenceChange RealmLinks Option
open ChannelMembers (ConnState)

/-- The connections and the realms between two requests. -/
structure WellFormed (server : Server) : Prop where
  linked : ∃ refs, Linked none server refs
  distinct : (realmlist server).Nodup
  listed : ∀ realm ∈ realmlist server, ∃ found, server.realms.get realm = some found
  placed : ∀ c realm, realmOf server c = some (some realm) → realm ∈ realmlist server
  served : ∀ realm found, server.realms.get realm = some found → Attended server found

/-- Calls with pointers that their callers have looked up. -/
inductive Request where
  | connect (sessionnum : UInt32) (tcpSock : Int)
  | setRealm (c : Nat) (realm : Option Nat)
  | active (realm c : Nat)
  | deactive (realm : Nat)
  | setState (c : Nat) (state : ConnState)
  | addPlayerNumber (realm : Nat) (number : Int32)
  | addGameNumber (realm : Nat) (number : Int32)

def Connected (server : Server) (c : Nat) : Prop := c ∈ addresses server.conns.objects

/-- A request that can be made: a descriptor is left, the connection is not gone and the realm is in
use. -/
def Allowed (server : Server) : Request → Prop
  | .connect _ _ => server.conns.objects.length + 1 < 2 ^ 32
  | .setRealm c realm => Connected server c ∧ ∀ new ∈ realm, new ∈ realmlist server
  | .active realm c => realm ∈ realmlist server ∧ Connected server c
  | .deactive realm => realm ∈ realmlist server
  | .setState c _ => Connected server c
  | .addPlayerNumber realm _ => realm ∈ realmlist server
  | .addGameNumber realm _ => realm ∈ realmlist server

instance (server : Server) (call : Request) : Decidable (Allowed server call) :=
  match call with
  | .connect _ _ => inferInstanceAs (Decidable (_ < _))
  | .setRealm c _ => inferInstanceAs (Decidable (c ∈ _ ∧ ∀ _, _ → _))
  | .active _ c => inferInstanceAs (Decidable (_ ∈ _ ∧ c ∈ _))
  | .deactive _ => inferInstanceAs (Decidable (_ ∈ _))
  | .setState c _ => inferInstanceAs (Decidable (c ∈ _))
  | .addPlayerNumber _ _ => inferInstanceAs (Decidable (_ ∈ _))
  | .addGameNumber _ _ => inferInstanceAs (Decidable (_ ∈ _))

def connCreate (server : Server) (sessionnum : UInt32) (tcpSock : Int) : Server :=
  { server with conns := server.conns.append ⟨sessionnum, tcpSock, .initial, none⟩ }

def request (server : Server) : Request → Option Server
  | .connect sessionnum tcpSock => some (connCreate server sessionnum tcpSock)
  | .setRealm c realm => connSetRealm server c realm
  | .active realm c => realmActive server realm c
  | .deactive realm => realmDeactive server realm
  | .setState c state => connSetState server c state
  | .addPlayerNumber realm number => realmAddPlayerNumber server realm number
  | .addGameNumber realm number => realmAddGameNumber server realm number

def requests : Server → List Request → Option Server
  | server, [] => some server
  | server, call :: rest =>
    if Allowed server call then (request server call).bind fun after => requests after rest
    else none

theorem conns_alive {first second : Server} {c : Nat}
    (listed : addresses second.conns.objects = addresses first.conns.objects)
    (alive : ∃ conn, first.conns.get c = some conn) : ∃ conn, second.conns.get c = some conn :=
  (second.conns.get_listed c).mpr (listed ▸ (first.conns.get_listed c).mp alive)

theorem map_fields {object : Option Realm} {found : Realm}
    (same : object.map (setRcm rcmInit) = (some found).map (setRcm rcmInit)) :
    ∃ now, object = some now ∧ setRcm rcmInit now = setRcm rcmInit found :=
  map_eq_some_iff.mp same

theorem same_service {now found : Realm} (fields : setRcm rcmInit now = setRcm rcmInit found) :
    now.active = found.active ∧ now.conn = found.conn := by
  have active := congrArg Realm.active fields
  have conn := congrArg Realm.conn fields
  exact ⟨active, conn⟩

section Steps
variable {server after : Server}

theorem WellFormed.step (wellFormed : WellFormed server) (linked : ∃ refs, Linked none after refs)
    (head : after.realmlistHead = server.realmlistHead)
    (there : ∀ realm, (∃ found, server.realms.get realm = some found) →
      ∃ found, after.realms.get realm = some found)
    (placed : ∀ c realm, realmOf after c = some (some realm) →
      realmOf server c = some (some realm) ∨ realm ∈ realmlist server)
    (served : ∀ realm found, after.realms.get realm = some found → Attended after found) :
    WellFormed after := by
  have list : realmlist after = realmlist server := by rw [realmlist, head, realmlist]
  refine ⟨linked, ?_, ?_, ?_, served⟩
  · rw [list]
    exact wellFormed.distinct
  · rw [list]
    exact fun realm member => there realm (wellFormed.listed realm member)
  · rw [list]
    intro c realm here
    rcases placed c realm here with before | member
    · exact wellFormed.placed c realm before
    · exact member

theorem same_attended (same : Same server after)
    (served : ∀ realm found, server.realms.get realm = some found → Attended server found)
    (realm : Nat) (found : Realm) (present : after.realms.get realm = some found) :
    Attended after found := by
  intro active c conn
  have fields := same.realms realm
  rw [present] at fields
  obtain ⟨before, was, kept⟩ := map_fields fields.symm
  obtain ⟨sameActive, sameConn⟩ := same_service kept
  exact conns_alive same.conns (served realm before was (sameActive ▸ active) c (sameConn ▸ conn))

theorem edit_realm_well_formed (wellFormed : WellFormed server) (realm : Nat)
    (change : Realm → Realm) (rcm : ∀ found, (change found).rcm = found.rcm)
    (attended : ∀ found, server.realms.get realm = some found → Attended server (change found)) :
    WellFormed (editRealm server realm change) := by
  obtain ⟨refs, linked⟩ := wellFormed.linked
  refine wellFormed.step ⟨refs, linked.of_realms fun other => ?_⟩ rfl ?_ (fun _ _ => Or.inl) ?_
  · rw [Store.get_edit]
    by_cases same : other = realm
    · rw [if_pos same, Option.map_map]
      exact congrFun (congrArg Option.map (funext rcm)) _
    · rw [if_neg same]
  · rintro other ⟨found, present⟩
    rw [editRealm, Store.get_edit, present]
    split <;> exact ⟨_, rfl⟩
  · intro other found present
    rw [editRealm, Store.get_edit] at present
    by_cases same : other = realm
    · rw [if_pos same, same] at present
      obtain ⟨before, was, rfl⟩ := Option.map_eq_some_iff.mp present
      exact attended before was
    · rw [if_neg same] at present
      exact wellFormed.served other found present

variable {c : Nat} {refs : Nat → List Nat}

theorem WellFormed.of_same (wellFormed : WellFormed server) (linked : Linked none after refs)
    (same : Same server after) (placed : ∀ c realm, realmOf after c = some (some realm) →
      realmOf server c = some (some realm) ∨ realm ∈ realmlist server) : WellFormed after :=
  wellFormed.step ⟨refs, linked⟩ same.head (fun _ => same.there) placed
    (same_attended same wellFormed.served)

variable (server) in
theorem place_connect (sessionnum : UInt32) (tcpSock : Int) (c realm : Nat) :
    realmOf (connCreate server sessionnum tcpSock) c = some (some realm) ↔
      realmOf server c = some (some realm) := by
  rw [realmOf, connCreate, Store.get_append]
  by_cases fresh : c = server.conns.allocated
  · rw [if_pos fresh, realmOf, fresh, Store.get_allocated]
    simp
  · rw [if_neg fresh, realmOf]

theorem linked_connect (linked : Linked none server refs) (sessionnum : UInt32) (tcpSock : Int)
    (room : server.conns.objects.length + 1 < 2 ^ 32) :
    Linked none (connCreate server sessionnum tcpSock) refs := by
  refine ⟨linked.counted, fun c realm => ?_, linked.there, ?_⟩
  · have seat := place_connect server sessionnum tcpSock c realm
    rw [realmOf, realmOf, map_eq_some_iff, map_eq_some_iff] at seat
    rw [linked.placed, seat]
  · simpa [connCreate] using room

section
variable (wellFormed : WellFormed server)
include wellFormed

theorem connect_well_formed (sessionnum : UInt32) (tcpSock : Int)
    (room : server.conns.objects.length + 1 < 2 ^ 32) :
    WellFormed (connCreate server sessionnum tcpSock) := by
  obtain ⟨refs, linked⟩ := wellFormed.linked
  refine wellFormed.step ⟨refs, linked_connect linked sessionnum tcpSock room⟩ rfl (fun _ => id)
    (fun c realm here => Or.inl ((place_connect server sessionnum tcpSock c realm).mp here)) ?_
  intro realm found present active c conn
  obtain ⟨object, alive⟩ := wellFormed.served realm found present active c conn
  have old : c ≠ server.conns.allocated := by
    rintro rfl
    rw [Store.get_allocated] at alive
    cases alive
  exact ⟨object, by rw [connCreate, Store.get_append, if_neg old, alive]⟩

theorem set_realm_well_formed {place : Option Nat} (connected : Connected server c)
    (listed : ∀ new, place = some new → new ∈ realmlist server) :
    ∃ after, connSetRealm server c place = some after ∧ WellFormed after ∧ Same server after := by
  obtain ⟨conn, alive⟩ := (server.conns.get_listed c).mpr connected
  obtain ⟨refs, linked⟩ := wellFormed.linked
  obtain ⟨after, moved, ran, relinked, same, places⟩ := conn_set_realm_spec linked alive
    fun new equal => wellFormed.listed new (listed new equal)
  refine ⟨after, ran, wellFormed.of_same relinked same fun other realm here => ?_, same⟩
  rw [places] at here
  split at here
  · exact Or.inr (listed realm (some.inj here))
  · exact Or.inl here

theorem deactived_well_formed {realm : Nat} {found : Realm}
    (linked : Linked none after refs) (head : after.realmlistHead = server.realmlistHead)
    (conns : addresses after.conns.objects = addresses server.conns.objects)
    (places : ∀ c, realmOf after c = realmOf server c)
    (realms : ∀ other, after.realms.get other = if other = realm ∧ found.active ≠ 0 then
      some (deactivated found) else server.realms.get other) : WellFormed after := by
  refine wellFormed.step ⟨refs, linked⟩ head ?_ (fun c other here => Or.inl (places c ▸ here)) ?_
  · rintro other ⟨object, was⟩
    rw [realms]
    split
    · exact ⟨_, rfl⟩
    · exact ⟨object, was⟩
  · intro other object now
    rw [realms] at now
    split at now
    · obtain rfl := some.inj now
      exact fun active => absurd rfl active
    · exact fun active c conn =>
        conns_alive conns (wellFormed.served other object now active c conn)

theorem active_well_formed {realm : Nat} (listed : realm ∈ realmlist server)
    (connected : Connected server c) :
    ∃ after, realmActive server realm c = some after ∧ WellFormed after := by
  obtain ⟨found, present⟩ := wellFormed.listed realm listed
  obtain ⟨refs, linked⟩ := wellFormed.linked
  obtain ⟨quiet, stopped, relinked, head, conns, places, realms⟩ :=
    realm_deactive_spec linked present (wellFormed.served realm found present)
  have settled := deactived_well_formed wellFormed relinked head conns places realms
  have still : Connected quiet c := by
    rw [Connected, conns]
    exact connected
  have taken : WellFormed (editRealm quiet realm fun found =>
      { found with active := 1, conn := some c }) := by
    refine edit_realm_well_formed settled realm _ (fun _ => rfl) fun object _ _ other conn => ?_
    obtain rfl := some.inj conn
    exact (quiet.conns.get_listed c).mpr still
  have inUse : realm ∈ realmlist (editRealm quiet realm fun found =>
      { found with active := 1, conn := some c }) := by
    have list : realmlist (editRealm quiet realm fun found =>
        { found with active := 1, conn := some c }) = realmlist server := by
      rw [realmlist, editRealm, head, realmlist]
    rwa [list]
  have target (new : Nat) (equal : some realm = some new) : new ∈ realmlist (editRealm quiet realm
      fun found => { found with active := 1, conn := some c }) := some.inj equal ▸ inUse
  obtain ⟨placed, moved, kept, same⟩ := set_realm_well_formed taken still target
  obtain ⟨conn, alive⟩ := (placed.conns.get_listed c).mpr (same.conns ▸ still)
  refine ⟨editRealm placed realm fun found =>
    { found with sessionnum := conn.sessionnum, tcpSock := conn.tcpSock }, ?_,
    edit_realm_well_formed kept realm _ (fun _ => rfl) fun object there => ?_⟩
  · simp only [realmActive, deactive_active, stopped, moved, alive, bind_eq_bind, bind_some]
  · exact kept.served realm object there

theorem set_state_well_formed (connected : Connected server c) (state : ConnState) :
    ∃ after, connSetState server c state = some after ∧ WellFormed after := by
  obtain ⟨conn, alive⟩ := (server.conns.get_listed c).mpr connected
  obtain ⟨refs, linked⟩ := wellFormed.linked
  obtain ⟨after, ran, relinked, realms, head, conns, places⟩ :=
    conn_set_state_spec linked alive state
  have same : Same server after := ⟨fun _ => by rw [realms], conns, head⟩
  exact ⟨after, ran, wellFormed.of_same relinked same fun other realm here =>
    Or.inl (places other ▸ here)⟩

theorem request_well_formed {call : Request} (allowed : Allowed server call) :
    ∃ after, request server call = some after ∧ WellFormed after := by
  cases call with
  | connect sessionnum tcpSock =>
    exact ⟨_, rfl, connect_well_formed wellFormed sessionnum tcpSock allowed⟩
  | setRealm c realm =>
    obtain ⟨after, ran, kept, _⟩ := set_realm_well_formed wellFormed allowed.1 allowed.2
    exact ⟨after, ran, kept⟩
  | active realm c => exact active_well_formed wellFormed allowed.1 allowed.2
  | deactive realm =>
    obtain ⟨found, present⟩ := wellFormed.listed realm allowed
    obtain ⟨refs, linked⟩ := wellFormed.linked
    obtain ⟨after, ran, relinked, head, conns, places, realms⟩ :=
      realm_deactive_spec linked present (wellFormed.served realm found present)
    exact ⟨after, ran, deactived_well_formed wellFormed relinked head conns places realms⟩
  | setState c state => exact set_state_well_formed wellFormed allowed state
  | addPlayerNumber realm number =>
    obtain ⟨found, present⟩ := wellFormed.listed realm allowed
    refine ⟨_, by rw [request, realmAddPlayerNumber, present]; rfl, ?_⟩
    exact edit_realm_well_formed wellFormed realm _ (fun _ => rfl)
      fun object there => wellFormed.served realm object there
  | addGameNumber realm number =>
    obtain ⟨found, present⟩ := wellFormed.listed realm allowed
    refine ⟨_, by rw [request, realmAddGameNumber, present]; rfl, ?_⟩
    exact edit_realm_well_formed wellFormed realm _ (fun _ => rfl)
      fun object there => wellFormed.served realm object there

end

end Steps

end Pvpgn.RealmUse
