import Pvpgn.ConnectionLinks

/-!
The end of a connection: it is taken from every list, and no other connection, realm or match knows
it any more.
-/

namespace Pvpgn.ConnectionDestroy
open ObjectList ObjectStore ConnectionArray ConnectionList ConnectionLinks List Option
open LinkedList (Cursor cursorBehind)
open ChannelMembers (ConnClass ConnState)
open RealmLinks (Attended Linked Realm Same deactivated editConn editRealm inState onRealm
  realmAddPlayerNumber realmDeactive realmOf realmPut setRcm)

def stateOf (base : RealmLinks.Server) (c : Nat) : Option ConnState :=
  (base.conns.get c).map RealmLinks.Connection.state

def numberOf (base : RealmLinks.Server) (c : Nat) : Option UInt32 :=
  (base.conns.get c).map RealmLinks.Connection.sessionnum

def serverOf (base : RealmLinks.Server) (realm : Nat) : Option Nat :=
  (base.realms.get realm).bind fun found => if found.active = 0 then none else found.conn

/-- The list of dead connections; the state of the spare one is not known. -/
structure Dead (spare : Option Nat) (base : RealmLinks.Server) : Prop where
  nodup : base.connDead.Nodup
  member : ∀ c, spare ≠ some c → (c ∈ base.connDead ↔ stateOf base c = some .destroy)

def Serving (base : RealmLinks.Server) (fields : Nat → Fields) : Prop :=
  ∀ realm c, serverOf base realm = some c →
    realmOf base c = some (some realm) ∧ (fields c).cclass = .d2csBnetd

def Pending (cclass : ConnClass) (state : Option ConnState) : Prop :=
  cclass = .init ∨ cclass = .ircinit ∨ cclass = .d2csBnetd ∧ state = some .connected

def Unplaced (base : RealmLinks.Server) (fields : Nat → Fields) : Prop :=
  ∀ c realm, Pending (fields c).cclass (stateOf base c) → realmOf base c ≠ some (some realm)

variable {after : RealmLinks.Server} {fields later : Nat → Fields}

section Base
variable {base : RealmLinks.Server} {spare : Option Nat} {c : Nat} {refs : Nat → List Nat}
  {conn : RealmLinks.Connection}

variable (base) in
theorem state_of_edit (c other : Nat) (state : ConnState) :
    stateOf (editConn base c (inState state)) other =
      if other = c then (base.conns.get c).map fun _ => state else stateOf base other := by
  rw [stateOf, editConn, Store.get_edit]
  by_cases same : other = c
  · rw [if_pos same, if_pos same, same, Option.map_map]
    rfl
  · rw [if_neg same, if_neg same, stateOf]

variable (base) in
theorem number_of_edit (c other : Nat) (state : ConnState) :
    numberOf (editConn base c (inState state)) other = numberOf base other := by
  rw [numberOf, editConn, Store.get_edit]
  by_cases same : other = c
  · rw [if_pos same, Option.map_map, numberOf]
    rfl
  · rw [if_neg same, numberOf]

theorem set_state_dead (dead : Dead spare base) (known : spare ≠ some c)
    (alive : base.conns.get c = some conn) (state : ConnState) :
    ∃ after, RealmLinks.connSetState base c state = some after ∧ Dead spare after ∧
      after.conns = base.conns.edit c (inState state) ∧ after.realms = base.realms ∧
      (state = .destroy → ∃ more, after.connDead = base.connDead ++ more ∧ ∀ d ∈ more, d = c) := by
  have here := dead.member c known
  have mine : stateOf base c = some conn.state := by rw [stateOf, alive]; rfl
  rw [mine, some.injEq] at here
  have others {list : List Nat} (nodup : list.Nodup)
      (same : ∀ other, other ≠ c → (other ∈ list ↔ other ∈ base.connDead))
      (self : c ∈ list ↔ state = .destroy) :
      Dead spare { editConn base c (inState state) with connDead := list } := by
    refine ⟨nodup, fun other known => ?_⟩
    have states := state_of_edit base c other state
    rw [stateOf] at states ⊢
    rw [states]
    by_cases equal : other = c
    · subst equal
      rw [if_pos rfl, alive, self, map_some, some.injEq]
    · rw [if_neg equal, same other equal, dead.member other known]
  rw [RealmLinks.connSetState, alive, bind_eq_bind, bind_some]
  by_cases dies : state = .destroy ∧ conn.state ≠ .destroy
  · rw [if_pos dies]
    have fresh : c ∉ base.connDead := fun member => dies.2 (here.mp member)
    refine ⟨_, rfl, others ?_ (fun other apart => ?_) ?_, rfl, rfl, fun _ => ⟨[c], rfl, by simp⟩⟩
    · exact dead.nodup.append (nodup_singleton c) (disjoint_singleton.mpr fresh)
    · simp [apart]
    · simp [dies.1]
  rw [if_neg dies]
  by_cases lives : state ≠ .destroy ∧ conn.state = .destroy
  · have member := here.mpr lives.2
    rw [if_pos lives, if_pos member]
    refine ⟨_, rfl, others (dead.nodup.erase c) (fun other apart => ?_) ?_, rfl, rfl,
      fun same => absurd same lives.1⟩
    · rw [mem_erase_of_ne apart]
    · exact iff_of_false (fun still => (dead.nodup.mem_erase_iff.mp still).1 rfl) lives.1
  rw [if_neg lives]
  refine ⟨_, rfl, others dead.nodup (fun _ _ => Iff.rfl) ?_, rfl, rfl,
    fun _ => ⟨[], (append_nil _).symm, by simp⟩⟩
  rw [here]
  constructor
  · intro was
    by_contra goes
    exact lives ⟨goes, was⟩
  · intro goes
    by_contra was
    exact dies ⟨goes, was⟩

theorem settles_of_edit {state : ConnState}
    (conns : after.conns = base.conns.edit c (inState state)) (apart : state ≠ .connected)
    (d : Nat) (connected : stateOf after d = some .connected) :
    stateOf base d = some .connected := by
  have states := state_of_edit base c d state
  rw [stateOf, editConn] at states
  rw [stateOf, conns, states] at connected
  split at connected
  · obtain ⟨-, -, same⟩ := map_eq_some_iff.mp connected
    exact absurd same apart
  · exact connected

theorem Unplaced.of_same (unplaced : Unplaced base fields)
    (places : ∀ c, realmOf after c = realmOf base c)
    (settles : ∀ c, stateOf after c = some .connected → stateOf base c = some .connected)
    (classes : ∀ c, (later c).cclass = (fields c).cclass) : Unplaced after later := by
  intro c realm pending
  rw [classes] at pending
  rw [places]
  refine unplaced c realm (pending.imp_right (Or.imp_right fun both => ?_))
  exact ⟨both.1, settles c both.2⟩

theorem Dead.of_conns (dead : Dead spare base) (conns : after.conns = base.conns)
    (connDead : after.connDead = base.connDead) :
    Dead spare after := by
  refine ⟨connDead ▸ dead.nodup, fun other known => ?_⟩
  rw [connDead, stateOf, conns]
  exact dead.member other known

theorem server_of_edit (realm other : Nat) (change : Realm → Realm)
    (active : ∀ found, (change found).active = found.active)
    (conn : ∀ found, (change found).conn = found.conn) :
    serverOf (editRealm base realm change) other = serverOf base other := by
  rw [serverOf, serverOf, editRealm, Store.get_edit]
  by_cases same : other = realm
  · rw [if_pos same]
    cases base.realms.get other with
    | none => rfl
    | some found => simp [active, conn]
  · rw [if_neg same]

theorem same_server_of (same : Same base after) (realm : Nat) :
    serverOf after realm = serverOf base realm := by
  have fields := same.realms realm
  rw [serverOf, serverOf]
  cases before : base.realms.get realm with
  | none =>
    rw [before] at fields
    rw [map_eq_none_iff.mp fields]
  | some found =>
    rw [before] at fields
    obtain ⟨now, there, kept⟩ := RealmUse.map_fields fields
    obtain ⟨active, conn⟩ := RealmUse.same_service kept
    rw [there, bind_some, bind_some, active, conn]

variable {realm : Nat} {found : Realm}

theorem Serving.attended {fields : Nat → Fields} (serving : Serving base fields)
    (present : base.realms.get realm = some found) : Attended base found := by
  intro active c conn
  have serves : serverOf base realm = some c := by
    rw [serverOf, present, bind_some, if_neg active, conn]
  obtain ⟨object, alive, -⟩ := map_eq_some_iff.mp (serving realm c serves).1
  exact ⟨object, alive⟩

theorem Serving.of_same (serving : Serving base fields)
    (servers : ∀ realm, serverOf after realm = serverOf base realm)
    (places : ∀ c, realmOf after c = realmOf base c)
    (classes : ∀ c, (later c).cclass = (fields c).cclass) : Serving after later := by
  intro realm c serves
  rw [servers] at serves
  rw [places, classes]
  exact serving realm c serves

theorem deactive_dead (dead : Dead none base) (present : base.realms.get realm = some found)
    (attended : Attended base found) :
    ∃ after, realmDeactive base realm = some after ∧ Dead none after ∧
      (∀ c, numberOf after c = numberOf base c) ∧
      (∀ c, stateOf after c = some .connected → stateOf base c = some .connected) ∧
      ∃ more, after.connDead = base.connDead ++ more ∧
        ∀ d ∈ more, serverOf base realm = some d := by
  rw [realmDeactive, present, bind_eq_bind, bind_some]
  by_cases idle : found.active = 0
  · exact ⟨base, if_pos idle, dead, fun _ => rfl, fun _ => id, [], (append_nil _).symm,
      by simp⟩
  rw [if_neg idle]
  have serves : serverOf base realm = found.conn := by
    rw [serverOf, present, bind_some, if_neg idle]
  cases conn : found.conn with
  | none =>
    exact ⟨_, rfl, dead.of_conns rfl rfl, fun _ => rfl, fun _ => id, [],
      (append_nil _).symm, by simp⟩
  | some d =>
    obtain ⟨object, alive⟩ := attended idle d conn
    obtain ⟨marked, ran, kept, conns, -, grows⟩ := set_state_dead dead (by simp) alive .destroy
    obtain ⟨more, list, only⟩ := grows rfl
    have closed : RealmLinks.destroyConn base (some d) = some marked := ran
    rw [closed, bind_eq_bind, bind_some]
    refine ⟨_, rfl, kept.of_conns rfl rfl, fun c => ?_, fun c connected => ?_, more, list,
      fun other member => ?_⟩
    · have edited := number_of_edit base d c .destroy
      rw [numberOf, RealmLinks.edit_realm_conns, conns]
      exact edited
    · exact settles_of_edit conns (by decide) c connected
    · rw [serves, conn, only other member]

theorem close_realm_spec {fields : Nat → Fields} (linked : Linked none base refs)
    (dead : Dead none base) (serving : Serving base fields)
    (present : base.realms.get realm = some found) :
    ∃ after, realmDeactive base realm = some after ∧ Linked none after refs ∧ Dead none after ∧
      (∀ c, numberOf after c = numberOf base c) ∧ (∀ c, realmOf after c = realmOf base c) ∧
      (∀ c, stateOf after c = some .connected → stateOf base c = some .connected) ∧
      (∃ now, after.realms.get realm = some now) ∧
      (∀ other, serverOf after other = if other = realm then none else serverOf base other) ∧
      ∃ more, after.connDead = base.connDead ++ more ∧
        ∀ d ∈ more, serverOf base realm = some d := by
  obtain ⟨after, ran, relinked, -, -, places, realms⟩ :=
    RealmLinks.realm_deactive_spec linked present (serving.attended present)
  obtain ⟨same, again, kept, numbers, settles, grows⟩ :=
    deactive_dead dead present (serving.attended present)
  obtain rfl := some.inj (again.symm.trans ran)
  refine ⟨same, ran, relinked, kept, numbers, places, settles, ?_, fun other => ?_, grows⟩
  · rw [realms]
    split
    · exact ⟨_, rfl⟩
    · exact ⟨found, present⟩
  rw [serverOf, realms]
  by_cases equal : other = realm
  · rw [if_pos equal, equal]
    by_cases idle : found.active = 0
    · rw [if_neg fun both => both.2 idle, present, bind_some, if_pos idle]
    · rw [if_pos ⟨rfl, idle⟩, bind_some]
      exact if_pos rfl
  · rw [if_neg equal, if_neg fun both => equal both.1, serverOf]

theorem put_kept (ran : realmPut base realm c = some after) :
    after.conns = base.conns ∧ after.connDead = base.connDead := by
  obtain ⟨found, -, ran⟩ := bind_eq_some_iff.mp ran
  obtain ⟨rcm, -, ran⟩ := bind_eq_some_iff.mp ran
  obtain rfl := some.inj ran
  exact ⟨rfl, rfl⟩

theorem linked_free (linked : Linked (some c) base refs) (connDead : List Nat) :
    Linked none { base with conns := base.conns.free c, connDead } refs := by
  refine ⟨linked.counted, fun other realm => ?_, linked.there, ?_⟩
  · rw [linked.placed, Store.get_free]
    by_cases same : other = c
    · simp [same]
    · simp [same, Ne.symm same]
  · have fewer := (without_sublist base.conns.objects c).length_le
    exact Nat.lt_of_le_of_lt fewer linked.few

theorem dead_free (dead : Dead (some c) base) :
    Dead none { base with conns := base.conns.free c, connDead := base.connDead.erase c } := by
  refine ⟨dead.nodup.erase c, fun other _ => ?_⟩
  rw [dead.nodup.mem_erase_iff, stateOf, Store.get_free]
  by_cases same : other = c
  · simp [same]
  · have member := dead.member other fun equal => same (some.inj equal).symm
    rw [if_neg same, member, stateOf]
    exact and_iff_right same

theorem dead_edit (dead : Dead none base) (c : Nat) (state : ConnState) :
    Dead (some c) (editConn base c (inState state)) := by
  refine ⟨dead.nodup, fun other apart => ?_⟩
  have differs : other ≠ c := fun same => apart (congrArg some same.symm)
  rw [state_of_edit, if_neg differs]
  exact dead.member other (by simp)

theorem linked_edit (linked : Linked spare base refs) (c : Nat) (state : ConnState) :
    Linked spare (editConn base c (inState state)) refs := by
  refine linked.of_conns rfl (fun other => ?_) (Store.addresses_edit _ _ _)
  rw [RealmLinks.realm_of_edit]
  by_cases same : other = c
  · rw [if_pos same, same]
    rfl
  · rw [if_neg same]

end Base

section Quit
variable {server : Server} {c : Nat} {refs : Nat → List Nat} {conn : RealmLinks.Connection}

theorem quit_realm_spec (linked : Linked none server.base refs)
    (alive : server.base.conns.get c = some conn) :
    ∃ base refs, quitRealm server c conn.realm = some { server with base } ∧
      Linked (some c) base refs ∧ base.conns = server.base.conns ∧
      base.connDead = server.base.connDead ∧
      ∀ realm, serverOf base realm = serverOf server.base realm := by
  have here : realmOf server.base c = some conn.realm := by rw [realmOf, alive]; rfl
  cases place : conn.realm with
  | none =>
    rw [place] at here
    exact ⟨server.base, refs, rfl, linked.homeless here, rfl, rfl, fun _ => rfl⟩
  | some realm =>
    rw [place] at here
    obtain ⟨found, present⟩ := linked.there c realm ((linked.mem c realm).mpr here)
    let counted : Realm → Realm := fun found =>
      { found with playerNumber := found.playerNumber + (-1 : Int32).toUInt32 }
    have adds : realmAddPlayerNumber server.base realm (-1) =
        some (editRealm server.base realm counted) := by
      rw [realmAddPlayerNumber, present]
      rfl
    have still : Linked none (editRealm server.base realm counted) refs := by
      refine linked.of_realms fun other => ?_
      rw [Store.get_edit]
      by_cases same : other = realm
      · rw [if_pos same, Option.map_map]
        rfl
      · rw [if_neg same]
    obtain ⟨after, ran, same, conns, relinked⟩ := RealmLinks.realm_put_spec still here
    refine ⟨after, _, ?_, relinked, conns, (put_kept ran).2.trans rfl, fun other => ?_⟩
    · rw [quitRealm, adds, bind_eq_bind, bind_some, ran]
      rfl
    · rw [same_server_of same, server_of_edit realm other counted (fun _ => rfl) fun _ => rfl]

end Quit

def parted (c : Nat) (fields : Nat → Fields) (other : Nat) : Fields :=
  if (fields c).routeconn = some other then withRoute none (fields other) else fields other

/-- What does not change while a connection is closed, and what only becomes less or more. -/
structure Closing (server after : Server) : Prop where
  head : after.connHead = server.connHead
  array : after.connarray = server.connarray
  number : ∀ c, numberOf after.base c = numberOf server.base c
  place : ∀ c, realmOf after.base c = realmOf server.base c
  settles : ∀ c, stateOf after.base c = some .connected → stateOf server.base c = some .connected
  fewer : Fewer server.fields after.fields
  grows : ∃ more, after.base.connDead = server.base.connDead ++ more ∧
    ∀ d ∈ more, ¬Plays (server.fields d).cclass

section Close
variable {server after last : Server} {c : Nat} {refs : Nat → List Nat} {live : Nat → Prop}
  {fields : Nat → Fields}

theorem Closing.trans (first : Closing server after) (second : Closing after last) :
    Closing server last where
  head := second.head.trans first.head
  array := second.array.trans first.array
  number c := (second.number c).trans (first.number c)
  place c := (second.place c).trans (first.place c)
  settles c connected := first.settles c (second.settles c connected)
  fewer := first.fewer.trans second.fewer
  grows := by
    obtain ⟨more, list, dying⟩ := first.grows
    obtain ⟨later, longer, doomed⟩ := second.grows
    refine ⟨more ++ later, by rw [longer, list, append_assoc], fun d member => ?_⟩
    rcases mem_append.mp member with early | late
    · exact dying d early
    · rw [← first.fewer.cclass]
      exact doomed d late

theorem live_of_numbers (numbers : ∀ c, numberOf after.base c = numberOf server.base c) :
    Live after = Live server := by
  have known (held : Server) (c : Nat) : Live held c ↔ (numberOf held.base c).isSome = true := by
    rw [numberOf, isSome_map, isSome_iff_exists, Live]
  funext c
  rw [eq_iff_iff, known, known, numbers]

theorem parted_fields (c other : Nat) :
    (parted c fields other).cclass = (fields other).cclass ∧
      (parted c fields other).anongame = (fields other).anongame := by
  rw [parted]
  split <;> exact ⟨rfl, rfl⟩

theorem parted_none (unrouted : (fields c).routeconn = none) : parted c fields = fields := by
  funext other
  rw [parted, unrouted, if_neg (by simp)]

theorem parted_written {rc : Nat} (route : (server.fields c).routeconn = some rc) :
    setFields server rc (withRoute none) = { server with fields := parted c server.fields } := by
  rw [setFields]
  congr 1
  funext other
  by_cases same : other = rc
  · rw [same, Function.update_self, parted, if_pos route]
  · rw [Function.update_of_ne same, parted, route,
      if_neg fun equal => same (some.inj equal).symm]

theorem parted_routed (routed : Routed live fields) (alive : live c) :
    Routed (fun other => live other ∧ other ≠ c) (parted c fields) := by
  constructor
  · rintro other partner ⟨lives, apart⟩ route
    rw [parted] at route
    split at route
    · cases route
    rename_i unlinked
    obtain ⟨there, back⟩ := routed.back other partner lives route
    have elsewhere : partner ≠ c := by
      rintro rfl
      exact unlinked back
    refine ⟨⟨there, elsewhere⟩, ?_⟩
    rw [parted, if_neg, back]
    intro mine
    obtain ⟨-, same⟩ := routed.back c partner alive mine
    rw [back, some.injEq] at same
    exact apart same
  · rintro other ⟨lives, apart⟩ self
    rw [parted] at self
    split at self
    · cases self
    · exact routed.apart other lives self

theorem unroute_spec (linked : Linked (some c) server.base refs) (dead : Dead (some c) server.base)
    (routed : Routed (Live server) server.fields) (alive : Live server c) :
    ∃ base, unroute server c (server.fields c).routeconn =
        some { server with base, fields := parted c server.fields } ∧
      Linked (some c) base refs ∧ Dead (some c) base ∧
      (∀ other, numberOf base other = numberOf server.base other) ∧
      (∀ other, realmOf base other = realmOf server.base other) ∧
      (∀ d, stateOf base d = some .connected → stateOf server.base d = some .connected) ∧
      (∀ realm, serverOf base realm = serverOf server.base realm) ∧
      ∃ more, base.connDead = server.base.connDead ++ more ∧
        ∀ d ∈ more, ¬Plays (server.fields d).cclass := by
  cases route : (server.fields c).routeconn with
  | none =>
    rw [parted_none route]
    exact ⟨server.base, rfl, linked, dead, fun _ => rfl, fun _ => rfl, fun _ => id, fun _ => rfl,
      [], (append_nil _).symm, by simp⟩
  | some rc =>
    have partner := (routed.back c rc alive route).1
    have apart : rc ≠ c := by
      rintro rfl
      exact routed.apart rc alive route
    have mine : (parted c server.fields c).routeconn = some rc := by
      rw [parted, if_neg (routed.apart c alive), route]
    have still (other : Nat) (there : Live server other) :
        Live { server with fields := parted c server.fields } other := there
    simp only [unroute, conn_edit_live partner, parted_written route, conn_get_live (still c alive),
      mine, conn_get_live (still rc partner), (parted_fields c rc).1, bind_eq_bind, bind_some]
    by_cases follows : (server.fields rc).cclass = .w3route
    · rw [if_pos follows]
      obtain ⟨object, there⟩ := partner
      have known : some c ≠ some rc := fun same => apart (Option.some.inj same).symm
      obtain ⟨base, ran, kept, conns, realms, grows⟩ := set_state_dead dead known there .destroy
      obtain ⟨again, same, relinked, -, -, -, places⟩ :=
        RealmLinks.conn_set_state_spec linked there .destroy
      obtain rfl := some.inj (ran.symm.trans same)
      obtain ⟨more, list, only⟩ := grows rfl
      refine ⟨base, ?_, relinked, kept, fun other => ?_, places,
        settles_of_edit conns (by decide), fun realm => ?_, more, list, fun d member => ?_⟩
      · rw [connSetState, ran]
        rfl
      · have edited := number_of_edit server.base rc other .destroy
        rw [numberOf, conns]
        exact edited
      · rw [serverOf, realms, serverOf]
      · rw [only d member, follows]
        decide
    · rw [if_neg follows]
      exact ⟨server.base, rfl, linked, dead, fun _ => rfl, fun _ => rfl, fun _ => id,
        fun _ => rfl, [], (append_nil _).symm, by simp⟩

end Close

structure Intact (server : Server) : Prop where
  linked : ∃ refs, Linked none server.base refs
  dead : Dead none server.base
  serving : Serving server.base server.fields
  unplaced : Unplaced server.base server.fields
  routed : Routed (Live server) server.fields
  teamed : Teamed (Live server) server.fields
  matched : Matched (Live server) server.fields server.infos

def Others (server : Server) (c other : Nat) : Prop := Live server other ∧ other ≠ c

structure Alone (c : Nat) (server : Server) : Prop where
  linked : ∃ refs, Linked (some c) server.base refs
  dead : Dead (some c) server.base
  serving : Serving server.base server.fields
  unserved : ∀ realm, serverOf server.base realm ≠ some c
  unplaced : Unplaced server.base server.fields
  routed : Routed (Others server c) server.fields
  teamed : Teamed (Others server c) server.fields
  matched : Matched (Others server c) server.fields server.infos

def Unled (server : Server) (c : Nat) : Prop :=
  ∀ d a, Live server d → d ≠ c → (server.fields d).anongame = some a → a.tc.head? ≠ some (some c)

section Calls
variable {server : Server} {c : Nat} {conn : RealmLinks.Connection} (env : Env)

theorem end_service_spec (intact : Intact server) (alive : server.base.conns.get c = some conn) :
    ∃ after, endService env server c = some after ∧ Intact after ∧ Closing server after ∧
      ∀ realm, serverOf after.base realm ≠ some c := by
  obtain ⟨refs, linked⟩ := intact.linked
  have here : realmOf server.base c = some conn.realm := by rw [realmOf, alive]; rfl
  have stays : Closing server server := ⟨rfl, rfl, fun _ => rfl, fun _ => rfl, fun _ => id,
    fewer_refl _, [], (append_nil _).symm, by simp⟩
  have other_class (differs : (server.fields c).cclass ≠ .d2csBnetd) (realm : Nat) :
      serverOf server.base realm ≠ some c := fun serves =>
    differs (intact.serving realm c serves).2
  rw [endService, alive, bind_eq_bind, bind_some]
  by_cases serves : (server.fields c).cclass = .d2csBnetd
  · rw [if_pos serves]
    cases place : conn.realm with
    | none =>
      refine ⟨server, rfl, intact, stays, fun realm serving => ?_⟩
      have placed := (intact.serving realm c serving).1
      rw [here, place] at placed
      cases placed
    | some realm =>
      rw [place] at here
      obtain ⟨found, present⟩ := linked.there c realm ((linked.mem c realm).mpr here)
      obtain ⟨after, ran, relinked, kept, numbers, places, settles, -, servers, more, list,
        dying⟩ := close_realm_spec linked intact.dead intact.serving present
      have same : Live { server with base := after } = Live server := live_of_numbers numbers
      have fewer_servers (other d : Nat) (serving : serverOf after other = some d) :
          other ≠ realm ∧ serverOf server.base other = some d := by
        rw [servers] at serving
        split at serving
        · cases serving
        · exact ⟨‹_›, serving⟩
      refine ⟨{ server with base := after }, by rw [closeRealm, ran]; rfl,
        ⟨⟨refs, relinked⟩, kept, fun other d serving => ?_,
          intact.unplaced.of_same places settles fun _ => rfl, same ▸ intact.routed,
          same ▸ intact.teamed, same ▸ intact.matched⟩,
        ⟨rfl, rfl, numbers, places, settles, fewer_refl _, more, list, fun d member => ?_⟩,
        fun other serving => ?_⟩
      · rw [places]
        exact intact.serving other d (fewer_servers other d serving).2
      · rw [(intact.serving realm d (dying d member)).2]
        decide
      · obtain ⟨apart, before⟩ := fewer_servers other c serving
        have placed := (intact.serving other c before).1
        rw [here, Option.some.injEq, some.injEq] at placed
        exact apart placed.symm
  · rw [if_neg serves]
    by_cases routes : (server.fields c).cclass = .w3route
    · rw [if_pos routes]
      obtain ⟨fields, infos, ran, fewer, matched, kept⟩ :=
        end_route_spec env intact.routed intact.teamed intact.matched ⟨conn, alive⟩
      refine ⟨_, ran, ⟨⟨refs, linked⟩, intact.dead, ?_, ?_, ?_, ?_, matched⟩,
        ⟨rfl, rfl, fun _ => rfl, fun _ => rfl, fun _ => id, fewer, [], (append_nil _).symm,
          by simp⟩, other_class serves⟩
      · exact intact.serving.of_same (fun _ => rfl) (fun _ => rfl) fewer.cclass
      · exact intact.unplaced.of_same (fun _ => rfl) (fun _ => id) fewer.cclass
      · exact intact.routed.of_routes kept
      · exact intact.teamed.fewer fewer
    · rw [if_neg routes]
      exact ⟨server, rfl, intact, stays, other_class serves⟩

theorem conn_close_spec (intact : Intact server) (alive : Live server c) (unled : Unled server c) :
    ∃ after, connClose env server c = some after ∧ Alone c after ∧ Closing server after := by
  obtain ⟨conn, there⟩ := alive
  obtain ⟨ended, ends, still, closing, unserved⟩ := end_service_spec env intact there
  have lives := live_of_numbers closing.number
  obtain ⟨object, present⟩ : Live ended c := lives ▸ ⟨conn, there⟩
  obtain ⟨refs, linked⟩ := still.linked
  obtain ⟨quiet, refs, quits, spared, conns, connDead, servers⟩ := quit_realm_spec linked present
  -- the state is empty from here on
  let emptied : Server := { ended with base := editConn quiet c (inState .empty) }
  have emptyNumbers (other : Nat) : numberOf emptied.base other = numberOf ended.base other := by
    rw [number_of_edit, numberOf, conns, numberOf]
  have emptyLive : Live emptied = Live ended := live_of_numbers emptyNumbers
  have emptyPlaces (other : Nat) : realmOf emptied.base other = realmOf ended.base other := by
    rw [RealmLinks.realm_of_edit, realmOf, conns]
    by_cases same : other = c
    · rw [if_pos same, same, realmOf]
      rfl
    · rw [if_neg same, realmOf]
  have emptyDead : Dead (some c) emptied.base :=
    dead_edit (still.dead.of_conns conns connDead) c .empty
  have aliveEmpty : Live emptied c := emptyLive ▸ ⟨object, present⟩
  have emptySettles (d : Nat) (connected : stateOf emptied.base d = some .connected) :
      stateOf ended.base d = some .connected := by
    have before : stateOf quiet d = some .connected := settles_of_edit rfl (by decide) d connected
    rw [stateOf, conns] at before
    exact before
  obtain ⟨base, unroutes, unlinked, dead, numbers, places, settles, served, more, list, dying⟩ :=
    unroute_spec (linked_edit spared c .empty) emptyDead (emptyLive ▸ still.routed) aliveEmpty
  let parting : Server := { emptied with base, fields := parted c ended.fields }
  have partLive : Live parting = Live emptied := live_of_numbers numbers
  have fewer : Fewer ended.fields parting.fields :=
    ⟨fun other => (parted_fields c other).1, fun other a game => by
      rwa [(parted_fields c other).2] at game⟩
  have teamed : Teamed (Live parting) parting.fields :=
    (partLive.trans emptyLive) ▸ still.teamed.fewer fewer
  have matched : Matched (Live parting) parting.fields parting.infos :=
    (partLive.trans emptyLive) ▸ still.matched.of_games fun other => (parted_fields c other).2
  obtain ⟨infos, leaves, left⟩ := destroy_anongame_spec env teamed matched (partLive ▸ aliveEmpty)
  have close : connClose env server c =
      some { parting with fields := outOfGame c parting.fields, infos } := by
    simp only [connClose, ends, present, quits, bind_eq_bind, bind_some]
    rw [unroutes]
    exact leaves
  have whole : Fewer ended.fields (outOfGame c parting.fields) :=
    fewer.trans (out_of_game_fewer c parting.fields)
  have others : Others { parting with fields := outOfGame c parting.fields, infos } c =
      fun other => Live ended other ∧ other ≠ c := by
    rw [← emptyLive, ← partLive]
    rfl
  have sameServers (realm : Nat) : serverOf base realm = serverOf ended.base realm :=
    (served realm).trans (servers realm)
  refine ⟨_, close, ⟨⟨refs, unlinked⟩, dead, ?_, fun realm => ?_, ?_, ?_, ?_, ?_⟩, ?_⟩
  · exact still.serving.of_same sameServers
      (fun other => (places other).trans (emptyPlaces other)) whole.cclass
  · rw [sameServers]
    exact unserved realm
  · exact still.unplaced.of_same (fun other => (places other).trans (emptyPlaces other))
      (fun d connected => emptySettles d (settles d connected)) whole.cclass
  · rw [others]
    exact (parted_routed still.routed ⟨object, present⟩).of_routes fun other =>
      (out_of_game_fields other).1
  · rw [others]
    refine Teamed.others (still.teamed.fewer whole) fun d a there apart game => ?_
    exact unled d a (lives ▸ there) apart (closing.fewer.game d a (whole.game d a game))
  · exact left.others out_of_game_self
  · refine closing.trans ⟨rfl, rfl, fun other => ?_, fun other => ?_, fun d connected => ?_, whole,
      more, ?_, fun d member => ?_⟩
    · exact (numbers other).trans (emptyNumbers other)
    · exact (places other).trans (emptyPlaces other)
    · exact emptySettles d (settles d connected)
    · exact list.trans (congrArg (· ++ more) connDead)
    · exact dying d member

theorem conn_free_spec (alone : Alone c server) (alive : server.base.conns.get c = some conn) :
    ∃ after, connFree env server c = some after ∧ Intact after ∧ Live after = Others server c ∧
      (∀ d, d ≠ c → numberOf after.base d = numberOf server.base d) ∧
      after.base.connDead = server.base.connDead.erase c ∧ after.connHead = server.connHead ∧
      after.connarray = connarrayDelConn server.connarray conn.sessionnum ∧
      Fewer server.fields after.fields := by
  let after : Server := { server with
    base := { server.base with
      conns := server.base.conns.free c
      connDead := server.base.connDead.erase c }
    fields := notify env c server.fields
    connarray := connarrayDelConn server.connarray conn.sessionnum }
  have noticed (other : Nat) :
      (notify env c server.fields other).cclass = (server.fields other).cclass ∧
      (notify env c server.fields other).anongame = (server.fields other).anongame ∧
      (notify env c server.fields other).routeconn = (server.fields other).routeconn := by
    rw [notify]
    split <;> exact ⟨rfl, rfl, rfl⟩
  have fewer : Fewer server.fields after.fields :=
    ⟨fun other => (noticed other).1, fun other a game => by rwa [(noticed other).2.1] at game⟩
  have lives : Live after = Others server c := by
    funext other
    rw [Live, Store.get_free, Others, Live]
    by_cases same : other = c
    · simp [same]
    · simp [same]
  obtain ⟨refs, linked⟩ := alone.linked
  refine ⟨after, by rw [connFree, alive]; rfl, ⟨⟨refs, linked_free linked _⟩, dead_free alone.dead,
    fun realm d serves => ?_, fun d realm pending => ?_, ?_, ?_, ?_⟩, lives, fun d apart => ?_,
    rfl, rfl, rfl, fewer⟩
  · have apart : d ≠ c := by
      rintro rfl
      exact alone.unserved realm serves
    obtain ⟨placed, cclass⟩ := alone.serving realm d serves
    refine ⟨?_, (fewer.cclass d).trans cclass⟩
    rw [realmOf, Store.get_free, if_neg apart]
    exact placed
  · rw [realmOf, Store.get_free]
    rw [fewer.cclass, stateOf, Store.get_free] at pending
    by_cases same : d = c
    · simp [same]
    · rw [if_neg same] at pending ⊢
      exact alone.unplaced d realm pending
  · rw [lives]
    exact alone.routed.of_routes fun other => (noticed other).2.2
  · rw [lives]
    exact alone.teamed.fewer fewer
  · rw [lives]
    exact alone.matched.of_games fun other => (noticed other).2.1
  · rw [numberOf, Store.get_free, if_neg apart, numberOf]

end Calls

/-- The list of all connections, and the map from session numbers with its free list. -/
structure Listed (server : Server) : Prop where
  nodup : server.connHead.Nodup
  member : ∀ c, c ∈ server.connHead ↔ Live server c
  free : Free server.connarray
  held : ∀ index c, server.connarray.entries[index]? = some (some c) ↔
    ∃ number, numberOf server.base c = some number ∧ number.toNat = index
  small : server.connarray.entries.length < UInt32.size

/-- What one call of `conn_destroy` does to the lists, with the connections that it lets follow. -/
structure Destroyed (c : Nat) (more : List Nat) (server after : Server) : Prop where
  live : Live after = Others server c
  head : after.connHead = server.connHead.erase c
  dead : after.base.connDead = (server.base.connDead ++ more).erase c
  fewer : Fewer server.fields after.fields
  dying : ∀ d ∈ more, ¬Plays (server.fields d).cclass

section Destroy
variable {server : Server} {c : Nat} (env : Env)

theorem conn_destroy_spec (intact : Intact server) (listed : Listed server) (alive : Live server c)
    (unled : Unled server c) :
    ∃ after more, connDestroy env server c =
        some (after, cursorWithout (server.base.connDead ++ more) c) ∧
      Intact after ∧ Listed after ∧ Destroyed c more server after := by
  let taken : Server := { server with connHead := server.connHead.erase c }
  have still : Intact taken := ⟨intact.linked, intact.dead, intact.serving, intact.unplaced,
    intact.routed, intact.teamed, intact.matched⟩
  obtain ⟨closed, closes, alone, closing⟩ := conn_close_spec env still alive unled
  have lives : Live closed = Live server := live_of_numbers closing.number
  obtain ⟨conn, present⟩ : Live closed c := lives ▸ alive
  obtain ⟨after, frees, kept, left, numbers, dead, head, array, fewer⟩ :=
    conn_free_spec env alone present
  obtain ⟨more, list, dying⟩ := closing.grows
  have others : Live after = Others server c := by
    rw [left]
    funext other
    rw [Others, Others, lives]
  have number : numberOf server.base c = some conn.sessionnum := by
    rw [← closing.number c, numberOf, present]
    rfl
  have used := (listed.held conn.sessionnum.toNat c).mpr ⟨_, number, rfl⟩
  have sameArray : closed.connarray = server.connarray := closing.array
  obtain ⟨entries, free⟩ := del_conn_spec listed.free conn.sessionnum used
  rw [sameArray] at array
  have gone : numberOf after.base c = none := by
    have absent : ¬Live after c := by
      rw [others]
      exact fun both => both.2 rfl
    rw [numberOf, map_eq_none_iff, eq_none_iff_forall_ne_some]
    exact fun object there => absent ⟨object, there⟩
  obtain ⟨object, there⟩ := alive
  refine ⟨after, more, ?_, kept, ⟨?_, fun d => ?_, array ▸ free, fun index d => ?_, ?_⟩,
    ⟨others, head.trans closing.head, ?_, closing.fewer.trans fewer, dying⟩⟩
  · have inList := (listed.member c).mpr ⟨object, there⟩
    rw [connDestroy, there, bind_eq_bind, bind_some, if_pos inList]
    change (connClose env taken c).bind _ = _
    rw [closes, bind_some, frees, bind_eq_bind, bind_some, list]
  · rw [head, closing.head]
    exact listed.nodup.erase c
  · rw [head, closing.head, others, Others, ← listed.member]
    exact listed.nodup.mem_erase_iff.trans and_comm
  · rw [array, entries, getElem?_set]
    by_cases same : conn.sessionnum.toNat = index
    · refine iff_of_false (by split <;> simp) ?_
      rintro ⟨other, is, place⟩
      have apart : d ≠ c := by
        rintro rfl
        rw [gone] at is
        cases is
      rw [numbers d apart, closing.number] at is
      have holder := (listed.held index d).mpr ⟨other, is, place⟩
      rw [← same, used, some.injEq, some.injEq] at holder
      exact apart holder.symm
    · rw [if_neg same, listed.held]
      by_cases equal : d = c
      · subst equal
        rw [gone, number]
        simp [same]
      · rw [numbers d equal, closing.number]
  · rw [array, entries, length_set]
    exact listed.small
  · rw [dead, list]

end Destroy

end Pvpgn.ConnectionDestroy
