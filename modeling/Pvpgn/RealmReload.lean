import Mathlib.Data.List.Find
import Pvpgn.RealmUse

/-!
A new realm file on a live server. The references move from the old realms to the new ones while the
old realms are destroyed one by one.
-/

namespace Pvpgn.RealmReload
open Stdio ObjectList ObjectStore ReferenceChange RealmLinks RealmUse List Option Prod
open LinkedList (Cursor cursorBehind)

def findRealm (hit : Realm → Bool) (server : Server) : List Nat → Option (Option Nat)
  | [] => some none
  | curr :: rest => do
    let found ← server.realms.get curr
    if hit found then some (some curr) else findRealm hit server rest

def realmlistFindRealm (server : Server) (name : Text) : Option (Option Nat) :=
  findRealm (fun found => sameCaseless found.name name) server (realmlist server)

def newRealm (entry : Entry) : Realm where
  name := entry.name
  description := entry.description
  ip := entry.ip
  port := entry.port
  conn := none
  active := 0
  playerNumber := 0
  gameNumber := 0
  sessionnum := 0
  tcpSock := 0
  rcm := rcmInit

/-- A name that is listed already is refused by `realm_set_name`. -/
def realmCreate (server : Server) (entry : Entry) : Option (Server × Option Nat) := do
  let other ← realmlistFindRealm server entry.name
  if other.isSome then some (server, none)
  else some ({ server with realms := server.realms.append (newRealm entry) },
    some server.realms.allocated)

/-- The lines that hold a realm, which `list_prepend_data` puts in reverse order. -/
def loadEntries : List Entry → Server → List Nat → Option (Server × List Nat)
  | [], server, list => some (server, list)
  | entry :: rest, server, list => do
    let (server, created) ← realmCreate server entry
    loadEntries rest server (created.toList ++ list)

/-- A file that cannot be opened is `none`. -/
def realmlistLoad (server : Server) (file : Option (List Entry)) :
    Option (Server × Option (List Nat)) := do
  match file with
  | none => some (server, none)
  | some entries => do
    let (server, list) ← loadEntries entries server []
    some (server, some list)

/-- The body of the outer traversal, with what is left of the old list. -/
def reloadRealm (newlist : List Nat) (curr : Nat) (state : Server × List Nat) :
    Option ((Server × List Nat) × Option Cursor) := do
  let oldRealm ← state.1.realms.get curr
  let newRealm ← findRealm (fun found => oldRealm.name = found.name) state.1 newlist
  let server ← realmChref state.1 curr newRealm
  let server ← realmDestroy server curr
  some ((server, state.2.filter (· ≠ curr)), some (cursorWithout state.2 curr))

def reloadAll (newlist oldlist : List Nat) (server : Server) : Option (Server × List Nat) :=
  walk snd (reloadRealm newlist) (oldlist.length + 1) (server, oldlist) oldlist.head?

def realmlistReload (server : Server) (file : Option (List Entry)) : Option (Server × Int) := do
  let oldlist := realmlist server
  let (server, newlist) ← realmlistLoad { server with realmlistHead := none } file
  match newlist with
  | none => some (server, -1)
  | some newlist => do
    let (server, _) ← reloadAll newlist oldlist server
    some ({ server with realmlistHead := some newlist }, 0)

def realmlistCreate (server : Server) (file : Option (List Entry)) : Option (Server × Int) := do
  let (server, list) ← realmlistLoad server file
  some ({ server with realmlistHead := list }, if list.isSome then 0 else -1)

def emptyServer : Server := ⟨.empty, .empty, [], none⟩

/-! The new list. -/

def appended (store : Store Realm) (entries : List Entry) : Store Realm :=
  entries.foldl (fun store entry => store.append (newRealm entry)) store

theorem appended_get (entries : List Entry) (store : Store Realm) (realm : Nat) :
    (appended store entries).get realm = if realm < store.allocated then store.get realm
      else entries[realm - store.allocated]?.map newRealm := by
  induction entries generalizing store with
  | nil =>
    by_cases old : realm < store.allocated
    · rw [if_pos old]
      rfl
    rw [if_neg old]
    have unlisted : store.get realm = none :=
      find_none.mpr fun member => old (store.below realm member)
    simpa [appended] using unlisted
  | cons entry rest ih =>
    have next := ih (store.append (newRealm entry))
    rw [Store.append_allocated, Store.get_append] at next
    rw [appended, foldl_cons, ← appended, next]
    by_cases old : realm < store.allocated
    · rw [if_pos old, if_pos (by omega), if_neg (by omega)]
    rw [if_neg old]
    by_cases here : realm = store.allocated
    · rw [if_pos (by omega), if_pos here, here, Nat.sub_self]
      rfl
    obtain ⟨later, rfl⟩ := Nat.exists_eq_add_of_lt (by omega : store.allocated < realm)
    rw [if_neg (by omega), show store.allocated + later + 1 - (store.allocated + 1) = later by
      omega, show store.allocated + later + 1 - store.allocated = later + 1 by omega,
      getElem?_cons_succ]

theorem load_entries_spec (entries : List Entry) (server : Server) (list : List Nat)
    (headless : server.realmlistHead = none) : loadEntries entries server list =
      some ({ server with realms := appended server.realms entries },
        (range' server.realms.allocated entries.length).reverse ++ list) := by
  induction entries generalizing server list with
  | nil => rfl
  | cons entry rest ih =>
    have created : realmCreate server entry =
        some ({ server with realms := server.realms.append (newRealm entry) },
          some server.realms.allocated) := by
      rw [realmCreate, realmlistFindRealm, realmlist, headless]
      rfl
    rw [loadEntries, created, bind_eq_bind, bind_some]
    have rest := ih { server with realms := server.realms.append (newRealm entry) }
      (server.realms.allocated :: list) headless
    refine rest.trans ?_
    simp [appended, range'_succ]

/-! One turn of the outer traversal. -/

def nameOf (server : Server) (realm : Nat) : Option Text := (server.realms.get realm).map Realm.name

/-- The realm that takes over from an old one. -/
def successor (server : Server) (newlist : List Nat) (realm : Nat) : Option Nat :=
  newlist.find? fun new => nameOf server new = nameOf server realm

variable {server : Server}

theorem find_realm_name {oldRealm : Realm} {list : List Nat}
    (there : ∀ new ∈ list, ∃ found, server.realms.get new = some found) :
    findRealm (fun found => oldRealm.name = found.name) server list =
      some (list.find? fun new => nameOf server new = some oldRealm.name) := by
  induction list with
  | nil => rfl
  | cons new rest ih =>
    obtain ⟨found, present⟩ := there new mem_cons_self
    have later := ih fun other member => there other (mem_cons_of_mem _ member)
    rw [findRealm, present, bind_eq_bind, bind_some, later]
    by_cases same : oldRealm.name = found.name
    · simp [nameOf, present, same]
    · simp [nameOf, present, same, Ne.symm same]

theorem name_of_fields (server : Server) (realm : Nat) : nameOf server realm =
    ((server.realms.get realm).map (setRcm rcmInit)).map Realm.name := by
  rw [nameOf, Option.map_map]
  rfl

variable {found : Realm}

section Traversal
variable (start : Server) (newlist oldlist : List Nat)

/-- What both lists and the connections to the servers are before the traversal. -/
structure Ready : Prop where
  oldDistinct : oldlist.Nodup
  oldThere : ∀ realm ∈ oldlist, ∃ found, start.realms.get realm = some found
  newThere : ∀ realm ∈ newlist, ∃ found, start.realms.get realm = some found
  apart : ∀ realm ∈ newlist, realm ∉ oldlist
  served : ∀ realm found, start.realms.get realm = some found → Attended start found

/-- The old realms that are not left are gone, and their references are moved. -/
structure Halfway (state : Server) (back : List Nat) : Prop where
  linked : ∃ refs, Linked none state refs
  conns : addresses state.conns.objects = addresses start.conns.objects
  head : state.realmlistHead = start.realmlistHead
  realms : ∀ realm, (state.realms.get realm).map (setRcm rcmInit) =
    if realm ∈ oldlist ∧ realm ∉ back then none
    else (start.realms.get realm).map (setRcm rcmInit)
  places : ∀ c, realmOf state c = (realmOf start c).map fun place => place.bind fun realm =>
    if realm ∈ oldlist ∧ realm ∉ back then successor start newlist realm else some realm

variable {start newlist oldlist}

variable {back : List Nat} {state : Server} {curr : Nat}

theorem Halfway.still {realm : Nat} (half : Halfway start newlist oldlist state back)
    (left : realm ∈ oldlist → realm ∈ back) (present : start.realms.get realm = some found) :
    ∃ now, state.realms.get realm = some now ∧ setRcm rcmInit now = setRcm rcmInit found := by
  have fields := half.realms realm
  rw [if_neg fun both => both.2 (left both.1), present] at fields
  exact map_fields fields

theorem Halfway.successor {oldRealm : Realm} (ready : Ready start newlist oldlist)
    (half : Halfway start newlist oldlist state (curr :: back))
    (present : state.realms.get curr = some oldRealm) :
    findRealm (fun found => oldRealm.name = found.name) state newlist =
      some (RealmReload.successor start newlist curr) := by
  have names (realm : Nat) (left : realm ∈ oldlist → realm ∈ curr :: back) :
      nameOf state realm = nameOf start realm := by
    rw [name_of_fields, half.realms, if_neg fun both => both.2 (left both.1), ← name_of_fields]
  have there : ∀ new ∈ newlist, ∃ found, state.realms.get new = some found := by
    intro new member
    obtain ⟨found, before⟩ := ready.newThere new member
    obtain ⟨now, present, _⟩ := half.still (fun old => absurd old (ready.apart new member)) before
    exact ⟨now, present⟩
  have old : nameOf start curr = some oldRealm.name := by
    rw [← names curr fun _ => mem_cons_self, nameOf, present]
    rfl
  rw [find_realm_name there, RealmReload.successor, old]
  refine congrArg some (find?_congr fun new member => ?_)
  rw [names new fun old => absurd old (ready.apart new member)]

theorem successor_listed {realm new : Nat} (found : successor start newlist realm = some new) :
    new ∈ newlist ∧ nameOf start new = nameOf start realm :=
  ⟨mem_of_find?_eq_some found, by simpa using find?_some found⟩

theorem Halfway.current (ready : Ready start newlist oldlist) (listed : curr ∈ oldlist)
    (half : Halfway start newlist oldlist state (curr :: back)) :
    ∃ found, state.realms.get curr = some found ∧ Attended start found := by
  obtain ⟨found, before⟩ := ready.oldThere curr listed
  obtain ⟨now, present, fields⟩ := half.still (fun _ => mem_cons_self) before
  refine ⟨now, present, fun active c conn => ?_⟩
  obtain ⟨sameActive, sameConn⟩ := same_service fields
  exact ready.served curr found before (sameActive ▸ active) c (sameConn ▸ conn)

theorem reload_round {done : List Nat} (ready : Ready start newlist oldlist)
    (split : oldlist = done ++ curr :: back)
    (half : Halfway start newlist oldlist state (curr :: back)) :
    ∃ after, reloadRealm newlist curr (state, curr :: back) =
        some ((after, back), some .listhead) ∧ Halfway start newlist oldlist after back := by
  have listed : curr ∈ oldlist := by simp [split]
  have distinct : (curr :: back).Nodup := by
    have whole := ready.oldDistinct
    rw [split] at whole
    exact whole.of_append_right
  have away : curr ∉ back := (nodup_cons.mp distinct).1
  obtain ⟨found, present, served⟩ := half.current ready listed
  have hit := half.successor ready present
  have apart : RealmReload.successor start newlist curr ≠ some curr := fun same =>
    ready.apart curr (successor_listed same).1 listed
  obtain ⟨refs, linked⟩ := half.linked
  obtain ⟨moved, left, ran, relinked, same, empty, places⟩ :=
    realm_chref_spec linked ⟨found, present⟩ apart fun new equal => by
      have member := (successor_listed equal).1
      obtain ⟨fresh, before⟩ := ready.newThere new member
      obtain ⟨now, there, _⟩ := half.still (fun old => absurd old (ready.apart new member)) before
      exact ⟨now, there⟩
  have fields := same.realms curr
  rw [present] at fields
  obtain ⟨now, there, kept⟩ := map_fields fields
  obtain ⟨sameActive, sameConn⟩ := same_service kept
  obtain ⟨after, ended, finished, head, conns, still, realms⟩ :=
    realm_destroy_spec relinked empty there fun active c conn =>
      conns_alive (same.conns.trans half.conns)
        (served (sameActive ▸ active) c (sameConn ▸ conn))
  have others : (curr :: back).filter (· ≠ curr) = back := by
    rw [filter_cons_of_neg (by simp), filter_eq_self.mpr]
    intro other member
    simpa using ne_of_mem_of_not_mem member away
  have cursor : cursorWithout (curr :: back) curr = .listhead := by
    simp [cursorWithout, cursorBehind]
  have turned (realm : Nat) : (realm ∈ oldlist ∧ realm ∉ back) ↔
      realm = curr ∨ (realm ∈ oldlist ∧ realm ∉ curr :: back) := by
    by_cases equal : realm = curr
    · simp [equal, listed, away]
    · simp [equal]
  refine ⟨after, ?_, ⟨left, finished⟩, conns.trans (same.conns.trans half.conns),
    head.trans (same.head.trans half.head), fun realm => ?_, fun c => ?_⟩
  · simp only [reloadRealm, present, hit, ran, ended, others, cursor, bind_eq_bind, bind_some]
  · rw [realms]
    by_cases equal : realm = curr
    · rw [if_pos equal, if_pos ((turned realm).mpr (Or.inl equal))]
      rfl
    · rw [if_neg equal, same.realms, half.realms]
      simp only [turned, equal, false_or]
  rw [still, places, half.places, Option.map_map]
  refine congrFun (congrArg Option.map (funext fun place => ?_)) _
  cases place with
  | none => simp
  | some realm =>
    rw [Function.comp_apply, bind_some, bind_some]
    by_cases equal : realm = curr
    · subst equal
      simp [listed, away]
    by_cases past : realm ∈ oldlist ∧ realm ∉ curr :: back
    · rw [if_pos past, if_pos ((turned realm).mpr (Or.inr past)), if_neg]
      intro same
      exact ready.apart curr (successor_listed same).1 listed
    · have ahead : ¬ (realm ∈ oldlist ∧ realm ∉ back) := by
        rw [turned]
        exact not_or.mpr ⟨equal, past⟩
      rw [if_neg past, if_neg ahead, if_neg (by simpa using equal)]

theorem halfway_start (linked : ∃ refs, Linked none start refs) :
    Halfway start newlist oldlist start oldlist := by
  have never (realm : Nat) : ¬ (realm ∈ oldlist ∧ realm ∉ oldlist) := fun both => both.2 both.1
  refine ⟨linked, rfl, rfl, fun realm => by rw [if_neg (never realm)], fun c => ?_⟩
  cases realmOf start c with
  | none => rfl
  | some place => simp [never]

theorem reload_all_spec (ready : Ready start newlist oldlist)
    (linked : ∃ refs, Linked none start refs) :
    ∃ after, reloadAll newlist oldlist start = some (after, []) ∧
      Halfway start newlist oldlist after [] := by
  obtain ⟨⟨after, left⟩, ran, rfl, half⟩ := walk_rule snd (reloadRealm newlist)
    (fun state front back => front = [] ∧ state.2 = back ∧ (∃ done, oldlist = done ++ back) ∧
      Halfway start newlist oldlist state.1 back)
    (fun state => state.2 = [] ∧ Halfway start newlist oldlist state.1 [])
    (fun _ back => back.length)
    (by
      rintro ⟨state, left⟩ front ⟨_, finished, _, half⟩
      exact ⟨finished, half⟩)
    (by
      rintro ⟨state, left⟩ front curr back ⟨_, rfl, ⟨done, split⟩, half⟩
      obtain ⟨after, turned, next⟩ := reload_round ready split half
      exact ⟨(after, back), some .listhead, turned, [], back, rfl,
        ⟨rfl, rfl, ⟨done ++ [curr], by simp [split]⟩, next⟩, by simp⟩)
    (oldlist.length + 1) (start, oldlist) [] oldlist
    ⟨rfl, rfl, ⟨[], rfl⟩, halfway_start linked⟩ (Nat.lt_succ_self _)
  exact ⟨after, ran, half⟩

end Traversal

/-! A whole reload. -/

section Reload
variable {server : Server} {entries : List Entry}

def loaded (server : Server) (entries : List Entry) : Server :=
  { server with realms := appended server.realms entries, realmlistHead := none }

def newlistOf (server : Server) (entries : List Entry) : List Nat :=
  (range' server.realms.allocated entries.length).reverse

theorem mem_newlist (realm : Nat) : realm ∈ newlistOf server entries ↔
    ∃ entry, server.realms.get realm = none ∧
      (appended server.realms entries).get realm = some (newRealm entry) ∧ entry ∈ entries := by
  rw [newlistOf, mem_reverse, mem_range'_1, appended_get]
  constructor
  · rintro ⟨least, bound⟩
    have inside : realm - server.realms.allocated < entries.length := by omega
    refine ⟨entries[realm - server.realms.allocated], find_none.mpr fun member => ?_, ?_,
      getElem_mem inside⟩
    · exact absurd (server.realms.below realm member) (by omega)
    · rw [if_neg (by omega), getElem?_eq_getElem inside]
      rfl
  · rintro ⟨entry, unlisted, found, _⟩
    by_cases old : realm < server.realms.allocated
    · rw [if_pos old, unlisted] at found
      cases found
    rw [if_neg old] at found
    obtain ⟨_, inside, _⟩ := map_eq_some_iff.mp found
    obtain ⟨bound, _⟩ := List.getElem?_eq_some_iff.mp inside
    omega

theorem loaded_old {realm : Nat} (present : server.realms.get realm = some found) :
    (loaded server entries).realms.get realm = some found := by
  have below := server.realms.below realm
    ((server.realms.get_listed realm).mp ⟨found, present⟩)
  have same : (loaded server entries).realms.get realm =
      (appended server.realms entries).get realm := rfl
  rw [same, appended_get, if_pos below, present]

theorem loaded_cases {realm : Nat}
    (present : (loaded server entries).realms.get realm = some found) :
    server.realms.get realm = some found ∨
      (realm ∈ newlistOf server entries ∧ ∃ entry ∈ entries, found = newRealm entry) := by
  have same : (appended server.realms entries).get realm = some found := present
  have whole := same
  rw [appended_get] at same
  by_cases old : realm < server.realms.allocated
  · rw [if_pos old] at same
    exact Or.inl same
  rw [if_neg old] at same
  obtain ⟨entry, inside, rfl⟩ := map_eq_some_iff.mp same
  have member := mem_of_getElem? inside
  refine Or.inr ⟨(mem_newlist realm).mpr ⟨entry, find_none.mpr fun listed => ?_, whole, member⟩,
    entry, member, rfl⟩
  exact old (server.realms.below realm listed)

theorem loaded_linked {refs : Nat → List Nat} (linked : Linked none server refs) :
    Linked none (loaded server entries) refs := by
  refine ⟨fun realm found present => ?_, linked.placed, fun c realm member => ?_, linked.few⟩
  · rcases loaded_cases present with old | ⟨fresh, entry, _, rfl⟩
    · exact linked.counted realm found old
    obtain ⟨_, unlisted, _⟩ := (mem_newlist realm).mp fresh
    have empty : refs realm = [] := by
      apply eq_nil_iff_forall_not_mem.mpr
      intro c member
      obtain ⟨object, there⟩ := linked.there c realm member
      rw [there] at unlisted
      cases unlisted
    rw [empty]
    exact counted_init
  · obtain ⟨object, there⟩ := linked.there c realm member
    exact ⟨object, loaded_old there⟩

theorem loaded_ready (wellFormed : WellFormed server) :
    Ready (loaded server entries) (newlistOf server entries) (realmlist server) where
  oldDistinct := wellFormed.distinct
  oldThere := fun realm member => by
    obtain ⟨found, present⟩ := wellFormed.listed realm member
    exact ⟨found, loaded_old present⟩
  newThere := fun realm member => by
    obtain ⟨entry, _, present, _⟩ := (mem_newlist realm).mp member
    exact ⟨newRealm entry, present⟩
  apart := fun realm member old => by
    obtain ⟨_, unlisted, _⟩ := (mem_newlist realm).mp member
    obtain ⟨found, present⟩ := wellFormed.listed realm old
    rw [present] at unlisted
    cases unlisted
  served := fun realm found present active => by
    rcases loaded_cases present with old | ⟨_, entry, _, rfl⟩
    · exact wellFormed.served realm found old active
    · exact absurd rfl active

theorem realmlist_load_spec (server : Server) (entries : List Entry) :
    realmlistLoad { server with realmlistHead := none } (some entries) =
      some (loaded server entries, some (newlistOf server entries)) := by
  have read := load_entries_spec entries { server with realmlistHead := none } [] rfl
  rw [append_nil] at read
  rw [realmlistLoad]
  rw [read]
  rfl

theorem reload_spec (wellFormed : WellFormed server) (entries : List Entry) :
    ∃ after, realmlistReload server (some entries) =
        some ({ after with realmlistHead := some (newlistOf server entries) }, 0) ∧
      Halfway (loaded server entries) (newlistOf server entries) (realmlist server) after [] := by
  obtain ⟨refs, linked⟩ := wellFormed.linked
  have ready : Ready (loaded server entries) _ _ := loaded_ready wellFormed
  obtain ⟨after, ran, half⟩ := reload_all_spec ready ⟨refs, loaded_linked linked⟩
  refine ⟨after, ?_, half⟩
  rw [realmlistReload, realmlist_load_spec, bind_eq_bind, bind_some]
  dsimp only
  rw [ran]
  rfl

end Reload

def references (server : Server) (realm : Nat) : Nat :=
  server.conns.objects.countP fun entry => entry.2.realm = some realm

def realmName (server : Server) (c : Nat) : Option Text := do
  let place ← realmOf server c
  let realm ← place
  nameOf server realm

def Vanished (file : Option (List Entry)) (name : Text) : Prop :=
  ∃ entries, file = some entries ∧ ∀ entry ∈ entries, entry.name ≠ name

structure SameActivation (old new : Realm) : Prop where
  active : new.active ≠ 0 ↔ old.active ≠ 0
  conn : old.active ≠ 0 → new.conn = old.conn
  players : new.playerNumber = old.playerNumber
  games : new.gameNumber = old.gameNumber

/-- What a reload promises. -/
structure Reloaded (server after : Server) (file : Option (List Entry)) : Prop where
  inUse : ∀ realm ∈ realmlist after, ∃ found, after.realms.get realm = some found
  placed : ∀ c realm, realmOf after c = some (some realm) → realm ∈ realmlist after ∧
    realmName after c = realmName server c
  vanished : ∀ c name, realmOf after c = some none → realmName server c = some name →
    Vanished file name
  counted : ∀ realm found, after.realms.get realm = some found →
    found.rcm.count.toNat = references after realm
  kept : ∀ realm ∈ realmlist server, ∀ found, server.realms.get realm = some found →
    ¬ Vanished file found.name → ∃ new ∈ realmlist after, ∃ object,
      after.realms.get new = some object ∧ object.name = found.name ∧ SameActivation found object
  unchanged : file = none → after = server

theorem linked_references {refs : Nat → List Nat} (linked : Linked none server refs) (realm : Nat) :
    (refs realm).length = references server realm := by
  have perm : (refs realm).Perm (addresses (server.conns.objects.filter fun entry =>
      entry.2.realm = some realm)) := by
    have distinct : (addresses (server.conns.objects.filter fun entry =>
        entry.2.realm = some realm)).Nodup :=
      (filter_sublist.map fst).nodup server.conns.distinct
    refine (perm_ext_iff_of_nodup (linked.nodup realm) distinct).mpr fun c => ?_
    rw [linked.placed, addresses, List.mem_map]
    constructor
    · rintro ⟨_, conn, alive, placed⟩
      exact ⟨(c, conn), mem_filter.mpr ⟨(server.conns.get_mem c).mp alive, by simpa⟩, rfl⟩
    · rintro ⟨⟨_, conn⟩, member, rfl⟩
      obtain ⟨inside, placed⟩ := mem_filter.mp member
      exact ⟨by simp, conn, (server.conns.get_mem _).mpr inside, by simpa using placed⟩
  rw [perm.length_eq, addresses, length_map, references, countP_eq_length_filter]

section Settled
variable {server after : Server} {entries : List Entry}

theorem entry_created (server : Server) {entry : Entry} (member : entry ∈ entries) :
    ∃ realm ∈ newlistOf server entries,
      (loaded server entries).realms.get realm = some (newRealm entry) := by
  obtain ⟨index, bound, rfl⟩ := getElem_of_mem member
  have created : (appended server.realms entries).get (server.realms.allocated + index) =
      some (newRealm entries[index]) := by
    rw [appended_get, if_neg (by omega), Nat.add_sub_cancel_left, getElem?_eq_getElem bound]
    rfl
  refine ⟨server.realms.allocated + index, (mem_newlist _).mpr ⟨entries[index],
    find_none.mpr fun listed => ?_, created, member⟩, created⟩
  exact absurd (server.realms.below _ listed) (by omega)

variable {realm : Nat}

theorem new_there
    (half : Halfway (loaded server entries) (newlistOf server entries) (realmlist server) after [])
    (wellFormed : WellFormed server) (member : realm ∈ newlistOf server entries) :
    ∃ entry ∈ entries, (loaded server entries).realms.get realm = some (newRealm entry) ∧
      ∃ found, after.realms.get realm = some found ∧ setRcm rcmInit found = newRealm entry := by
  obtain ⟨entry, _, present, inside⟩ := (mem_newlist realm).mp member
  obtain ⟨found, still, fields⟩ := half.still
    (fun old => absurd old ((loaded_ready wellFormed).apart realm member)) present
  exact ⟨entry, inside, present, found, still, fields⟩

theorem place_moved {c : Nat} {place : Option Nat}
    (half : Halfway (loaded server entries) (newlistOf server entries) (realmlist server) after [])
    (wellFormed : WellFormed server) (here : realmOf after c = some place) :
    (place = none ∧ realmOf server c = some none) ∨ ∃ old, old ∈ realmlist server ∧
      realmOf server c = some (some old) ∧
      place = successor (loaded server entries) (newlistOf server entries) old := by
  have moved := half.places c
  have conns : realmOf (loaded server entries) c = realmOf server c := rfl
  rw [here, conns] at moved
  obtain ⟨before, known, became⟩ := map_eq_some_iff.mp moved.symm
  cases before with
  | none => exact Or.inl ⟨became.symm, known⟩
  | some old =>
    have listed := wellFormed.placed c old known
    rw [bind_some, if_pos ⟨listed, not_mem_nil⟩] at became
    exact Or.inr ⟨old, listed, known, became.symm⟩

theorem loaded_name (wellFormed : WellFormed server) (listed : realm ∈ realmlist server) :
    nameOf (loaded server entries) realm = nameOf server realm := by
  obtain ⟨found, present⟩ := wellFormed.listed realm listed
  rw [nameOf, nameOf, loaded_old present, present]

section
variable
  (half : Halfway (loaded server entries) (newlistOf server entries) (realmlist server) after [])
  (wellFormed : WellFormed server)
include half wellFormed

theorem new_name (member : realm ∈ newlistOf server entries) :
    nameOf after realm = nameOf (loaded server entries) realm := by
  obtain ⟨entry, _, before, found, present, fields⟩ := new_there half wellFormed member
  rw [nameOf, nameOf, before, present]
  have name := congrArg Realm.name fields
  exact congrArg some name

theorem reload_well_formed :
    WellFormed { after with realmlistHead := some (newlistOf server entries) } where
  linked := by
    obtain ⟨refs, linked⟩ := half.linked
    exact ⟨refs, linked.counted, linked.placed, linked.there, linked.few⟩
  distinct := nodup_reverse.mpr (nodup_range' )
  listed := fun realm member => by
    obtain ⟨_, _, _, found, present, _⟩ := new_there half wellFormed member
    exact ⟨found, present⟩
  placed := fun c realm here => by
    rcases place_moved half wellFormed here with ⟨never, _⟩ | ⟨old, _, _, hit⟩
    · cases never
    · exact (successor_listed hit.symm).1
  served := fun realm found present active c conn => by
    have fields := half.realms realm
    rw [present] at fields
    by_cases old : realm ∈ realmlist server
    · rw [if_pos ⟨old, not_mem_nil⟩] at fields
      cases fields
    rw [if_neg fun both => old both.1] at fields
    obtain ⟨before, was, same⟩ := map_fields fields.symm
    obtain ⟨sameActive, sameConn⟩ := same_service same
    exact conns_alive half.conns ((loaded_ready wellFormed).served realm before was
      (sameActive ▸ active) c (sameConn ▸ conn))

end

theorem same_activation_new {found object : Realm} {entry : Entry}
    (fields : setRcm rcmInit object = newRealm entry) : SameActivation found object ↔
      found.active = 0 ∧ found.playerNumber = 0 ∧ found.gameNumber = 0 := by
  have active : object.active = 0 := congrArg Realm.active fields
  have players : object.playerNumber = 0 := congrArg Realm.playerNumber fields
  have games : object.gameNumber = 0 := congrArg Realm.gameNumber fields
  constructor
  · rintro ⟨sameActive, _, samePlayers, sameGames⟩
    refine ⟨?_, samePlayers ▸ players, sameGames ▸ games⟩
    by_contra on
    exact sameActive.mpr on active
  · rintro ⟨idle, noPlayers, noGames⟩
    exact ⟨by simp [idle, active], fun on => absurd idle on, players.trans noPlayers.symm,
      games.trans noGames.symm⟩

theorem reloaded_iff
    (half : Halfway (loaded server entries) (newlistOf server entries) (realmlist server) after [])
    (wellFormed : WellFormed server) :
    Reloaded server { after with realmlistHead := some (newlistOf server entries) } (some entries) ↔
      ∀ realm ∈ realmlist server, ∀ found, server.realms.get realm = some found →
        ¬ Vanished (some entries) found.name →
        found.active = 0 ∧ found.playerNumber = 0 ∧ found.gameNumber = 0 := by
  have settled := reload_well_formed half wellFormed
  constructor
  · intro reloaded realm listed found present stays
    obtain ⟨new, member, object, there, _, same⟩ := reloaded.kept realm listed found present stays
    obtain ⟨entry, _, _, now, still, fields⟩ := new_there half wellFormed member
    rw [still] at there
    obtain rfl := some.inj there
    exact (same_activation_new fields).mp same
  intro idle
  refine ⟨settled.listed, fun c realm here => ⟨settled.placed c realm here, ?_⟩, ?_, ?_, ?_,
    fun never => by cases never⟩
  · rcases place_moved half wellFormed here with ⟨never, _⟩ | ⟨old, listed, before, hit⟩
    · cases never
    obtain ⟨member, name⟩ := successor_listed hit.symm
    have now : realmName { after with realmlistHead := some (newlistOf server entries) } c =
        nameOf after realm := by
      rw [realmName, here]
      rfl
    rw [now, new_name half wellFormed member, name, loaded_name wellFormed listed, realmName,
      before]
    rfl
  · intro c name here known
    rcases place_moved half wellFormed here with ⟨_, before⟩ | ⟨old, listed, before, hit⟩
    · rw [realmName, before] at known
      cases known
    refine ⟨entries, rfl, fun entry member same => ?_⟩
    obtain ⟨new, inside, created⟩ := entry_created server member
    have missed := find?_eq_none.mp hit.symm new inside
    have named : nameOf server old = some name := by
      rw [realmName, before] at known
      exact known
    rw [loaded_name wellFormed listed, named, nameOf, created] at missed
    exact missed (by simp [newRealm, same])
  · intro realm found present
    obtain ⟨refs, linked⟩ := settled.linked
    rw [(linked.counted realm found present).count, linked_references linked]
  · intro realm listed found present stays
    have inFile : ∃ entry ∈ entries, entry.name = found.name := by
      by_contra none
      exact stays ⟨entries, rfl, fun entry member same => none ⟨entry, member, same⟩⟩
    obtain ⟨entry, member, name⟩ := inFile
    obtain ⟨new, inside, created⟩ := entry_created server member
    obtain ⟨other, _, before, object, there, fields⟩ := new_there half wellFormed inside
    rw [created] at before
    have same := congrArg Realm.name fields
    rw [← some.inj before] at same
    exact ⟨new, inside, object, there, same.trans name,
      (same_activation_new fields).mpr (idle realm listed found present stays)⟩

end Settled

/-! Whole runs. -/

/-- A server that has read its realm file, after requests and reloads that could read theirs. -/
inductive Reached : Server → Prop where
  | create {entries : List Entry} {after : Server} {code : Int}
      (ran : realmlistCreate emptyServer (some entries) = some (after, code)) : Reached after
  | request {server after : Server} {call : Request} (reached : Reached server)
      (allowed : Allowed server call) (ran : request server call = some after) : Reached after
  | reload {server after : Server} {entries : List Entry} {code : Int} (reached : Reached server)
      (ran : realmlistReload server (some entries) = some (after, code)) : Reached after

theorem create_spec (entries : List Entry) : realmlistCreate emptyServer (some entries) =
    some ({ loaded emptyServer entries with realmlistHead := some (newlistOf emptyServer entries) },
      0) := by
  have read : realmlistLoad emptyServer (some entries) = _ :=
    realmlist_load_spec emptyServer entries
  rw [realmlistCreate, read]
  rfl

theorem create_well_formed (entries : List Entry) : WellFormed { loaded emptyServer entries with
    realmlistHead := some (newlistOf emptyServer entries) } where
  linked := by
    have bare : Linked none emptyServer fun _ => [] := by
      refine ⟨fun _ _ never => (by cases never), fun _ _ => ?_, fun _ _ never => (by cases never),
        by decide⟩
      simp [emptyServer]
    have linked : Linked none (loaded emptyServer entries) fun _ => [] := loaded_linked bare
    exact ⟨_, linked.counted, linked.placed, linked.there, linked.few⟩
  distinct := nodup_reverse.mpr nodup_range'
  listed := fun realm member => by
    obtain ⟨entry, _, present, _⟩ := (mem_newlist realm).mp member
    exact ⟨newRealm entry, present⟩
  placed := fun _ _ never => (by cases never)
  served := fun realm found present => by
    rcases loaded_cases present with never | ⟨_, entry, _, rfl⟩
    · cases never
    · exact fun active => absurd rfl active

theorem reached_well_formed (reached : Reached server) : WellFormed server := by
  induction reached with
  | create ran =>
    rw [create_spec] at ran
    obtain ⟨rfl, _⟩ := mk.inj (some.inj ran)
    exact create_well_formed _
  | request _ allowed ran ih =>
    obtain ⟨after, same, kept⟩ := request_well_formed ih allowed
    rw [same] at ran
    exact some.inj ran ▸ kept
  | @reload server _ entries _ _ ran ih =>
    obtain ⟨after, same, half⟩ := reload_spec ih entries
    rw [same] at ran
    obtain ⟨rfl, _⟩ := mk.inj (some.inj ran)
    exact reload_well_formed half ih

theorem Reached.requests {server after : Server} (reached : Reached server) {calls : List Request}
    (ran : requests server calls = some after) : Reached after := by
  induction calls generalizing server with
  | nil => exact some.inj ran ▸ reached
  | cons call rest ih =>
    rw [RealmUse.requests] at ran
    split at ran
    · obtain ⟨middle, called, later⟩ := bind_eq_some_iff.mp ran
      exact ih (reached.request ‹_› called) later
    · cases ran

def localRealm : Entry := ⟨text "Local", text "", 0x7F000001, 6113⟩

/-- A server with one realm, which its d2cs activates; then these calls. -/
def localServer (calls : List Request) : Option Server :=
  (realmlistCreate emptyServer (some [localRealm])).bind fun created =>
    requests created.1 ([.connect 1 7, .active 0 0] ++ calls)

theorem local_reached {calls : List Request} (made : localServer calls = some server) :
    Reached server := by
  obtain ⟨⟨created, code⟩, read, ran⟩ := bind_eq_some_iff.mp made
  exact (Reached.create read).requests ran

/-- A reload promises what it should as long as the file can be read and every realm that stays is
idle. -/
theorem reload_exact {server : Server} (wellFormed : WellFormed server)
    (file : Option (List Entry)) : ∃ after code,
      realmlistReload server file = some (after, code) ∧ (Reloaded server after file ↔
        (file = none → server.realmlistHead = none) ∧
        ∀ realm ∈ realmlist server, ∀ found, server.realms.get realm = some found →
          ¬ Vanished file found.name →
          found.active = 0 ∧ found.playerNumber = 0 ∧ found.gameNumber = 0) := by
  cases file with
  | none =>
    refine ⟨{ server with realmlistHead := none }, -1, rfl, ?_, ?_⟩
    · intro reloaded
      have headless : server.realmlistHead = none :=
        (congrArg Server.realmlistHead (reloaded.unchanged rfl)).symm
      refine ⟨fun _ => headless, fun realm listed => ?_⟩
      rw [realmlist, headless] at listed
      exact absurd listed not_mem_nil
    rintro ⟨headless, _⟩
    have empty : realmlist server = [] := by rw [realmlist, headless rfl]; rfl
    have same : { server with realmlistHead := none } = server := by
      rw [← headless rfl]
    rw [same]
    obtain ⟨refs, linked⟩ := wellFormed.linked
    refine ⟨wellFormed.listed, fun c realm here => ⟨wellFormed.placed c realm here, rfl⟩,
      fun c name here known => ?_, fun realm found present => ?_, fun realm listed => ?_,
      fun _ => rfl⟩
    · rw [realmName, here] at known
      cases known
    · rw [(linked.counted realm found present).count, linked_references linked]
    · rw [empty] at listed
      exact absurd listed not_mem_nil
  | some entries =>
    obtain ⟨after, ran, half⟩ := reload_spec wellFormed entries
    refine ⟨_, 0, ran, (reloaded_iff half wellFormed).trans ⟨fun idle => ?_, And.right⟩⟩
    exact ⟨fun never => (by cases never), idle⟩

/-- The d2cs has gone before the reload. -/
theorem idle_realm_kept : ∃ server after code, localServer [.deactive 0] = some server ∧
    realmlistReload server (some [localRealm]) = some (after, code) ∧
    Reloaded server after (some [localRealm]) := by
  have ready : (localServer [.deactive 0]).isSome := by decide +kernel
  obtain ⟨server, made⟩ := isSome_iff_exists.mp ready
  have idle : (localServer [.deactive 0]).all fun server => realmlist server = [0] ∧
      (server.realms.get 0).all fun found =>
        found.active = 0 ∧ found.playerNumber = 0 ∧ found.gameNumber = 0 := by
    decide +kernel
  simp only [made, all_some, decide_eq_true_eq] at idle
  obtain ⟨after, code, ran, exact⟩ :=
    reload_exact (reached_well_formed (local_reached made)) (some [localRealm])
  refine ⟨server, after, code, made, ran, exact.mpr ⟨fun never => (by cases never), ?_⟩⟩
  intro realm listed found present _
  rw [idle.1, mem_singleton] at listed
  have fields := idle.2
  rw [← listed, present] at fields
  simpa using fields

/-- The list is lost with a file that cannot be read, and the activation with the same file. -/
theorem realm_forgotten : ∃ server, localServer [] = some server ∧
    (∃ after, realmlistReload server none = some (after, -1) ∧ ¬ Reloaded server after none) ∧
    ∃ after, realmlistReload server (some [localRealm]) = some (after, 0) ∧
      ¬ Reloaded server after (some [localRealm]) := by
  have ready : (localServer []).isSome := by decide +kernel
  obtain ⟨server, made⟩ := isSome_iff_exists.mp ready
  have busy : (localServer []).all fun server => server.realmlistHead = some [0] ∧
      (server.realms.get 0).map Realm.name = some localRealm.name ∧
      (server.realms.get 0).map Realm.active = some 1 := by
    decide +kernel
  simp only [made, all_some, decide_eq_true_eq] at busy
  obtain ⟨head, name, active⟩ := busy
  refine ⟨server, made, ⟨_, rfl, fun reloaded => ?_⟩, ?_⟩
  · have same := congrArg Server.realmlistHead (reloaded.unchanged rfl)
    rw [head] at same
    cases same
  obtain ⟨after, ran, half⟩ := reload_spec (reached_well_formed (local_reached made)) [localRealm]
  refine ⟨_, ran, fun reloaded => ?_⟩
  obtain ⟨found, present, named⟩ := map_eq_some_iff.mp name
  rw [present] at active
  have stays : ¬ Vanished (some [localRealm]) found.name := by
    rintro ⟨entries, same, apart⟩
    obtain rfl := Option.some.inj same
    exact apart localRealm mem_cons_self named.symm
  have listed : 0 ∈ realmlist server := by
    rw [realmlist, head]
    exact mem_cons_self
  obtain ⟨idle, _⟩ := (reloaded_iff half (reached_well_formed (local_reached made))).mp reloaded 0
    listed found present stays
  have on : found.active = 1 := Option.some.inj active
  rw [idle] at on
  exact absurd on (by decide)

end Pvpgn.RealmReload
