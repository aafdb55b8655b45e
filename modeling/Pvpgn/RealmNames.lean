import Pvpgn.HashTable
import Pvpgn.RealmServer

/-!
The connections of `d2cs/connection.cpp` in two hash tables: one by session number, and one by the
name of the character that is logged in. The lookup of a character hashes the name and then walks
the table by session number.
-/

namespace Pvpgn.RealmNames
open Stdio LinkedMemory HashTable List Option Function Prod
open RealmServer (Game gameFindCharacter)
open ObjectList (Objects)

section Model

structure Connection where
  sessionnum : UInt32
  sessionnumHash : UInt32
  charname : Option Text
  charnameHash : UInt32

structure World where
  conns : Memory Connection
  connlist : Hashtable Nat
  connCharnameList : Hashtable Nat
  sessionnum : UInt32

def connSessionnumHash (sessionnum : UInt32) : UInt32 := sessionnum

def rotl (x n : UInt32) : UInt32 := (x <<< (n &&& 31)) ||| (x >>> ((-n) &&& 31))

/-- The loop of `conn_charname_hash`. -/
def charnameHashLoop (hash pos : UInt32) : Text → UInt32
  | [] => hash
  | byte :: rest =>
    let ch := (if byte < 128 then tolower byte else byte).toUInt32
    charnameHashLoop (hash ^^^ rotl ch pos) (pos + 7) rest

def connCharnameHash (charname : Text) : UInt32 := charnameHashLoop 0 0 charname

def d2csConnlistCreate : Option World := do
  let connlist ← hashtableCreate 200
  let connCharnameList ← hashtableCreate 200
  some ⟨∅, connlist, connCharnameList, 1⟩

/-- `c` and `entry` are the addresses that the allocator returns for the connection and its entry
in the table. -/
def d2csConnCreate (world : World) (c entry : Nat) : Option World := do
  let conn : Connection := ⟨world.sessionnum, connSessionnumHash world.sessionnum, none, 0⟩
  let conns ← allocate world.conns c conn
  let connlist ← hashtableInsertData world.connlist entry c conn.sessionnumHash.toNat
  some { world with conns, connlist, sessionnum := world.sessionnum + 1 }

def dropCharname (world : World) (c : Nat) (conn : Connection) : Option (World × Int) :=
  match conn.charname with
  | none => some (world, 0)
  | some _ => do
    let (table, result) ← hashtableRemoveData world.connCharnameList c conn.charnameHash.toNat
    if result < 0 then some ({ world with connCharnameList := table }, -1)
    else do
      let table ← hashtablePurge table
      some ({ world with connCharnameList := table }, 0)

def d2csConnSetCharname (world : World) (c : Nat) (charname : Option Text) (entry : Nat) :
    Option (World × Int) := do
  let conn ← load world.conns c
  let (world, result) ← dropCharname world c conn
  if result < 0 then some (world, -1)
  else match charname with
    | some charname => do
      let charnameHash := connCharnameHash charname
      let connCharnameList ←
        hashtableInsertData world.connCharnameList entry c charnameHash.toNat
      let conns ← store world.conns c { conn with charname := some charname, charnameHash }
      some ({ world with conns, connCharnameList }, 0)
    | none => do
      let conns ← store world.conns c { conn with charname := none, charnameHash := 0 }
      some ({ world with conns }, 0)

def d2csConnDestroy (world : World) (c : Nat) : Option (World × Int) := do
  let conn ← load world.conns c
  let (connlist, result) ← hashtableRemoveData world.connlist c conn.sessionnumHash.toNat
  if result < 0 then some ({ world with connlist }, -1)
  else do
    let world := { world with connlist }
    let world ← if conn.charname.isSome then (d2csConnSetCharname world c none 0).map fst
      else some world
    let conns ← release world.conns c
    some ({ world with conns }, 0)

def named (conn : Connection) (charname : Text) : Bool :=
  conn.charname.any fun name => sameCaseless name charname

/-- The loop of `d2cs_connlist_find_connection_by_charname`. -/
def findLoop (world : World) (charname : Text) : Nat → Option Entry → Option (Option Nat)
  | _, none => some none
  | 0, some _ => none
  | rounds + 1, some curr => do
    let data ← entryGetData world.connlist curr
    let c ← data
    let conn ← load world.conns c
    if named conn charname then some (some c)
    else do
      let following ← entryGetNextMatching world.connlist curr
      findLoop world charname rounds following

def d2csConnlistFindConnectionByCharname (world : World) (charname : Text) :
    Option (Option Nat) := do
  let curr ← hashtableGetFirstMatching world.connlist (connCharnameHash charname).toNat
  findLoop world charname world.connlist.len curr

def connCheckMultilogin (enabled : Bool) (games : Objects Game) (world : World) (c : Nat)
    (charname : Text) : Option Int :=
  if !enabled then some 0
  else if games.any fun entry => (gameFindCharacter entry.2 charname).isSome then some (-1)
  else do
    match ← d2csConnlistFindConnectionByCharname world charname with
    | some conn => some (if conn ≠ c then -1 else 0)
    | none => some 0

inductive Event
  | create (c entry : Nat)
  | setCharname (c : Nat) (charname : Option Text) (entry : Nat)
  | destroy (c : Nat)
  | purge

def step (world : World) : Event → Option World
  | .create c entry => d2csConnCreate world c entry
  | .setCharname c charname entry => (d2csConnSetCharname world c charname entry).map fst
  | .destroy c => (d2csConnDestroy world c).map fst
  | .purge => (hashtablePurge world.connlist).map fun connlist => { world with connlist }

inductive Reached : World → Prop
  | create {world : World} (created : d2csConnlistCreate = some world) : Reached world
  | step {world after : World} (before : Reached world) (event : Event)
      (ran : step world event = some after) : Reached after

end Model

section Tables

/-- The table has every element in the row of its hash, once. -/
structure Indexed (table : Hashtable Nat) (place : Nat → Option Nat) : Prop where
  rows : table.numRows = 200
  ledger : ∃ ledger, Represents table ledger ∧ ledger.Nodup ∧
    ∀ c row, (c, row) ∈ ledger ↔ place c = some row

variable {table after : Hashtable Nat} {place : Nat → Option Nat}

theorem indexed_create : ∃ table : Hashtable Nat, hashtableCreate 200 = some table ∧
    Indexed table fun _ => none := by
  obtain ⟨table, made, rows, _⟩ : ∃ table : Hashtable Nat, hashtableCreate 200 = some table ∧
      table.numRows = 200 ∧ Holds table fun _ => [] := create_holds 200 (by decide)
  exact ⟨table, made, rows, 0, built_represents table 0 (.create 200 table made),
    Multiset.nodup_zero, by simp⟩

theorem insert_fresh {entry c hash : Nat}
    (inserted : hashtableInsertData table entry c hash = some after) :
    load table.memory entry = none := by
  obtain ⟨first, _, rest⟩ := bind_eq_some_iff.mp inserted
  obtain ⟨memory, allocated, _⟩ := bind_eq_some_iff.mp rest
  by_contra used
  rw [allocate, if_pos (isSome_iff_ne_none.mpr used)] at allocated
  cases allocated

theorem indexed_insert (indexed : Indexed table place) {entry c hash : Nat}
    (inserted : hashtableInsertData table entry c hash = some after) (new : place c = none) :
    Indexed after (update place c (some (hash % 200))) := by
  obtain ⟨ledger, represents, distinct, exact_⟩ := indexed.ledger
  obtain ⟨made, _, performed, rows, represented⟩ := perform_settles table ledger represents
    (.insertData entry c hash) (insert_fresh inserted)
  rw [perform, inserted, map_some, some.injEq, mk.injEq] at performed
  rw [← performed.1, settle, indexed.rows] at represented
  refine ⟨by rw [performed.1, rows, indexed.rows], _, represented, ?_, ?_⟩
  · refine Multiset.nodup_cons.mpr ⟨fun member => ?_, distinct⟩
    rw [exact_, new] at member
    cases member
  intro other row
  rw [Multiset.mem_cons, exact_]
  by_cases same : other = c
  · subst same
    simp [new, eq_comm]
  · simp [same]

theorem indexed_remove (indexed : Indexed table place) {c hash : Nat}
    (old : place c = some (hash % 200)) :
    ∃ after, hashtableRemoveData table c hash = some (after, 0) ∧
      Indexed after (update place c none) := by
  obtain ⟨ledger, represents, distinct, exact_⟩ := indexed.ledger
  have listed : (c, hash % table.numRows) ∈ ledger := by rw [indexed.rows, exact_, old]
  obtain ⟨after, removed, rows, represented⟩ := remove_listed represents listed
  refine ⟨after, removed, rows.trans indexed.rows, _, represented, distinct.erase _, ?_⟩
  intro other row
  rw [distinct.mem_erase_iff, exact_, indexed.rows]
  by_cases same : other = c
  · subst same
    simp [old, eq_comm]
  · simp [same]

theorem indexed_purge (indexed : Indexed table place) :
    ∃ after, hashtablePurge table = some after ∧ Indexed after place := by
  obtain ⟨ledger, represents, distinct, exact_⟩ := indexed.ledger
  obtain ⟨made, _, performed, rows, represented⟩ :=
    perform_settles table ledger represents .purge trivial
  obtain ⟨after, purged, same⟩ := map_eq_some_iff.mp performed
  rw [mk.injEq] at same
  exact ⟨after, purged, by rw [same.1, rows, indexed.rows], ledger, same.1 ▸ represented, distinct,
    exact_⟩

end Tables

section Connections

def numberRow (conn : Connection) : Option Nat := some (conn.sessionnumHash.toNat % 200)

def nameRow (conn : Connection) : Option Nat :=
  conn.charname.map fun _ => conn.charnameHash.toNat % 200

def placed (conns : Memory Connection) (row : Connection → Option Nat) (c : Nat) : Option Nat :=
  (load conns c).bind row

/-- Both tables have what they should, so no rename and no removal fails. -/
structure Consistent (world : World) : Prop where
  numbers : Indexed world.connlist (placed world.conns numberRow)
  names : Indexed world.connCharnameList (placed world.conns nameRow)
  hashed : ∀ c conn, load world.conns c = some conn →
    conn.sessionnumHash = conn.sessionnum ∧
      ∀ charname, conn.charname = some charname → conn.charnameHash = connCharnameHash charname

variable (conns : Memory Connection) (row : Connection → Option Nat)

theorem placed_insert (c : Nat) (conn : Connection) :
    placed (conns.insert c conn) row = update (placed conns row) c (row conn) := by
  funext other
  rw [placed, load_insert]
  by_cases same : other = c
  · rw [if_pos same, same, update_self, bind_some]
  · rw [if_neg same, update_of_ne same, placed]

theorem placed_erase (c : Nat) :
    placed (conns.erase c) row = update (placed conns row) c none := by
  funext other
  rw [placed, load_erase]
  by_cases same : other = c
  · rw [if_pos same, same, update_self, bind_none]
  · rw [if_neg same, update_of_ne same, placed]

variable {world : World} {c : Nat} {conn : Connection}

theorem create_consistent (created : d2csConnlistCreate = some world) : Consistent world := by
  obtain ⟨table, made, indexed⟩ := indexed_create
  rw [d2csConnlistCreate, made] at created
  cases created
  exact ⟨indexed, indexed, by rintro c conn ⟨⟩⟩

variable {entry : Nat}

theorem conn_create_consistent {after : World} (consistent : Consistent world)
    (ran : d2csConnCreate world c entry = some after) : Consistent after := by
  obtain ⟨conns, allocated, rest⟩ := bind_eq_some_iff.mp ran
  obtain ⟨connlist, inserted, same⟩ := bind_eq_some_iff.mp rest
  cases same
  have fresh : load world.conns c = none := by
    by_contra used
    rw [allocate, if_pos (isSome_iff_ne_none.mpr used)] at allocated
    cases allocated
  rw [allocate_fresh _ _ _ fresh] at allocated
  cases allocated
  have unplaced (row : Connection → Option Nat) : placed world.conns row c = none := by
    rw [placed, fresh, bind_none]
  refine ⟨?_, ?_, ?_⟩
  · rw [placed_insert]
    exact indexed_insert consistent.numbers inserted (unplaced numberRow)
  · rw [placed_insert, show nameRow _ = none from rfl, ← unplaced nameRow, update_eq_self]
    exact consistent.names
  intro other conn found
  rw [load_insert] at found
  split at found
  · cases found
    exact ⟨rfl, by rintro charname ⟨⟩⟩
  · exact consistent.hashed other conn found

theorem drop_charname (world : World)
    (names : Indexed world.connCharnameList (placed world.conns nameRow))
    (found : load world.conns c = some conn) :
    ∃ table, dropCharname world c conn = some ({ world with connCharnameList := table }, 0) ∧
      Indexed table (update (placed world.conns nameRow) c none) := by
  have here : placed world.conns nameRow c = nameRow conn := by
    rw [placed, found, bind_some]
  cases old : conn.charname with
  | none =>
    rw [nameRow, old, map_none] at here
    refine ⟨world.connCharnameList, by rw [dropCharname, old], ?_⟩
    rw [← here, update_eq_self]
    exact names
  | some charname =>
    rw [nameRow, old, map_some] at here
    obtain ⟨removed, done, indexed⟩ := indexed_remove names here
    obtain ⟨purged, swept, still⟩ := indexed_purge indexed
    refine ⟨purged, ?_, still⟩
    simp only [dropCharname, old, done, bind_eq_bind, bind_some]
    rw [if_neg (by decide)]
    simp only [swept, bind_some]

theorem set_charname_consistent {after : World} (consistent : Consistent world)
    (found : load world.conns c = some conn) {charname : Option Text} {result : Int}
    (ran : d2csConnSetCharname world c charname entry = some (after, result)) :
    result = 0 ∧ Consistent after ∧ after.connlist = world.connlist ∧
      ∃ charnameHash, after.conns = world.conns.insert c { conn with charname, charnameHash } := by
  obtain ⟨table, dropped, indexed⟩ := drop_charname world consistent.names found
  simp only [d2csConnSetCharname, found, dropped, bind_eq_bind, bind_some] at ran
  have numbers (later : Connection) (same : later.sessionnumHash = conn.sessionnumHash) :
      Indexed world.connlist (placed (world.conns.insert c later) numberRow) := by
    have here : placed world.conns numberRow c = numberRow later := by
      rw [placed, found, bind_some, numberRow, numberRow, same]
    rw [placed_insert, ← here, update_eq_self]
    exact consistent.numbers
  have hashed (later : Connection) (same : later.sessionnumHash = conn.sessionnumHash ∧
      later.sessionnum = conn.sessionnum)
      (name : ∀ charname, later.charname = some charname →
        later.charnameHash = connCharnameHash charname) :
      ∀ other conn, load (world.conns.insert c later) other = some conn →
        conn.sessionnumHash = conn.sessionnum ∧
          ∀ charname, conn.charname = some charname →
            conn.charnameHash = connCharnameHash charname := by
    intro other conn' present
    rw [load_insert] at present
    split at present
    · cases present
      exact ⟨by rw [same.1, same.2, (consistent.hashed c conn found).1], name⟩
    · exact consistent.hashed other conn' present
  have again (place : Option Nat) :
      update (update (placed world.conns nameRow) c none) c place =
        update (placed world.conns nameRow) c place := update_idem _ _ _
  cases charname with
  | none =>
    simp only [store_allocated _ _ _ _ found, bind_some] at ran
    cases ran
    refine ⟨rfl, ⟨numbers _ rfl, ?_, hashed _ ⟨rfl, rfl⟩ (by simp)⟩, rfl, _, rfl⟩
    rw [placed_insert]
    exact indexed
  | some charname =>
    obtain ⟨later, inserted, rest⟩ := bind_eq_some_iff.mp ran
    simp only [store_allocated _ _ _ _ found, bind_some] at rest
    cases rest
    refine ⟨rfl, ⟨numbers _ rfl, ?_, hashed _ ⟨rfl, rfl⟩ (by simp)⟩, rfl, _, rfl⟩
    rw [placed_insert, ← again]
    exact indexed_insert indexed inserted (update_self ..)

theorem conn_destroy_consistent (consistent : Consistent world)
    (found : load world.conns c = some conn) :
    ∃ after, d2csConnDestroy world c = some (after, 0) ∧ Consistent after := by
  have number : placed world.conns numberRow c = some (conn.sessionnumHash.toNat % 200) := by
    rw [placed, found, bind_some, numberRow]
  obtain ⟨connlist, removed, numbers⟩ := indexed_remove consistent.numbers number
  have hashed (conns : Memory Connection)
      (kept : ∀ other conn, load conns other = some conn → load world.conns other = some conn) :
      ∀ other conn, load conns other = some conn → conn.sessionnumHash = conn.sessionnum ∧
        ∀ charname, conn.charname = some charname → conn.charnameHash = connCharnameHash charname :=
    fun other conn present => consistent.hashed other conn (kept other conn present)
  simp only [d2csConnDestroy, found, removed, bind_eq_bind, bind_some]
  cases old : conn.charname with
  | none =>
    simp only [isSome_none, Bool.false_eq_true, if_false, bind_some, release_allocated _ _ _ found]
    have unnamed : placed world.conns nameRow c = none := by
      rw [placed, found, bind_some, nameRow, old, map_none]
    refine ⟨_, rfl, ?_, ?_, hashed _ fun other conn present => ?_⟩
    · rw [placed_erase]
      exact numbers
    · rw [placed_erase, ← unnamed, update_eq_self]
      exact consistent.names
    · rw [load_erase] at present
      split at present
      · cases present
      · exact present
  | some charname =>
    obtain ⟨table, dropped, names⟩ := drop_charname { world with connlist } consistent.names found
    have cleared : d2csConnSetCharname { world with connlist } c none 0 =
        some ({ world with
          connlist, connCharnameList := table
          conns := world.conns.insert c { conn with charname := none, charnameHash := 0 } },
          0) := by
      simp only [d2csConnSetCharname, found, dropped, bind_eq_bind, bind_some]
      rw [if_neg (by decide)]
      simp only [store_allocated _ _ _ _ found, bind_some]
    have inserted := load_insert world.conns c c
      { conn with charname := none, charnameHash := 0 }
    rw [if_pos rfl] at inserted
    simp only [isSome_some, if_true, cleared, map_some, bind_some, release_allocated _ _ _ inserted]
    refine ⟨_, rfl, ?_, ?_, hashed _ fun other conn present => ?_⟩
    · rw [placed_erase, placed_insert, update_idem]
      exact numbers
    · rw [placed_erase, placed_insert, update_idem]
      exact names
    · rw [load_erase] at present
      split at present
      · cases present
      · next apart =>
          rwa [load_insert, if_neg apart] at present

theorem reached_consistent (reached : Reached world) : Consistent world := by
  induction reached with
  | create created => exact create_consistent created
  | step before event ran ih =>
    cases event with
    | create c entry => exact conn_create_consistent ih ran
    | setCharname c charname entry =>
      obtain ⟨⟨after, result⟩, set, rfl⟩ := map_eq_some_iff.mp ran
      obtain ⟨conn, found, _⟩ := bind_eq_some_iff.mp set
      exact (set_charname_consistent ih found set).2.1
    | destroy c =>
      obtain ⟨⟨after, result⟩, destroyed, rfl⟩ := map_eq_some_iff.mp ran
      obtain ⟨conn, found, _⟩ := bind_eq_some_iff.mp destroyed
      obtain ⟨again, same, consistent⟩ := conn_destroy_consistent ih found
      rw [destroyed, some.injEq, mk.injEq] at same
      exact same.1 ▸ consistent
    | purge =>
      obtain ⟨connlist, purged, rfl⟩ := map_eq_some_iff.mp ran
      obtain ⟨again, same, indexed⟩ := indexed_purge ih.numbers
      rw [purged, some.injEq] at same
      exact ⟨same ▸ indexed, ih.names, ih.hashed⟩

end Connections

section Lookups

def members (chains : Chains Nat) (row : Nat) : List Nat :=
  ((slots chains [row]).filter liveSlot).filterMap snd

def isNamed (world : World) (charname : Text) (c : Nat) : Bool :=
  (load world.conns c).any fun conn => named conn charname

theorem find_loop (world : World) (charname : Text) {chains : Chains Nat}
    (holds : Holds world.connlist chains) {row : Nat} (inside : row < world.connlist.numRows)
    (loaded : ∀ c ∈ members chains row, ∃ conn, load world.conns c = some conn) (rounds : Nat)
    (front back : List (Entry × Option Nat)) (split : slots chains [row] = front ++ back)
    (enough : (back.filter liveSlot).length ≤ rounds) :
    findLoop world charname rounds ((back.find? liveSlot).map fst) =
      some (((back.filter liveSlot).filterMap snd).find? (isNamed world charname)) := by
  induction rounds generalizing front back with
  | zero =>
    have noneLeft : back.filter liveSlot = [] := length_eq_zero_iff.mp (by omega)
    have notFound : back.find? liveSlot = none := by
      rw [find?_eq_none]
      exact filter_eq_nil_iff.mp noneLeft
    rw [noneLeft, notFound]
    rfl
  | succ rounds ih =>
    cases found : back.find? liveSlot with
    | none =>
      have noneLeft : back.filter liveSlot = [] := by
        rw [filter_eq_nil_iff]
        exact find?_eq_none.mp found
      rw [noneLeft]
      rfl
    | some slot =>
      obtain ⟨skipped, rest, c, shape, backSplit, shown⟩ := find_live_split back slot found
      obtain ⟨entry, content⟩ := slot
      obtain ⟨_, rfl⟩ := mk.inj shape
      have whole : slots chains [row] = (front ++ skipped) ++ (entry, some c) :: rest := by
        rw [split, backSplit, append_assoc]
      have rowListed := slot_listed chains [row] (entry, some c) (by simp [whole])
      have read : entryGetData world.connlist entry = some (some c) := by
        have here : entry.row = row := by simpa using rowListed.1
        exact holds.contents _ (here ▸ inside) _ rowListed.2
      have member : c ∈ members chains row := by
        rw [members, mem_filterMap]
        exact ⟨(entry, some c), mem_filter.mpr ⟨by simp [whole], rfl⟩, rfl⟩
      obtain ⟨conn, present⟩ := loaded c member
      have following := get_next_matching_exact world.connlist chains holds row inside _ _ _
        whole
      have later := ih (front ++ skipped ++ [(entry, some c)]) rest (by rw [whole]; simp) (by
        rw [shown, length_cons] at enough
        omega)
      have test : isNamed world charname c = named conn charname := by
        rw [isNamed, present, any_some]
      have parts : ((entry, some c) :: rest.filter liveSlot).filterMap snd =
          c :: (rest.filter liveSlot).filterMap snd := rfl
      rw [shown, parts, find?_cons, test, map_some, findLoop]
      simp only [read, present, following, later, bind_eq_bind, bind_some]
      cases named conn charname <;> rfl

theorem mem_members {table : Hashtable Nat} {place : Nat → Option Nat}
    (indexed : Indexed table place) : ∃ chains, Holds table chains ∧
      ∀ c row, row < 200 → (c ∈ members chains row ↔ place c = some row) := by
  obtain ⟨ledger, ⟨chains, holds, rfl⟩, _, exact_⟩ := indexed.ledger
  refine ⟨chains, holds, fun c row inside => ?_⟩
  rw [← exact_, Multiset.mem_coe, pairs_listed, indexed.rows, members]
  constructor
  · intro member
    obtain ⟨slot, kept, same⟩ := mem_filterMap.mp member
    obtain ⟨listed, item⟩ := slot_listed chains [row] slot (mem_filter.mp kept).1
    have here : slot.1.row = row := by simpa using listed
    exact ⟨mem_range.mpr inside, slot.1.real, by rw [← same, ← here]; exact item⟩
  · rintro ⟨_, address, item⟩
    refine mem_filterMap.mpr ⟨(⟨row, address⟩, some c), mem_filter.mpr ⟨?_, rfl⟩, rfl⟩
    exact mem_flatMap.mpr ⟨row, by simp, mem_map.mpr ⟨_, item, rfl⟩⟩

theorem lookup {world : World} (reached : Reached world) (charname : Text) :
    ∃ found, d2csConnlistFindConnectionByCharname world charname = some found ∧
      (∀ c, found = some c → ∃ conn, load world.conns c = some conn ∧ named conn charname = true) ∧
      (found = none ↔ ∀ c conn, load world.conns c = some conn → named conn charname = true →
        conn.sessionnum.toNat % 200 ≠ (connCharnameHash charname).toNat % 200) := by
  have consistent := reached_consistent reached
  have rows := consistent.numbers.rows
  obtain ⟨chains, holds, listed⟩ := mem_members consistent.numbers
  have inside : (connCharnameHash charname).toNat % 200 < 200 := Nat.mod_lt _ (by decide)
  have placed_iff (c : Nat) : c ∈ members chains ((connCharnameHash charname).toNat % 200) ↔
      ∃ conn, load world.conns c = some conn ∧
        conn.sessionnum.toNat % 200 = (connCharnameHash charname).toNat % 200 := by
    rw [listed c _ inside, placed]
    constructor
    · intro here
      obtain ⟨conn, present, row⟩ := bind_eq_some_iff.mp here
      rw [numberRow, (consistent.hashed c conn present).1, some.injEq] at row
      exact ⟨conn, present, row⟩
    · rintro ⟨conn, present, row⟩
      rw [present, bind_some, numberRow, (consistent.hashed c conn present).1, row]
  have enough : ((slots chains [(connCharnameHash charname).toNat % 200]).filter
      liveSlot).length ≤ world.connlist.len := by
    have seen := congrArg length (pairs_of_row chains
      ((connCharnameHash charname).toNat % 200) (range 200) (mem_range.mpr inside)
      nodup_range)
    have fewer := length_filter_le
      (fun found : Nat × Nat => decide (found.2 = (connCharnameHash charname).toNat % 200))
      (pairs chains (range 200))
    have sizes (all : List (Entry × Option Nat)) :
        (all.filter liveSlot).length = (all.filterMap pair).length := by
      rw [length_filterMap_eq_countP, ← countP_eq_length_filter]
      congr 1
      funext slot
      simp [pair, liveSlot]
    rw [holds.counted, rows, sizes]
    exact seen ▸ fewer
  have first := get_first_matching_exact world.connlist chains holds
    (connCharnameHash charname).toNat
  have loop := find_loop world charname holds (rows ▸ inside)
    (fun c member => ((placed_iff c).mp member).imp fun _ here => here.1)
    world.connlist.len [] (slots chains [(connCharnameHash charname).toNat % 200]) rfl enough
  rw [rows] at first
  refine ⟨_, by rw [d2csConnlistFindConnectionByCharname, first, bind_eq_bind,
    bind_some, loop], ?_, ?_⟩
  · intro c hit
    have test : isNamed world charname c = true := find?_some hit
    rw [isNamed] at test
    cases present : load world.conns c with
    | none => simp [present] at test
    | some conn =>
      rw [present, any_some] at test
      exact ⟨conn, rfl, test⟩
  · rw [find?_eq_none]
    constructor
    · intro missed c conn present here row
      refine missed c ((placed_iff c).mpr ⟨conn, present, row⟩) ?_
      rw [isNamed, present, any_some, here]
    · intro apart c member test
      obtain ⟨conn, present, row⟩ := (placed_iff c).mp member
      rw [isNamed, present, any_some] at test
      exact apart c conn present test row

-- Names in another case are looked for in the same row.
example : connCharnameHash (text "Ab") = connCharnameHash (text "aB") := by decide +kernel

end Lookups

section Logins

/-- A connection with this name of a character, in any case of the letters. -/
def Online (world : World) (charname : Text) (c : Nat) : Prop :=
  ∃ conn, load world.conns c = some conn ∧ named conn charname = true

/-- A lookup gives a connection of the character if and only if there is one, and a second login
is refused. -/
structure Guarded (world : World) (charname : Text) : Prop where
  answers : ∃ found, d2csConnlistFindConnectionByCharname world charname = some found ∧
    (∀ c, found = some c → Online world charname c) ∧
    (found = none → ∀ c, ¬Online world charname c)
  refuses : ∀ games c other, ¬Online world charname c → Online world charname other →
    connCheckMultilogin true games world c charname = some (-1)

/-- If the character is online, one of its connections has a session number in the row of the
name's hash. -/
def Aligned (world : World) (charname : Text) : Prop :=
  (∃ c, Online world charname c) → ∃ c conn, load world.conns c = some conn ∧
    named conn charname = true ∧
    conn.sessionnum.toNat % 200 = (connCharnameHash charname).toNat % 200

theorem multilogin_guarded {world : World} (reached : Reached world) (charname : Text) :
    Guarded world charname ↔ Aligned world charname := by
  obtain ⟨found, ran, hit, miss⟩ := lookup reached charname
  constructor
  · rintro ⟨⟨again, same, _, complete⟩, _⟩ ⟨c, online⟩
    rw [ran, Option.some.injEq] at same
    subst same
    by_contra apart
    have none_found : found = none := miss.mpr fun other conn present here row =>
      apart ⟨other, conn, present, here, row⟩
    exact complete none_found c online
  intro aligned
  have complete (absent : found = none) (c : Nat) : ¬Online world charname c := by
    intro online
    obtain ⟨other, conn, present, here, row⟩ := aligned ⟨c, online⟩
    exact miss.mp absent other conn present here row
  refine ⟨⟨found, ran, hit, complete⟩, ?_⟩
  intro games c other offline online
  rw [connCheckMultilogin, if_neg (by simp)]
  split
  · rfl
  rw [ran, bind_eq_bind, bind_some]
  cases found with
  | none => exact absurd online (complete rfl other)
  | some conn =>
    have apart : conn ≠ c := fun same => offline (same ▸ hit conn rfl)
    simp [apart]

def run : List Event → World → Option World
  | [], world => some world
  | event :: rest, world => (step world event).bind (run rest)

theorem run_reached {events : List Event} {world after : World} (reached : Reached world)
    (ran : run events world = some after) : Reached after := by
  induction events generalizing world with
  | nil =>
    cases ran
    exact reached
  | cons event rest ih =>
    obtain ⟨mid, first, later⟩ := bind_eq_some_iff.mp ran
    exact ih (.step reached event first) later

def twoClients (charname : Text) : Option World :=
  d2csConnlistCreate.bind
    (run [.create 1 1, .setCharname 1 (some charname) 1, .create 2 2])

theorem two_clients_reached {charname : Text} {world : World}
    (ran : twoClients charname = some world) : Reached world := by
  obtain ⟨start, created, later⟩ := bind_eq_some_iff.mp ran
  exact run_reached (.create created) later

/-- The row of the name is the one of session number 1. -/
theorem aligned_guarded : ∃ world, Reached world ∧ Online world [105, 107] 1 ∧
    Guarded world [105, 107] := by
  have facts : ((twoClients [105, 107]).bind fun world => (load world.conns 1).map fun conn =>
      (named conn [105, 107], conn.sessionnum.toNat % 200,
        (connCharnameHash [105, 107]).toNat % 200)) = some (true, 1, 1) := by decide +kernel
  obtain ⟨world, ran, rest⟩ := bind_eq_some_iff.mp facts
  obtain ⟨conn, present, same⟩ := map_eq_some_iff.mp rest
  simp only [mk.injEq] at same
  have reached := two_clients_reached ran
  refine ⟨world, reached, ⟨conn, present, same.1⟩, (multilogin_guarded reached _).mpr ?_⟩
  exact fun _ => ⟨1, conn, present, same.1, same.2.1.trans same.2.2.symm⟩

/-- The character `a` is online, and the lookup for a second login does not find it. -/
theorem second_login_passes : ∃ world, Reached world ∧ Online world [97] 1 ∧
    connCheckMultilogin true [] world 2 [97] = some 0 ∧ ¬Guarded world [97] := by
  have facts : ((twoClients [97]).bind fun world => (load world.conns 1).bind fun first =>
      (load world.conns 2).map fun second => (named first [97], named second [97],
        connCheckMultilogin true [] world 2 [97])) = some (true, false, some 0) := by
    decide +kernel
  obtain ⟨world, ran, rest⟩ := bind_eq_some_iff.mp facts
  obtain ⟨first, present, rest⟩ := bind_eq_some_iff.mp rest
  obtain ⟨second, other, same⟩ := map_eq_some_iff.mp rest
  simp only [mk.injEq] at same
  obtain ⟨online, offline, passed⟩ := same
  refine ⟨world, two_clients_reached ran, ⟨first, present, online⟩, passed, fun guarded => ?_⟩
  have refused := guarded.refuses [] 2 1 (by
    rintro ⟨conn, again, here⟩
    rw [other, Option.some.injEq] at again
    rw [← again, offline] at here
    cases here) ⟨first, present, online⟩
  rw [passed] at refused
  cases refused

end Logins

end Pvpgn.RealmNames
