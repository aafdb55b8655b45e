import Pvpgn.CheckedArray
import Pvpgn.LinkedMemory
import Pvpgn.Stdio

/-!
The locks of the characters that game servers use (`charlock.cpp`). A lock lies in a hash chain by
its name and in a doubly linked list by the number of its game server, and is taken out of both when
it is released.
-/

namespace Pvpgn.CharLock
open Stdio CheckedArray LinkedMemory List Option Function Prod

def maxCharnameLen : Nat := 16
def maxRealmnameLen : Nat := 32

structure Charlockinfo where
  charname : Text
  realmname : Text
  gsid : UInt32
  next : Option Nat
  gsqnext : Option Nat
  gsqprev : Option Nat

/-- The static variables, and the memory of the locks. -/
structure Charlock where
  clitblLen : UInt32
  gsqtblLen : UInt32
  clitbl : Option (List (Option Nat))
  gsqtbl : Option (List (Option Nat))
  memory : Memory Charlockinfo

def rotl (x n : UInt32) : UInt32 := (x <<< (n &&& 31)) ||| (x >>> ((0 - n) &&& 31))

def hashByte (byte : UInt8) : UInt32 :=
  if byte < 128 then (tolower byte).toUInt32 else byte.toUInt32

def stringHash (string : Text) : UInt32 :=
  (string.foldl (fun (hash, pos) byte => (hash ^^^ rotl (hashByte byte) pos, pos + 7))
    ((0, 0) : UInt32 × UInt32)).1

def freeRow : Nat → Memory Charlockinfo → Option Nat → Option (Memory Charlockinfo)
  | _, memory, none => some memory
  | 0, _, some _ => none
  | budget + 1, memory, some ptl => do
    let cell ← load memory ptl
    let memory ← release memory ptl
    freeRow budget memory cell.next

def freeRows : List (Option Nat) → Memory Charlockinfo → Option (Memory Charlockinfo)
  | [], memory => some memory
  | first :: rest, memory => do
    let memory ← freeRow memory.keys.length memory first
    freeRows rest memory

def clDestroy (store : Charlock) : Option Charlock := do
  let memory ← freeRows (store.clitbl.getD []) store.memory
  some ⟨0, 0, none, none, memory⟩

def clInit (store : Charlock) (tbllen maxgs : UInt32) : Option (Int × Charlock) :=
  if tbllen = 0 ∨ maxgs = 0 then some (-1, store)
  else do
    let store ← clDestroy store
    some (0, ⟨tbllen, maxgs, some (replicate tbllen.toNat none),
      some (replicate maxgs.toNat none), store.memory⟩)

def rowOf (store : Charlock) (charname : Text) : Nat :=
  (stringHash charname % store.clitblLen).toNat

def queueOf (store : Charlock) (gsid : UInt32) : Nat := (gsid % store.gsqtblLen).toNat

def unusable (store : Charlock) : Bool := store.clitblLen = 0 || store.gsqtbl.isNone

/-- With the answer 1, the game server that has the lock. -/
def clQueryCharlockStatus (store : Charlock) (charname : Text) : Option (Int × Option UInt32) :=
  if unusable store then some (-1, none)
  else if charname.length ≥ maxCharnameLen then some (-1, none)
  else do
    let rows ← store.clitbl
    let first ← readAt rows (rowOf store charname)
    let found ← seek Charlockinfo.next store.memory (fun pcl => sameCaseless pcl.charname charname)
      first
    match found with
    | none => some (0, none)
    | some pcl => do
      let cell ← load store.memory pcl
      some (1, some cell.gsid)

def clInsertToGsqList (store : Charlock) (gsid : UInt32) (pcl : Nat) : Option Charlock := do
  let heads ← store.gsqtbl
  let ptmp ← readAt heads (queueOf store gsid)
  let heads ← writeAt heads (queueOf store gsid) (some pcl)
  match ptmp with
  | none => some { store with gsqtbl := some heads }
  | some head => do
    let memory ← update store.memory pcl fun cell => { cell with gsqnext := some head }
    let memory ← update memory head fun cell => { cell with gsqprev := some pcl }
    some { store with gsqtbl := some heads, memory }

/-- `pprev ? pprev->gsqnext = pnext : gsqtbl[...] = pnext`, and so on. -/
def clDeleteFromGsqList (store : Charlock) (pcl : Nat) : Option Charlock := do
  let cell ← load store.memory pcl
  let heads ← store.gsqtbl
  let memory ← redirect store.memory cell.gsqprev fun other =>
    { other with gsqnext := cell.gsqnext }
  let heads ← if cell.gsqprev.isNone then writeAt heads (queueOf store cell.gsid) cell.gsqnext
    else some heads
  let memory ← redirect memory cell.gsqnext fun other => { other with gsqprev := cell.gsqprev }
  some { store with gsqtbl := some heads, memory }

/-- `ptmp ? ptmp->next = target : clitbl[row] = target` -/
def linkRow (store : Charlock) (row : Nat) (ptmp target : Option Nat) : Option Charlock := do
  let rows ← store.clitbl
  let memory ← redirect store.memory ptmp fun cell => { cell with next := target }
  let rows ← if ptmp.isNone then writeAt rows row target else some rows
  some { store with clitbl := some rows, memory }

/-- `address` is where `xmalloc` puts a new lock. -/
def clLockChar (store : Charlock) (address : Nat) (charname realmname : Text) (gsid : UInt32) :
    Option (Int × Charlock) :=
  if unusable store then some (-1, store)
  else if charname.length ≥ maxCharnameLen then some (-1, store)
  else do
    let rows ← store.clitbl
    let first ← readAt rows (rowOf store charname)
    let (ptmp, found) ← trail Charlockinfo.next store.memory
      (fun pcl => sameCaseless pcl.charname charname) first
    match found with
    | some _ => some (0, store)
    | none => do
      let memory ← allocate store.memory address {
        charname := charname.take (maxCharnameLen - 1)
        realmname := realmname.take (maxRealmnameLen - 1)
        gsid
        next := none
        gsqnext := none
        gsqprev := none }
      let store ← linkRow { store with memory } (rowOf store charname) ptmp (some address)
      let store ← clInsertToGsqList store gsid address
      some (0, store)

def clUnlockChar (store : Charlock) (charname : Text) (gsid : UInt32) : Option (Int × Charlock) :=
  if unusable store then some (0, store)
  else if charname.length ≥ maxCharnameLen then some (-1, store)
  else do
    let rows ← store.clitbl
    let first ← readAt rows (rowOf store charname)
    let (ptmp, found) ← trail Charlockinfo.next store.memory
      (fun pcl => sameCaseless pcl.charname charname && pcl.gsid = gsid) first
    match found with
    | none => some (0, store)
    | some pcl => do
      let row := rowOf store charname
      let store ← clDeleteFromGsqList store pcl
      let cell ← load store.memory pcl
      let store ← linkRow store row ptmp cell.next
      let memory ← release store.memory pcl
      some (0, { store with memory })

def unlockQueue (gsid : UInt32) : Nat → Option Nat → Charlock → Option Charlock
  | _, none, store => some store
  | 0, some _, _ => none
  | budget + 1, some pcl, store => do
    let cell ← load store.memory pcl
    let (_, store) ← clUnlockChar store cell.charname gsid
    unlockQueue gsid budget cell.gsqnext store

/-- `gsid % gsqtbl_len` divides by 0 before `cl_init`. -/
def clUnlockAllCharByGsid (store : Charlock) (gsid : UInt32) : Option Charlock :=
  if store.gsqtblLen = 0 then none
  else do
    let heads ← store.gsqtbl
    let first ← readAt heads (queueOf store gsid)
    unlockQueue gsid store.memory.keys.length first store

section Hashing

theorem hash_byte_shape : ∀ value < 256,
    hashByte (UInt8.ofNat value) = hashByte (tolower (UInt8.ofNat value)) := by
  decide +kernel

theorem hash_byte_tolower (byte : UInt8) : hashByte byte = hashByte (tolower byte) := by
  have shape := hash_byte_shape byte.toNat byte.toNat_lt
  simpa only [UInt8.ofNat_toNat] using shape

theorem string_hash_tolower (string : Text) :
    stringHash string = stringHash (string.map tolower) := by
  have folds (start : UInt32 × UInt32) :
      string.foldl (fun (hash, pos) byte => (hash ^^^ rotl (hashByte byte) pos, pos + 7)) start =
      (string.map tolower).foldl
        (fun (hash, pos) byte => (hash ^^^ rotl (hashByte byte) pos, pos + 7)) start := by
    induction string generalizing start with
    | nil => rfl
    | cons byte rest ih =>
      rw [foldl_cons, map_cons, foldl_cons, ih, ← hash_byte_tolower]
  rw [stringHash, stringHash, folds]

example : stringHash (text "Ab") = stringHash (text "aB") := by decide +kernel

theorem row_caseless (store : Charlock) {left right : Text}
    (same : left.map tolower = right.map tolower) : rowOf store left = rowOf store right := by
  rw [rowOf, rowOf, string_hash_tolower left, same, ← string_hash_tolower]

end Hashing

def entryAt (memory : Memory Charlockinfo) (address : Nat) : Option (Text × UInt32) :=
  (load memory address).map fun cell => (cell.charname, cell.gsid)

/-- The chains and the queues hold the allocated locks: each one in the row of its name and in the
queue of its server. No two of them are locks of one character. -/
structure Holds (store : Charlock) (chains queues : Nat → List Nat) : Prop where
  rows : ∃ table, store.clitbl = some table ∧ table.length = store.clitblLen.toNat ∧
    ∀ row first, table[row]? = some first →
      Chain Charlockinfo.next store.memory first (chains row) none
  heads : ∃ table, store.gsqtbl = some table ∧ table.length = store.gsqtblLen.toNat ∧
    ∀ queue first, table[queue]? = some first → first = (queues queue).head?
  linked : ∀ queue,
    Run Charlockinfo.gsqprev Charlockinfo.gsqnext store.memory none (queues queue) none
  positive : store.clitblLen ≠ 0 ∧ store.gsqtblLen ≠ 0
  chained : ∀ row address, address ∈ chains row ↔
    ∃ entry, entryAt store.memory address = some entry ∧ rowOf store entry.1 = row
  queued : ∀ queue address, address ∈ queues queue ↔
    ∃ entry, entryAt store.memory address = some entry ∧ queueOf store entry.2 = queue
  short : ∀ address entry, entryAt store.memory address = some entry →
    entry.1.length < maxCharnameLen
  unique : ∀ left right leftEntry rightEntry, entryAt store.memory left = some leftEntry →
    entryAt store.memory right = some rightEntry →
    leftEntry.1.map tolower = rightEntry.1.map tolower → left = right

def Locked (store : Charlock) (key : Text) (gsid : UInt32) : Prop :=
  ∃ address charname, entryAt store.memory address = some (charname, gsid) ∧
    charname.map tolower = key

variable {cell : Charlockinfo} {address : Nat}

section Lookup
variable {store : Charlock} {chains queues : Nat → List Nat}

theorem entry_of_load {memory : Memory Charlockinfo} (present : load memory address = some cell) :
    entryAt memory address = some (cell.charname, cell.gsid) := by
  rw [entryAt, present]
  rfl

section
variable (holds : Holds store chains queues)
include holds

theorem Holds.usable : unusable store = false := by
  obtain ⟨table, heads, -⟩ := holds.heads
  simp [unusable, holds.positive.1, heads]

theorem Holds.row_inside (charname : Text) :
    rowOf store charname < store.clitblLen.toNat := by
  apply Nat.mod_lt
  have positive := holds.positive.1
  rw [← UInt32.toNat_inj.ne] at positive
  exact pos_of_ne_zero positive

theorem Holds.queue_inside (gsid : UInt32) :
    queueOf store gsid < store.gsqtblLen.toNat := by
  apply Nat.mod_lt
  have positive := holds.positive.2
  rw [← UInt32.toNat_inj.ne] at positive
  exact pos_of_ne_zero positive

theorem Holds.trail_row (charname : Text) (hit : Charlockinfo → Bool) :
    ∃ table first, store.clitbl = some table ∧ table.length = store.clitblLen.toNat ∧
      readAt table (rowOf store charname) = some first ∧
      (∀ row found, table[row]? = some found →
        Chain Charlockinfo.next store.memory found (chains row) none) ∧
      ((∃ front target back cell, chains (rowOf store charname) = front ++ target :: back ∧
        load store.memory target = some cell ∧ hit cell = true ∧
        trail Charlockinfo.next store.memory hit first = some (front.getLast?, some target)) ∨
      ((∀ address ∈ chains (rowOf store charname), ∀ cell, load store.memory address = some cell →
        hit cell = false) ∧
        trail Charlockinfo.next store.memory hit first =
          some ((chains (rowOf store charname)).getLast?, none))) := by
  obtain ⟨table, rows, length, chain⟩ := holds.rows
  have inside := holds.row_inside charname
  rw [← length] at inside
  have first := chain _ _ (getElem?_eq_getElem inside)
  refine ⟨table, _, rows, length, read_inside table _ inside, chain, ?_⟩
  rcases trail_chain Charlockinfo.next store.memory hit _ _ first with
    ⟨front, target, back, cell, split, present, hits, -, walk⟩ | ⟨missed, walk⟩
  · exact .inl ⟨front, target, back, cell, split, present, hits, walk⟩
  · refine .inr ⟨fun address member cell present => ?_, walk⟩
    have miss := missed address member
    simpa [hits, present] using miss

theorem Holds.query_locked (charname : Text) (short : charname.length < maxCharnameLen) :
    (∃ gsid, Locked store (charname.map tolower) gsid ∧
      clQueryCharlockStatus store charname = some (1, some gsid)) ∨
    ((∀ gsid, ¬ Locked store (charname.map tolower) gsid) ∧
      clQueryCharlockStatus store charname = some (0, none)) := by
  obtain ⟨table, rows, length, chain⟩ := holds.rows
  have inside := holds.row_inside charname
  rw [← length] at inside
  have first := chain _ _ (getElem?_eq_getElem inside)
  have walk := seek_chain Charlockinfo.next store.memory
    (fun pcl => sameCaseless pcl.charname charname) _ _ first
  have query : clQueryCharlockStatus store charname =
      match (chains (rowOf store charname)).find? (hits store.memory
        fun pcl => sameCaseless pcl.charname charname) with
      | none => some (0, none)
      | some pcl => (load store.memory pcl).bind fun cell => some (1, some cell.gsid) := by
    rw [clQueryCharlockStatus, if_neg (by simp [holds.usable]), if_neg (by omega), rows]
    simp only [bind_eq_bind, bind_some, read_inside table _ inside, walk]
  rw [query]
  cases found : (chains (rowOf store charname)).find? (hits store.memory
      fun pcl => sameCaseless pcl.charname charname) with
  | none =>
    right
    refine ⟨?_, rfl⟩
    rintro gsid ⟨address, name, entry, folded⟩
    have member := (holds.chained (rowOf store charname) address).mpr
      ⟨_, entry, row_caseless store folded⟩
    have missed := find?_eq_none.mp found address member
    obtain ⟨cell, present, same⟩ := map_eq_some_iff.mp entry
    obtain ⟨rfl, rfl⟩ := mk.inj same
    simp [hits, present, sameCaseless, folded] at missed
  | some pcl =>
    left
    have hit := find?_some found
    cases present : load store.memory pcl with
    | none => simp [hits, present] at hit
    | some cell =>
      have folded : cell.charname.map tolower = charname.map tolower := by
        simpa [hits, present, sameCaseless] using hit
      refine ⟨cell.gsid, ⟨pcl, cell.charname, entry_of_load present, folded⟩, ?_⟩
      change (load store.memory pcl).bind _ = _
      rw [present]
      rfl

theorem Holds.locked_unique {key : Text} {left right : UInt32} (first : Locked store key left)
    (second : Locked store key right) : left = right := by
  obtain ⟨address, charname, entry, folded⟩ := first
  obtain ⟨other, otherName, otherEntry, otherFolded⟩ := second
  have same := holds.unique _ _ _ _ entry otherEntry (folded.trans otherFolded.symm)
  subst same
  rw [entry] at otherEntry
  simp only [some.injEq, mk.injEq] at otherEntry
  exact otherEntry.2

end

end Lookup

section Links
variable {store : Charlock}

variable {table : List (Option Nat)}

theorem link_row_loads (store : Charlock) {row : Nat} (ptmp target : Option Nat)
    (rows : store.clitbl = some table) (inside : row < table.length)
    (valid : ∀ address ∈ ptmp, Allocated store.memory address) :
    ∃ changed, linkRow store row ptmp target = some { store with
      clitbl := some (if ptmp = none then table.set row target else table)
      memory := changed } ∧
      ∀ other, load changed other =
        if ptmp = some other then (load store.memory other).map fun cell =>
          { cell with next := target }
        else load store.memory other := by
  obtain ⟨changed, redirected, loads⟩ := redirect_load store.memory ptmp
    (fun cell => { cell with next := target }) valid
  refine ⟨changed, ?_, loads⟩
  cases ptmp with
  | none => simp [linkRow, rows, redirected, write_inside table row target inside]
  | some address => simp [linkRow, rows, redirected]

theorem insert_gsq_loads (store : Charlock) (gsid : UInt32) {pcl : Nat} {first : Option Nat}
    (heads : store.gsqtbl = some table) (inside : queueOf store gsid < table.length)
    (head : readAt table (queueOf store gsid) = some first)
    (present : load store.memory pcl = some cell) (fresh : cell.gsqnext = none)
    (valid : ∀ address ∈ first, Allocated store.memory address ∧ address ≠ pcl) :
    ∃ changed, clInsertToGsqList store gsid pcl = some { store with
      gsqtbl := some (table.set (queueOf store gsid) (some pcl))
      memory := changed } ∧
      load changed pcl = some { cell with gsqnext := first } ∧
      ∀ other ≠ pcl, load changed other =
        if first = some other then
          (load store.memory other).map fun cell => { cell with gsqprev := some pcl }
        else load store.memory other := by
  cases first with
  | none =>
    refine ⟨store.memory, ?_, ?_, fun other apart => by simp⟩
    · simp [clInsertToGsqList, heads, head, write_inside table _ _ inside]
    · rw [present, ← fresh]
  | some first =>
    obtain ⟨⟨old, there⟩, apart⟩ := valid first rfl
    let changed := store.memory.insert pcl { cell with gsqnext := some first }
    have still : load changed first = some old := by rw [load_insert, if_neg apart, there]
    refine ⟨changed.insert first { old with gsqprev := some pcl }, ?_, ?_, ?_⟩
    · have second := update_allocated changed first old
        (fun cell => { cell with gsqprev := some pcl }) still
      simp only [clInsertToGsqList, heads, head, write_inside table _ _ inside,
        update_allocated store.memory pcl cell _ present, bind_eq_bind, bind_some]
      rw [second]
      rfl
    · rw [load_insert, if_neg (Ne.symm apart), load_insert, if_pos rfl]
    · intro other distinct
      rw [load_insert, load_insert, if_neg distinct]
      by_cases same : other = first
      · simp [same, there]
      · simp [same, Ne.symm same]

theorem delete_gsq_loads {pcl : Nat} (heads : store.gsqtbl = some table)
    (inside : queueOf store cell.gsid < table.length)
    (present : load store.memory pcl = some cell)
    (validPrev : ∀ address ∈ cell.gsqprev, Allocated store.memory address)
    (validNext : ∀ address ∈ cell.gsqnext, Allocated store.memory address) :
    ∃ changed linked, clDeleteFromGsqList store pcl = some { store with
      gsqtbl := some (if cell.gsqprev = none
        then table.set (queueOf store cell.gsid) cell.gsqnext else table)
      memory := linked } ∧
      (∀ other, load changed other =
        if cell.gsqprev = some other then
          (load store.memory other).map fun found => { found with gsqnext := cell.gsqnext }
        else load store.memory other) ∧
      ∀ other, load linked other =
        if cell.gsqnext = some other then
          (load changed other).map fun found => { found with gsqprev := cell.gsqprev }
        else load changed other := by
  obtain ⟨changed, forward, loads⟩ := redirect_load store.memory cell.gsqprev
    (fun found => { found with gsqnext := cell.gsqnext }) validPrev
  have validAfter : ∀ address ∈ cell.gsqnext, Allocated changed address := by
    intro address member
    obtain ⟨old, there⟩ := validNext address member
    rw [Allocated, loads, there]
    split <;> simp
  obtain ⟨linked, backward, linkedLoads⟩ := redirect_load changed cell.gsqnext
    (fun found => { found with gsqprev := cell.gsqprev }) validAfter
  refine ⟨changed, linked, ?_, loads, linkedLoads⟩
  simp only [clDeleteFromGsqList, present, heads, forward, bind_eq_bind, bind_some,
    isNone_iff_eq_none]
  by_cases ends : cell.gsqprev = none
  · simp only [if_pos ends, write_inside table _ _ inside, bind_some, backward]
  · simp only [if_neg ends, bind_some, backward]

end Links

section Placing
variable {places placed : Nat → List Nat} (place : Text × UInt32 → Nat)
  {before after : Nat → Option (Text × UInt32)} {address : Nat} {entry : Text × UInt32}

section
variable
  (members : ∀ index other, other ∈ places index ↔ ∃ found, before other = some found ∧ place found = index)
include members

theorem members_added (fresh : before address = none)
    (entries : ∀ other, after other = if other = address then some entry else before other)
    (added : ∀ index other, other ∈ placed index ↔
      (index = place entry ∧ other = address) ∨ other ∈ places index) (index other : Nat) :
    other ∈ placed index ↔ ∃ found, after other = some found ∧ place found = index := by
  rw [added, members, entries]
  by_cases same : other = address
  · subst same
    simp [fresh, eq_comm]
  · simp [same]

theorem members_removed
    (entries : ∀ other, after other = if other = address then none else before other)
    (removed : ∀ index other, other ∈ placed index ↔ other ≠ address ∧ other ∈ places index)
    (index other : Nat) :
    other ∈ placed index ↔ ∃ found, after other = some found ∧ place found = index := by
  rw [removed, members, entries]
  by_cases same : other = address
  · simp [same]
  · simp [same]

end

end Placing

variable {table : List (Option Nat)} {charname : Text}

section Lock
variable {store : Charlock} {chains queues : Nat → List Nat}

theorem Holds.queue_nodup (holds : Holds store chains queues) (queue : Nat) :
    (queues queue).Nodup := by
  have chain := run_chain _ _ _ _ _ _ (holds.linked queue)
  exact chain_nodup _ _ _ _ chain

theorem Holds.chain_loaded (holds : Holds store chains queues) {row address : Nat}
    (member : address ∈ chains row) : ∃ cell, load store.memory address = some cell ∧
      rowOf store cell.charname = row := by
  obtain ⟨entry, found, placed⟩ := (holds.chained row address).mp member
  obtain ⟨cell, present, same⟩ := map_eq_some_iff.mp found
  subst same
  exact ⟨cell, present, placed⟩

variable {queue : Nat}

theorem Holds.queue_loaded (holds : Holds store chains queues) (member : address ∈ queues queue) :
    ∃ cell, load store.memory address = some cell ∧
      queueOf store cell.gsid = queue := by
  obtain ⟨entry, found, placed⟩ := (holds.queued queue address).mp member
  obtain ⟨cell, present, same⟩ := map_eq_some_iff.mp found
  subst same
  exact ⟨cell, present, placed⟩

variable {found : Option Nat} {index : Nat} {last : Memory Charlockinfo} {right : Nat}

theorem Holds.chain_apart (holds : Holds store chains queues) {left address : Nat}
    (inLeft : address ∈ chains left) (inRight : address ∈ chains right) : left = right := by
  obtain ⟨cell, present, placed⟩ := holds.chain_loaded inLeft
  obtain ⟨other, again, otherPlaced⟩ := holds.chain_loaded inRight
  obtain rfl := some.inj (present.symm.trans again)
  exact placed.symm.trans otherPlaced

theorem Holds.queue_apart (holds : Holds store chains queues) {left address : Nat}
    (inLeft : address ∈ queues left) (inRight : address ∈ queues right) : left = right := by
  obtain ⟨cell, present, placed⟩ := holds.queue_loaded inLeft
  obtain ⟨other, again, otherPlaced⟩ := holds.queue_loaded inRight
  obtain rfl := some.inj (present.symm.trans again)
  exact placed.symm.trans otherPlaced

theorem heads_pushed {heads : List (Option Nat)} (address : Nat) (inside : queue < heads.length)
    (headed : ∀ index first, heads[index]? = some first → first = (queues index).head?)
    (listed : (heads.set queue (some address))[index]? = some found) :
    found = (update queues queue (address :: queues queue) index).head? := by
  by_cases same : index = queue
  · subst same
    rw [update_self, head?_cons]
    rw [getElem?_set_self inside] at listed
    exact (some.inj listed).symm
  · rw [update_of_ne same]
    rw [getElem?_set_ne (Ne.symm same)] at listed
    exact headed index found listed

section
variable (holds : Holds store chains queues)
include holds

theorem Holds.rows_extended {row address : Nat} (inside : row < table.length)
    (eachRow : ∀ index first, table[index]? = some first →
      Chain Charlockinfo.next store.memory first (chains index) none)
    (outside : ∀ index, address ∉ chains index)
    (here : (load last address).map Charlockinfo.next = some none)
    (nexts : ∀ other ≠ address, (load last other).map Charlockinfo.next =
      if (chains row).getLast? = some other then
        (load store.memory other).map fun _ => some address
      else (load store.memory other).map Charlockinfo.next)
    (listed : (if (chains row).getLast? = none
      then table.set row (some address) else table)[index]? = some found) :
    Chain Charlockinfo.next last found
      (update chains row (chains row ++ [address]) index) none := by
  have start := getElem?_eq_getElem inside
  by_cases same : index = row
  · have extended := chain_extend Charlockinfo.next (eachRow row _ start) here (by
      intro other member
      obtain ⟨cell, present, -⟩ := holds.chain_loaded member
      rw [nexts other (ne_of_mem_of_not_mem member (outside row)), present]
      rfl)
    rw [same] at listed ⊢
    rw [update_self]
    by_cases empty : chains row = []
    · rw [if_pos (by simp [empty]), getElem?_set_self inside] at listed
      rw [if_pos empty] at extended
      rwa [← some.inj listed]
    · rw [if_neg (by simpa using empty)] at listed
      rw [if_neg empty] at extended
      rwa [some.inj (listed.symm.trans start)]
  · rw [update_of_ne same]
    refine chain_frame Charlockinfo.next store.memory last found none _ ?_ ?_
    · apply eachRow index found
      rw [← listed]
      split
      · rw [getElem?_set_ne (Ne.symm same)]
      · rfl
    · intro other member
      rw [nexts other (ne_of_mem_of_not_mem member (outside index)), if_neg]
      intro last
      exact same (holds.chain_apart member (mem_of_getLast? last))

theorem Holds.linked_pushed {between : Memory Charlockinfo}
    (outside : ∀ index, address ∉ queues index) (here : load last address = some cell)
    (isFirst : cell.gsqprev = none) (ahead : cell.gsqnext = (queues queue).head?)
    (same : ∀ other ≠ address,
      (load between other).map (fun cell => (cell.gsqprev, cell.gsqnext)) =
        (load store.memory other).map fun cell => (cell.gsqprev, cell.gsqnext))
    (loads : ∀ other ≠ address, load last other =
      if (queues queue).head? = some other then
        (load between other).map fun cell => { cell with gsqprev := some address }
      else load between other) (index : Nat) :
    Run Charlockinfo.gsqprev Charlockinfo.gsqnext last none
      (update queues queue (address :: queues queue) index) none := by
  by_cases own : index = queue
  · subst own
    rw [update_self]
    have before := run_frame_links _ _ store.memory between none none _ (holds.linked index)
      fun other member => same other (ne_of_mem_of_not_mem member (outside index))
    refine ⟨cell, here, isFirst, by simpa using ahead, ?_⟩
    exact run_redirect_start Charlockinfo.gsqprev Charlockinfo.gsqnext before
      (holds.queue_nodup index) (by intro; rfl) (by intro; rfl)
      fun other member => loads other (ne_of_mem_of_not_mem member (outside index))
  · rw [update_of_ne own]
    refine run_frame_links _ _ store.memory last none none _ (holds.linked index) ?_
    intro other member
    have apart := ne_of_mem_of_not_mem member (outside index)
    rw [loads other apart, if_neg, same other apart]
    intro front
    exact own (holds.queue_apart member (mem_of_mem_head? front))

theorem Holds.lock_free (short : charname.length < maxCharnameLen) (realmname : Text)
    (gsid : UInt32) (fresh : load store.memory address = none)
    (free : ∀ owner, ¬ Locked store (charname.map tolower) owner) :
    ∃ after chainsAfter queuesAfter,
      clLockChar store address charname realmname gsid = some (0, after) ∧
      Holds after chainsAfter queuesAfter ∧
      ∀ other, entryAt after.memory other =
        if other = address then some (charname, gsid) else entryAt store.memory other := by
  set row := rowOf store charname with rowDef
  set queue := queueOf store gsid with queueDef
  obtain ⟨table, first, rows, length, read, eachRow, walk⟩ := holds.trail_row charname
    fun pcl => sameCaseless pcl.charname charname
  replace walk : trail Charlockinfo.next store.memory
      (fun pcl => sameCaseless pcl.charname charname) first =
        some ((chains row).getLast?, none) := by
    rcases walk with ⟨front, target, back, cell, split, present, hit, -⟩ | ⟨-, walk⟩
    · exact absurd ⟨target, cell.charname, entry_of_load present, by simpa [sameCaseless] using hit⟩
        (free cell.gsid)
    · exact walk
  have outside : ∀ index, address ∉ chains index := by
    intro index member
    obtain ⟨cell, present, -⟩ := holds.chain_loaded member
    simp [fresh] at present
  have unqueued : ∀ index, address ∉ queues index := by
    intro index member
    obtain ⟨cell, present, -⟩ := holds.queue_loaded member
    simp [fresh] at present
  let cell : Charlockinfo := {
    charname := charname.take (maxCharnameLen - 1)
    realmname := realmname.take (maxRealmnameLen - 1)
    gsid
    next := none
    gsqnext := none
    gsqprev := none }
  have named : cell.charname = charname := take_of_length_le (by omega)
  have allocated := allocate_fresh store.memory address cell fresh
  let memory := store.memory.insert address cell
  have loads : ∀ other ≠ address, load memory other = load store.memory other :=
    fun other apart => by
    rw [load_insert, if_neg apart]
  have rowInside : row < table.length := by
    rw [length]
    exact holds.row_inside charname
  -- the chain
  obtain ⟨chainMemory, chainLinked, chainLoads⟩ := link_row_loads
    ⟨store.clitblLen, store.gsqtblLen, some table, store.gsqtbl, memory⟩
    (chains row).getLast? (some address) rfl rowInside (by
      intro other last
      have member : other ∈ chains row := mem_of_getLast? last
      obtain ⟨found, present, -⟩ := holds.chain_loaded member
      exact ⟨found, by rw [loads other (ne_of_mem_of_not_mem member (outside row)), present]⟩)
  have here : load chainMemory address = some cell := by
    rw [chainLoads, if_neg fun last => outside row (mem_of_getLast? last), load_insert, if_pos rfl]
  -- the queue
  obtain ⟨heads, headsDef, headsLength, headed⟩ := holds.heads
  have queueInside : queue < heads.length := by
    rw [headsLength]
    exact holds.queue_inside gsid
  have head : readAt heads queue = some (queues queue).head? := by
    rw [read_inside heads queue queueInside]
    exact congrArg some (headed _ _ (getElem?_eq_getElem queueInside))
  have firstValid : ∀ other ∈ (queues queue).head?,
      Allocated chainMemory other ∧ other ≠ address := by
    intro other first
    have member : other ∈ queues queue := mem_of_mem_head? first
    have apart := ne_of_mem_of_not_mem member (unqueued queue)
    obtain ⟨found, present, -⟩ := holds.queue_loaded member
    refine ⟨?_, apart⟩
    rw [Allocated, chainLoads, loads other apart, present]
    split <;> simp
  obtain ⟨last, inserted, lastHere, lastLoads⟩ := insert_gsq_loads
    ⟨store.clitblLen, store.gsqtblLen, some (if (chains row).getLast? = none
      then table.set row (some address) else table), store.gsqtbl, chainMemory⟩
    gsid headsDef queueInside head here rfl firstValid
  -- what is left of the other locks
  have nexts : ∀ other ≠ address, (load last other).map Charlockinfo.next =
      if (chains row).getLast? = some other then
        (load store.memory other).map fun _ => some address
      else (load store.memory other).map Charlockinfo.next := by
    intro other apart
    have same : (load last other).map Charlockinfo.next =
        (load chainMemory other).map Charlockinfo.next := by
      rw [lastLoads other apart]
      split
      · rw [Option.map_map]
        rfl
      · rfl
    rw [same, chainLoads, loads other apart]
    split
    · rw [Option.map_map]
      rfl
    · rfl
  have gsqs : ∀ other ≠ address,
      (load chainMemory other).map (fun cell => (cell.gsqprev, cell.gsqnext)) =
      (load store.memory other).map fun cell => (cell.gsqprev, cell.gsqnext) := by
    intro other apart
    rw [← loads other apart]
    exact redirect_keeps _ (fun cell : Charlockinfo => (cell.gsqprev, cell.gsqnext)) (by intro; rfl)
      chainLoads other
  have entries : ∀ other, entryAt last other =
      if other = address then some (charname, gsid) else entryAt store.memory other := by
    intro other
    by_cases same : other = address
    · rw [if_pos same, same, entryAt, lastHere, map_some, named]
    have kept := redirect_keeps _ (fun cell : Charlockinfo => (cell.charname, cell.gsid))
      (by intro; rfl) chainLoads other
    rw [if_neg same, entryAt, lastLoads other same, entryAt, ← loads other same, ← kept]
    split
    · rw [Option.map_map]
      rfl
    · rfl
  have unlisted : entryAt store.memory address = none := by
    rw [entryAt, fresh]
    rfl
  refine ⟨⟨store.clitblLen, store.gsqtblLen, some (if (chains row).getLast? = none
      then table.set row (some address) else table), some (heads.set queue (some address)), last⟩,
    update chains row (chains row ++ [address]),
    update queues queue (address :: queues queue), ?_,
    { rows := ?_, heads := ?_, linked := ?_, positive := holds.positive, chained := ?_,
      queued := ?_, short := ?_, unique := ?_ }, entries⟩
  · rw [clLockChar, if_neg (by simp [holds.usable]), if_neg (by omega), rows]
    simp only [bind_eq_bind, bind_some, read, walk]
    rw [allocated, bind_some]
    rw [chainLinked, bind_some]
    exact congrArg (fun found => found.bind fun store => some ((0 : Int), store)) inserted
  · refine ⟨_, rfl, ?_, fun _ _ listed => ?_⟩
    · rw [← length]
      split <;> simp
    · exact holds.rows_extended rowInside eachRow outside (by rw [lastHere]; rfl) nexts listed
  · exact ⟨_, rfl, by simpa using headsLength,
      fun _ _ listed => heads_pushed address queueInside headed listed⟩
  · exact holds.linked_pushed unqueued lastHere rfl rfl gsqs lastLoads
  · exact members_added (fun entry => rowOf store entry.1) holds.chained unlisted entries
      fun index other => by
        by_cases same : index = row
        · subst same
          simp [rowDef, or_comm]
        · rw [update_of_ne same]
          exact ⟨.inr, fun added => added.resolve_left fun wrong => same wrong.1⟩
  · exact members_added (fun entry => queueOf store entry.2) holds.queued unlisted entries
      fun index other => by
        by_cases same : index = queue
        · subst same
          simp [queueDef]
        · rw [update_of_ne same]
          exact ⟨.inr, fun added => added.resolve_left fun wrong => same wrong.1⟩
  · intro other entry found
    rw [entries] at found
    split at found
    · cases found
      exact short
    · exact holds.short other entry found
  · intro left right leftEntry rightEntry leftFound rightFound folded
    rw [entries] at leftFound rightFound
    split at leftFound <;> split at rightFound
    · simp_all
    · cases leftFound
      exact absurd ⟨right, rightEntry.1, rightFound, folded.symm⟩ (free rightEntry.2)
    · cases rightFound
      exact absurd ⟨left, leftEntry.1, leftFound, folded⟩ (free leftEntry.2)
    · exact holds.unique left right leftEntry rightEntry leftFound rightFound folded

end

end Lock

section Unlock
variable {store : Charlock} {chains queues : Nat → List Nat}

variable {back front : List Nat} {target : Nat} {cell : Charlockinfo}

variable {found : Option Nat} {index : Nat} {linked : Memory Charlockinfo}

theorem Holds.rows_skipped (holds : Holds store chains queues)
    {row : Nat} {last : Memory Charlockinfo} (inside : row < table.length)
    (eachRow : ∀ index first, table[index]? = some first →
      Chain Charlockinfo.next store.memory first (chains index) none)
    (split : chains row = front ++ target :: back) (here : load linked target = some cell)
    (same : ∀ other, (load linked other).map Charlockinfo.next =
      (load store.memory other).map Charlockinfo.next) (loads : ∀ other, load last other =
      if front.getLast? = some other then
        (load linked other).map fun found => { found with next := cell.next }
      else load linked other) (listed : (if front.getLast? = none
      then table.set row cell.next else table)[index]? = some found) :
    Chain Charlockinfo.next last found (update chains row (front ++ back) index) none := by
  have start := getElem?_eq_getElem inside
  by_cases own : index = row
  · have before := chain_frame Charlockinfo.next store.memory linked _ none _
      (split ▸ eachRow row _ start) fun other _ => same other
    have skipped := chain_skip Charlockinfo.next before here (by intro; rfl) loads
    rw [own] at listed ⊢
    rw [update_self]
    by_cases empty : front = []
    · rw [if_pos (by simp [empty]), getElem?_set_self inside] at listed
      rw [if_pos empty] at skipped
      rwa [← some.inj listed]
    · rw [if_neg (by simpa using empty)] at listed
      rw [if_neg empty] at skipped
      rwa [some.inj (listed.symm.trans start)]
  · rw [update_of_ne own]
    refine chain_frame Charlockinfo.next store.memory last found none _ ?_ fun other member => ?_
    · apply eachRow index found
      rw [← listed]
      split
      · rw [getElem?_set_ne (Ne.symm own)]
      · rfl
    · rw [loads, if_neg, same]
      exact fun final => own (holds.chain_apart member
        (split ▸ mem_append_left _ (mem_of_getLast? final)))

theorem heads_erased {heads : List (Option Nat)} {queue : Nat} (inside : queue < heads.length)
    (headed : ∀ index first, heads[index]? = some first → first = (queues index).head?)
    (split : queues queue = front ++ target :: back) (listed : (if front.getLast? = none
      then heads.set queue back.head? else heads)[index]? = some found) :
    found = (update queues queue (front ++ back) index).head? := by
  by_cases own : index = queue
  · rw [own] at listed ⊢
    rw [update_self]
    cases front with
    | nil =>
      rw [if_pos getLast?_nil, getElem?_set_self inside] at listed
      exact (some.inj listed).symm
    | cons address rest =>
      rw [headed queue found listed, split]
      rfl
  · rw [update_of_ne own]
    apply headed index found
    rw [← listed]
    split
    · rw [getElem?_set_ne (Ne.symm own)]
    · rfl

theorem Holds.linked_erased (holds : Holds store chains queues) {queue : Nat}
    {changed : Memory Charlockinfo} (split : queues queue = front ++ target :: back)
    (present : load store.memory target = some cell) (forward : ∀ other, load changed other =
      if front.getLast? = some other then
        (load store.memory other).map fun found => { found with gsqnext := cell.gsqnext }
      else load store.memory other) (backward : ∀ other, load linked other =
      if back.head? = some other then
        (load changed other).map fun found => { found with gsqprev := cell.gsqprev }
      else load changed other) (index : Nat) :
    Run Charlockinfo.gsqprev Charlockinfo.gsqnext linked none
      (update queues queue (front ++ back) index) none := by
  by_cases own : index = queue
  · rw [own, update_self]
    have run := holds.linked queue
    have distinct := holds.queue_nodup queue
    rw [split] at run distinct
    exact run_skip Charlockinfo.gsqprev Charlockinfo.gsqnext run distinct present
      (by intro; rfl) (by intro; rfl) (by intro; rfl) (by intro; rfl) forward backward
  · rw [update_of_ne own]
    refine run_frame _ _ store.memory _ none none _ (holds.linked index) fun other member => ?_
    have apart : other ∉ queues queue := fun inside => own (holds.queue_apart member inside)
    rw [split] at apart
    rw [backward, if_neg, forward, if_neg]
    · exact fun last => apart (mem_append_left _ (mem_of_getLast? last))
    · exact fun first => apart
        (mem_append_right _ (mem_cons_of_mem _ (mem_of_mem_head? first)))

theorem Holds.unlock_target (holds : Holds store chains queues) {gsid : UInt32}
    (short : charname.length < maxCharnameLen) {first : Option Nat}
    (rows : store.clitbl = some table) (length : table.length = store.clitblLen.toNat)
    (read : readAt table (rowOf store charname) = some first)
    (eachRow : ∀ row found, table[row]? = some found →
      Chain Charlockinfo.next store.memory found (chains row) none)
    (split : chains (rowOf store charname) = front ++ target :: back)
    (present : load store.memory target = some cell) (owned : cell.gsid = gsid)
    (walk : trail Charlockinfo.next store.memory
      (fun pcl => sameCaseless pcl.charname charname && pcl.gsid = gsid) first =
        some (front.getLast?, some target)) :
    ∃ after chainsAfter, clUnlockChar store charname gsid = some (0, after) ∧
      Holds after chainsAfter
        (update queues (queueOf store gsid) ((queues (queueOf store gsid)).erase target)) ∧
      after.gsqtblLen = store.gsqtblLen ∧
      ∀ other, entryAt after.memory other =
        if other = target then none else entryAt store.memory other := by
  subst owned
  set row := rowOf store charname with rowDef
  set queue := queueOf store cell.gsid with queueDef
  have rowInside : row < table.length := by
    rw [length]
    exact holds.row_inside charname
  obtain ⟨heads, headsDef, headsLength, headed⟩ := holds.heads
  have queueInside : queue < heads.length := by
    rw [headsLength]
    exact holds.queue_inside cell.gsid
  have inChain : target ∈ chains row := by simp [split]
  have inQueue : target ∈ queues queue :=
    (holds.queued queue target).mpr ⟨_, entry_of_load present, rfl⟩
  have chainDistinct : (chains row).Nodup := chain_nodup _ _ _ _ (eachRow row first read)
  have queueDistinct := holds.queue_nodup queue
  obtain ⟨before, behind, queueSplit⟩ := append_of_mem inQueue
  have run := holds.linked queue
  rw [queueSplit] at queueDistinct run
  obtain ⟨-, found, there, prevs, nexts, -⟩ := (run_append _ _ _ none none before _).mp run
  obtain rfl := some.inj (present.symm.trans there)
  rw [or_none] at prevs nexts
  have chainApart : target ∉ front ++ back := by
    rw [split] at chainDistinct
    exact (nodup_cons.mp (nodup_middle.mp chainDistinct)).1
  have queueApart : target ∉ before ++ behind := (nodup_cons.mp (nodup_middle.mp queueDistinct)).1
  have erased : (queues queue).erase target = before ++ behind := by
    rw [queueSplit, erase_append_right, erase_cons_head]
    exact fun member => queueApart (mem_append_left _ member)
  -- the queue
  obtain ⟨changed, linked, deleted, changedLoads, linkedLoads⟩ :=
    delete_gsq_loads headsDef queueInside
    present (by
      intro other last
      rw [prevs] at last
      have member : other ∈ queues queue := by simp [queueSplit, mem_of_getLast? last]
      obtain ⟨neighbour, loaded, -⟩ := holds.queue_loaded member
      exact ⟨neighbour, loaded⟩) (by
      intro other next
      rw [nexts] at next
      have member : other ∈ queues queue := by simp [queueSplit, mem_of_mem_head? next]
      obtain ⟨neighbour, loaded, -⟩ := holds.queue_loaded member
      exact ⟨neighbour, loaded⟩)
  have linkedHere : load linked target = some cell := by
    rw [linkedLoads, if_neg, changedLoads, if_neg, present]
    · rw [prevs]
      exact fun last => queueApart (mem_append_left _ (mem_of_getLast? last))
    · rw [nexts]
      exact fun next => queueApart (mem_append_right _ (mem_of_mem_head? next))
  have linkedNext : ∀ other, (load linked other).map Charlockinfo.next =
      (load store.memory other).map Charlockinfo.next := fun other =>
    (redirect_keeps _ Charlockinfo.next (by intro; rfl) linkedLoads other).trans
      (redirect_keeps _ Charlockinfo.next (by intro; rfl) changedLoads other)
  have linkedEntry : ∀ other, entryAt linked other = entryAt store.memory other := fun other =>
    (redirect_keeps _ (fun found : Charlockinfo => (found.charname, found.gsid)) (by intro; rfl)
      linkedLoads other).trans
    (redirect_keeps _ (fun found : Charlockinfo => (found.charname, found.gsid)) (by intro; rfl)
      changedLoads other)
  -- the chain
  obtain ⟨chainMemory, chainLinked, chainLoads⟩ := link_row_loads
    ⟨store.clitblLen, store.gsqtblLen, store.clitbl, some (if cell.gsqprev = none
      then heads.set queue cell.gsqnext else heads), linked⟩
    front.getLast? cell.next rows rowInside (by
      intro other last
      have member : other ∈ chains row := by simp [split, mem_of_getLast? last]
      obtain ⟨neighbour, loaded, -⟩ := holds.chain_loaded member
      have kept := linkedNext other
      rw [loaded, map_some, map_eq_some_iff] at kept
      obtain ⟨copy, copied, -⟩ := kept
      exact ⟨copy, copied⟩)
  have chainHere : load chainMemory target = some cell := by
    rw [chainLoads, if_neg, linkedHere]
    exact fun last => chainApart (mem_append_left _ (mem_of_getLast? last))
  have released := release_allocated chainMemory target cell chainHere
  have erasedLoads : ∀ other ≠ target, load (chainMemory.erase target) other =
      load chainMemory other := fun other apart => by rw [load_erase, if_neg apart]
  have chainGsq : ∀ other, (load chainMemory other).map (fun cell => (cell.gsqprev, cell.gsqnext)) =
      (load linked other).map fun cell => (cell.gsqprev, cell.gsqnext) :=
    redirect_keeps _ (fun found : Charlockinfo => (found.gsqprev, found.gsqnext)) (by intro; rfl)
      chainLoads
  have entries : ∀ other, entryAt (chainMemory.erase target) other =
      if other = target then none else entryAt store.memory other := by
    intro other
    rw [entryAt, load_erase]
    split
    · rfl
    · rw [← linkedEntry]
      exact redirect_keeps _ (fun found : Charlockinfo => (found.charname, found.gsid))
        (by intro; rfl) chainLoads other
  -- the cells of the remaining chains and queues outlive the free
  have rowKept (index : Nat) : target ∉ update chains row (front ++ back) index := by
    by_cases own : index = row
    · rw [own, update_self]
      exact chainApart
    · rw [update_of_ne own]
      exact fun member => own (holds.chain_apart member inChain)
  have queueKept (index : Nat) :
    target ∉ update queues queue (before ++ behind) index := by
    by_cases own : index = queue
    · rw [own, update_self]
      exact queueApart
    · rw [update_of_ne own]
      exact fun member => own (holds.queue_apart member inQueue)
  rw [erased]
  refine ⟨⟨store.clitblLen, store.gsqtblLen, some (if front.getLast? = none
      then table.set row cell.next else table), some (if cell.gsqprev = none
      then heads.set queue cell.gsqnext else heads), chainMemory.erase target⟩,
    update chains row (front ++ back), ?_,
    { rows := ?_, heads := ?_, linked := ?_, positive := holds.positive, chained := ?_,
      queued := ?_, short := ?_, unique := ?_ }, rfl, entries⟩
  · rw [clUnlockChar, if_neg (by simp [holds.usable]), if_neg (by omega), rows]
    simp only [bind_eq_bind, bind_some, ← rowDef, read, walk, deleted, linkedHere]
    rw [chainLinked, bind_some]
    rw [released]
    rfl
  · refine ⟨_, rfl, ?_, fun index found listed => ?_⟩
    · rw [← length]
      split <;> simp
    have skipped := holds.rows_skipped rowInside eachRow split linkedHere linkedNext
      chainLoads listed
    refine chain_frame Charlockinfo.next chainMemory _ _ none _ skipped fun other member => ?_
    rw [erasedLoads other (ne_of_mem_of_not_mem member (rowKept index))]
  · refine ⟨_, rfl, ?_, fun index found listed => ?_⟩
    · rw [← headsLength]
      split <;> simp
    · rw [prevs, nexts] at listed
      exact heads_erased queueInside headed queueSplit listed
  · intro index
    have skipped := holds.linked_erased queueSplit present (prevs ▸ changedLoads)
      (nexts ▸ linkedLoads) index
    refine run_frame_links _ _ linked _ none none _ skipped fun other member => ?_
    rw [erasedLoads other (ne_of_mem_of_not_mem member (queueKept index)), chainGsq]
  · refine members_removed (fun entry => rowOf store entry.1) holds.chained entries
      fun index other => ⟨fun member => ⟨ne_of_mem_of_not_mem member (rowKept index), ?_⟩, ?_⟩
    · by_cases same : index = row
      · rw [same, update_self] at member
        rw [same, split]
        exact mem_append.mpr
          ((mem_append.mp member).imp_right (mem_cons_of_mem target))
      · rwa [update_of_ne same] at member
    · rintro ⟨apart, member⟩
      by_cases same : index = row
      · rw [same, split] at member
        rw [same, update_self]
        simpa [apart] using member
      · rwa [update_of_ne same]
  · refine members_removed (fun entry => queueOf store entry.2) holds.queued entries
      fun index other => ?_
    by_cases same : index = queue
    · rw [same, update_self, ← erased, (holds.queue_nodup queue).mem_erase_iff]
    rw [update_of_ne same]
    refine ⟨fun member => ⟨?_, member⟩, And.right⟩
    rintro rfl
    exact same (holds.queue_apart member inQueue)
  · intro other entry found
    rw [entries] at found
    split at found
    · cases found
    · exact holds.short other entry found
  · intro left right leftEntry rightEntry leftFound rightFound folded
    rw [entries] at leftFound rightFound
    split at leftFound
    · cases leftFound
    · split at rightFound
      · cases rightFound
      · exact holds.unique left right leftEntry rightEntry leftFound rightFound folded

end Unlock

section UnlockAll
variable {store : Charlock} {chains queues : Nat → List Nat}

theorem Holds.unlock_char (holds : Holds store chains queues)
    (short : charname.length < maxCharnameLen) (gsid : UInt32) :
    (∃ target name after chainsAfter, entryAt store.memory target = some (name, gsid) ∧
      name.map tolower = charname.map tolower ∧
      clUnlockChar store charname gsid = some (0, after) ∧
      Holds after chainsAfter
        (update queues (queueOf store gsid) ((queues (queueOf store gsid)).erase target)) ∧
      after.gsqtblLen = store.gsqtblLen ∧
      ∀ other, entryAt after.memory other =
        if other = target then none else entryAt store.memory other) ∨
    (¬ Locked store (charname.map tolower) gsid ∧
      clUnlockChar store charname gsid = some (0, store)) := by
  obtain ⟨table, first, rows, length, read, eachRow, walk⟩ := holds.trail_row charname
    fun pcl => sameCaseless pcl.charname charname && pcl.gsid = gsid
  rcases walk with ⟨front, target, back, cell, split, present, hit, walk⟩ | ⟨missed, walk⟩
  · left
    simp only [sameCaseless, Bool.and_eq_true, decide_eq_true_eq] at hit
    obtain ⟨folded, owned⟩ := hit
    obtain ⟨after, chainsAfter, unlocked, holdsAfter, sameLen, entries⟩ :=
      holds.unlock_target short rows length read eachRow split present owned walk
    exact ⟨target, cell.charname, after, chainsAfter, owned ▸ entry_of_load present,
      folded, unlocked,
      holdsAfter, sameLen, entries⟩
  · right
    refine ⟨?_, ?_⟩
    · rintro ⟨address, name, entry, folded⟩
      have member := (holds.chained (rowOf store charname) address).mpr
        ⟨_, entry, row_caseless store folded⟩
      obtain ⟨cell, present, same⟩ := map_eq_some_iff.mp entry
      obtain ⟨rfl, rfl⟩ := mk.inj same
      have miss := missed address member cell present
      simp [sameCaseless, folded] at miss
    · rw [clUnlockChar, if_neg (by simp [holds.usable]), if_neg (by omega), rows]
      simp only [bind_eq_bind, bind_some, read, walk]

/-- The walk over a queue: `kept` are the locks of other servers that it passed, and the pointer to
the next lock was read before the current one was freed. -/
theorem unlock_queue_holds (gsid : UInt32) (rest : List Nat) (budget : Nat) (kept : List Nat)
    (enough : rest.length ≤ budget) (holds : Holds store chains queues)
    (split : queues (queueOf store gsid) = kept ++ rest) :
    ∃ after chainsAfter queuesAfter, unlockQueue gsid budget rest.head? store = some after ∧
      Holds after chainsAfter queuesAfter ∧
      ∀ other, entryAt after.memory other =
        if other ∈ rest then (entryAt store.memory other).filter fun entry => entry.2 ≠ gsid
        else entryAt store.memory other := by
  induction rest generalizing budget kept store chains queues with
  | nil =>
    refine ⟨store, chains, queues, ?_, holds, fun other => by simp⟩
    cases budget <;> rfl
  | cons pcl rest ih =>
    cases budget with
    | zero => simp at enough
    | succ budget =>
      have member : pcl ∈ queues (queueOf store gsid) := by simp [split]
      obtain ⟨cell, present, placed⟩ := holds.queue_loaded member
      have run := holds.linked (queueOf store gsid)
      rw [split] at run
      obtain ⟨-, found, there, -, next, -⟩ := (run_append _ _ _ none none kept _).mp run
      obtain rfl := some.inj (present.symm.trans there)
      have distinct := holds.queue_nodup (queueOf store gsid)
      rw [split] at distinct
      have entry := entry_of_load present
      have fewer : rest.length ≤ budget := by simpa using enough
      have short := holds.short pcl _ entry
      have walk (after : Charlock)
          (unlocked : clUnlockChar store cell.charname gsid = some (0, after)) :
          unlockQueue gsid (budget + 1) (pcl :: rest).head? store =
            unlockQueue gsid budget rest.head? after := by
        simp [unlockQueue, present, unlocked, next]
      have outside : pcl ∉ rest := fun member =>
        (nodup_cons.mp (nodup_append.mp distinct).2.1).1 member
      rcases holds.unlock_char short gsid with
        ⟨target, name, after, chainsAfter, targetEntry, folded, unlocked, holdsAfter, sameLen,
          entries⟩ | ⟨unowned, unlocked⟩
      · have same := holds.unique target pcl _ _ targetEntry entry folded
        subst same
        have sameQueue : queueOf after gsid = queueOf store gsid := by
          rw [queueOf, queueOf, sameLen]
        obtain ⟨final, chainsFinal, queuesFinal, walked, holdsFinal, finalEntries⟩ := ih budget
          kept fewer holdsAfter (by
            rw [sameQueue, update_self, split, erase_append_right, erase_cons_head]
            exact fun member => (nodup_append.mp distinct).2.2 target member target
              mem_cons_self rfl)
        refine ⟨final, chainsFinal, queuesFinal, (walk after unlocked).trans walked, holdsFinal,
          fun other => ?_⟩
        rw [finalEntries, entries]
        by_cases here : other = target
        · subst here
          simp [targetEntry, Option.filter]
        · simp [here]
      · have foreign : cell.gsid ≠ gsid := fun owned =>
          unowned ⟨pcl, cell.charname, owned ▸ entry, rfl⟩
        obtain ⟨final, chainsFinal, queuesFinal, walked, holdsFinal, finalEntries⟩ := ih budget
          (kept ++ [pcl]) fewer holds (by rw [split, append_assoc]; rfl)
        refine ⟨final, chainsFinal, queuesFinal, (walk store unlocked).trans walked, holdsFinal,
          fun other => ?_⟩
        rw [finalEntries]
        by_cases here : other = pcl
        · subst here
          simp [entry, foreign, Option.filter]
        · simp [here]

theorem Holds.unlock_all (holds : Holds store chains queues) (gsid : UInt32) :
    ∃ after chainsAfter queuesAfter, clUnlockAllCharByGsid store gsid = some after ∧
      Holds after chainsAfter queuesAfter ∧
      ∀ other, entryAt after.memory other =
        (entryAt store.memory other).filter fun entry => entry.2 ≠ gsid := by
  obtain ⟨heads, headsDef, headsLength, headed⟩ := holds.heads
  have inside : queueOf store gsid < heads.length := by
    rw [headsLength]
    exact holds.queue_inside gsid
  have chain := run_chain _ _ _ _ _ _ (holds.linked (queueOf store gsid))
  obtain ⟨after, chainsAfter, queuesAfter, walked, holdsAfter, entries⟩ :=
    unlock_queue_holds gsid _ _ [] (chain_fits _ _ _ _ chain) holds rfl
  refine ⟨after, chainsAfter, queuesAfter, ?_, holdsAfter, fun other => ?_⟩
  · rw [clUnlockAllCharByGsid, if_neg holds.positive.2, headsDef]
    simp only [bind_eq_bind, bind_some, read_inside heads _ inside,
      headed _ _ (getElem?_eq_getElem inside), walked]
  rw [entries]
  by_cases member : other ∈ queues (queueOf store gsid)
  · rw [if_pos member]
  rw [if_neg member]
  cases entry : entryAt store.memory other with
  | none => rfl
  | some found =>
    have foreign : found.2 ≠ gsid := by
      rintro rfl
      exact member ((holds.queued _ other).mpr ⟨found, entry, rfl⟩)
    simp [Option.filter, foreign]
end UnlockAll

inductive Operation
  | lock (address : Nat) (charname realmname : Text) (gsid : UInt32)
  | unlock (charname : Text) (gsid : UInt32)
  | unlockAll (gsid : UInt32)

def step (store : Charlock) : Operation → Option (Int × Charlock)
  | .lock address charname realmname gsid => clLockChar store address charname realmname gsid
  | .unlock charname gsid => clUnlockChar store charname gsid
  | .unlockAll gsid => (clUnlockAllCharByGsid store gsid).map fun after => (0, after)

/-- The names are shorter than `MAX_CHARNAME_LEN`, and `xmalloc` answers memory that is not in use.
-/
def Permitted (store : Charlock) : Operation → Prop
  | .lock address charname _ _ =>
    charname.length < maxCharnameLen ∧ load store.memory address = none
  | .unlock charname _ => charname.length < maxCharnameLen
  | .unlockAll _ => True

/-- The owners of the locked characters by their folded names. -/
abbrev Locks := Text → Option UInt32

def settle (locks : Locks) : Operation → Locks
  | .lock _ charname _ gsid => fun key =>
    if key = charname.map tolower then (locks key).or (some gsid) else locks key
  | .unlock charname gsid => fun key =>
    if key = charname.map tolower ∧ locks key = some gsid then none else locks key
  | .unlockAll gsid => fun key => if locks key = some gsid then none else locks key

inductive Reached (tbllen maxgs : UInt32) : Charlock → Locks → Prop
  | init {store : Charlock}
      (accepted : clInit ⟨0, 0, none, none, ∅⟩ tbllen maxgs = some (0, store)) :
      Reached tbllen maxgs store fun _ => none
  | step {store after : Charlock} {locks : Locks} {operation : Operation} {result : Int}
      (before : Reached tbllen maxgs store locks) (permitted : Permitted store operation)
      (ran : CharLock.step store operation = some (result, after)) :
      Reached tbllen maxgs after (settle locks operation)

def Represents (store : Charlock) (locks : Locks) : Prop :=
  ∀ key gsid, locks key = some gsid ↔ Locked store key gsid

section Runs
variable {store after : Charlock} {locks : Locks} {chains queues : Nat → List Nat}

variable {charname : Text}

theorem Holds.lock_taken (holds : Holds store chains queues)
    (short : charname.length < maxCharnameLen) (address : Nat) (realmname : Text) (gsid : UInt32)
    {owner : UInt32} (taken : Locked store (charname.map tolower) owner) :
    clLockChar store address charname realmname gsid = some (0, store) := by
  obtain ⟨table, first, rows, length, read, -, walk⟩ := holds.trail_row charname
    fun pcl => sameCaseless pcl.charname charname
  rcases walk with ⟨front, target, back, cell, split, present, hit, walk⟩ | ⟨missed, -⟩
  · rw [clLockChar, if_neg (by simp [holds.usable]), if_neg (by omega), rows]
    simp only [bind_eq_bind, bind_some, read, walk]
  obtain ⟨other, name, entry, folded⟩ := taken
  have member := (holds.chained (rowOf store charname) other).mpr
    ⟨_, entry, row_caseless store folded⟩
  obtain ⟨cell, present, same⟩ := map_eq_some_iff.mp entry
  obtain ⟨rfl, rfl⟩ := mk.inj same
  have miss := missed other member cell present
  simp [sameCaseless, folded] at miss

theorem represents_added (represents : Represents store locks) {gsid : UInt32}
    (free : locks (charname.map tolower) = none) (fresh : entryAt store.memory address = none)
    (entries : ∀ other, entryAt after.memory other =
      if other = address then some (charname, gsid) else entryAt store.memory other) :
    Represents after fun key =>
      if key = charname.map tolower then (locks key).or (some gsid) else locks key := by
  intro key owner
  change (if key = charname.map tolower then (locks key).or (some gsid) else locks key) =
    some owner ↔ _
  constructor
  · intro locked
    by_cases here : key = charname.map tolower
    · subst here
      rw [if_pos rfl, free, none_or, some.injEq] at locked
      subst locked
      exact ⟨address, charname, by rw [entries, if_pos rfl], rfl⟩
    rw [if_neg here] at locked
    obtain ⟨other, name, entry, folded⟩ := (represents key owner).mp locked
    have apart : other ≠ address := by
      rintro rfl
      simp [fresh] at entry
    exact ⟨other, name, by rw [entries, if_neg apart, entry], folded⟩
  · rintro ⟨other, name, entry, rfl⟩
    rw [entries] at entry
    split at entry
    · cases entry
      simp [free]
    have locked := (represents _ owner).mpr ⟨other, name, entry, rfl⟩
    split
    · rw [locked]
      rfl
    · exact locked

theorem represents_removed (represents : Represents store locks) (removed : Text → UInt32 → Prop)
    [∀ key gsid, Decidable (removed key gsid)]
    (entries : ∀ other, entryAt after.memory other = (entryAt store.memory other).filter
      fun entry => ¬ removed (entry.1.map tolower) entry.2) :
    Represents after fun key => (locks key).filter fun gsid => ¬ removed key gsid := by
  intro key owner
  rw [filter_eq_some_iff, represents]
  constructor
  · rintro ⟨⟨address, name, entry, rfl⟩, kept⟩
    exact ⟨address, name, by simpa [entries, entry] using kept, rfl⟩
  · rintro ⟨address, name, entry, rfl⟩
    rw [entries, filter_eq_some_iff] at entry
    exact ⟨⟨address, name, entry.1, rfl⟩, entry.2⟩

theorem represents_exists (holds : Holds store chains queues) :
    ∃ locks, Represents store locks := by
  classical
  refine ⟨fun key => if locked : ∃ gsid, Locked store key gsid then some locked.choose else none,
    fun key gsid => ?_⟩
  by_cases locked : ∃ owner, Locked store key owner
  · simp only [dif_pos locked, some.injEq]
    exact ⟨fun same => same ▸ locked.choose_spec, fun owned =>
      holds.locked_unique locked.choose_spec owned⟩
  · simp only [dif_neg locked, reduceCtorEq, false_iff]
    exact fun owned => locked ⟨gsid, owned⟩

theorem settle_represented (holds : Holds store chains queues) (represents : Represents store locks)
    (operation : Operation) (permitted : Permitted store operation) :
    ∃ after chainsAfter queuesAfter, step store operation = some (0, after) ∧
      Holds after chainsAfter queuesAfter ∧ Represents after (settle locks operation) := by
  cases operation with
  | lock address charname realmname gsid =>
    obtain ⟨short, fresh⟩ := permitted
    cases taken : locks (charname.map tolower) with
    | some owner =>
      refine ⟨store, chains, queues, holds.lock_taken short address realmname gsid
        ((represents _ owner).mp taken), holds, ?_⟩
      have same : settle locks (.lock address charname realmname gsid) = locks := by
        funext key
        by_cases here : key = charname.map tolower
        · simp [settle, here, taken]
        · simp [settle, here]
      rw [same]
      exact represents
    | none =>
      obtain ⟨after, chainsAfter, queuesAfter, locked, holdsAfter, entries⟩ :=
        holds.lock_free short realmname gsid fresh fun owner locked => by
          simp [(represents _ owner).mpr locked] at taken
      exact ⟨after, chainsAfter, queuesAfter, locked, holdsAfter,
        represents_added represents taken (by rw [entryAt, fresh]; rfl) entries⟩
  | unlock charname gsid =>
    let removed := fun key owner => key = charname.map tolower ∧ owner = gsid
    have settled : settle locks (.unlock charname gsid) =
        fun key => (locks key).filter fun owner => ¬ removed key owner := by
      funext key
      change (if key = charname.map tolower ∧ locks key = some gsid then none else locks key) = _
      cases locked : locks key with
      | none => simp
      | some owner =>
        by_cases hit : removed key owner
        · rw [if_pos ⟨hit.1, congrArg some hit.2⟩, filter_some_neg (by simp [hit])]
        · rw [if_neg fun found => hit ⟨found.1, some.inj found.2⟩, filter_some_pos (by simp [hit])]
    rw [settled]
    rcases holds.unlock_char permitted gsid with
      ⟨target, name, after, chainsAfter, targetEntry, folded, unlocked, holdsAfter, -, entries⟩ |
      ⟨unowned, unlocked⟩
    · refine ⟨after, chainsAfter, _, unlocked, holdsAfter,
        represents_removed represents removed fun other => ?_⟩
      rw [entries]
      by_cases here : other = target
      · rw [if_pos here, here, targetEntry, filter_some_neg (by simp [removed, folded])]
      rw [if_neg here]
      cases entry : entryAt store.memory other with
      | none => rfl
      | some found =>
        have kept : ¬ removed (found.1.map tolower) found.2 := fun hit =>
          here (holds.unique other target _ _ entry targetEntry (hit.1.trans folded.symm))
        rw [filter_some_pos (by simp [kept])]
    · refine ⟨store, chains, queues, unlocked, holds,
        represents_removed represents removed fun other => ?_⟩
      cases entry : entryAt store.memory other with
      | none => rfl
      | some found =>
        have kept : ¬ removed (found.1.map tolower) found.2 := fun hit =>
          unowned ⟨other, found.1, hit.2 ▸ entry, hit.1⟩
        rw [filter_some_pos (by simp [kept])]
  | unlockAll gsid =>
    obtain ⟨after, chainsAfter, queuesAfter, unlocked, holdsAfter, entries⟩ := holds.unlock_all gsid
    refine ⟨after, chainsAfter, queuesAfter, by simp [step, unlocked], holdsAfter, ?_⟩
    have settled : settle locks (.unlockAll gsid) =
        fun key => (locks key).filter fun owner => ¬ owner = gsid := by
      funext key
      cases locked : locks key <;> simp [settle, locked, Option.filter]
    rw [settled]
    exact represents_removed represents (fun _ owner => owner = gsid) (by simpa using entries)

theorem init_holds {tbllen maxgs : UInt32} {result : Int}
    (ran : clInit ⟨0, 0, none, none, ∅⟩ tbllen maxgs = some (result, store))
    (accepted : result = 0) :
    Holds store (fun _ => []) (fun _ => []) ∧ Represents store fun _ => none := by
  rw [clInit] at ran
  split at ran
  · cases ran
    cases accepted
  rename_i positive
  rw [not_or] at positive
  cases ran
  have empty (address : Nat) : entryAt (∅ : Memory Charlockinfo) address = none := rfl
  refine ⟨{
    rows := ⟨_, rfl, by simp, ?_⟩
    heads := ⟨_, rfl, by simp, ?_⟩
    linked := fun _ => trivial
    positive := positive
    chained := by simp [empty]
    queued := by simp [empty]
    short := by simp [empty]
    unique := by simp [empty] }, ?_⟩
  · intro row first found
    have inside : row < tbllen.toNat ∧ first = none := by
      simpa [getElem?_replicate, eq_comm] using found
    exact inside.2
  · intro queue first found
    have inside : queue < maxgs.toNat ∧ first = none := by
      simpa [getElem?_replicate, eq_comm] using found
    exact inside.2
  · intro key gsid
    simp [Locked, empty]

theorem reached_represented {tbllen maxgs : UInt32} (reached : Reached tbllen maxgs store locks) :
    ∃ chains queues, Holds store chains queues ∧ Represents store locks := by
  induction reached with
  | init accepted => exact ⟨_, _, init_holds accepted rfl⟩
  | @step store after locks operation result before permitted ran ih =>
    obtain ⟨chains, queues, holds, represents⟩ := ih
    obtain ⟨found, chainsAfter, queuesAfter, succeeded, holdsAfter, representsAfter⟩ :=
      settle_represented holds represents operation permitted
    rw [ran] at succeeded
    cases succeeded
    exact ⟨chainsAfter, queuesAfter, holdsAfter, representsAfter⟩

/-- After `cl_init` and any calls the store is the partial map from folded names to servers: every
further call succeeds and changes it as `settle` says, a query reads it, and the locks in the chains
are those in the queues of their servers. -/
theorem charlock_is_map {tbllen maxgs : UInt32} (reached : Reached tbllen maxgs store locks) :
    (∀ charname, charname.length < maxCharnameLen → clQueryCharlockStatus store charname =
      match locks (charname.map tolower) with
      | none => some (0, none)
      | some gsid => some (1, some gsid)) ∧
    (∀ operation, Permitted store operation → ∃ after, step store operation = some (0, after) ∧
      Reached tbllen maxgs after (settle locks operation)) ∧
    ∃ chains queues, Holds store chains queues := by
  obtain ⟨chains, queues, holds, represents⟩ := reached_represented reached
  refine ⟨fun charname short => ?_, fun operation permitted => ?_, chains, queues, holds⟩
  · rcases holds.query_locked charname short with ⟨gsid, locked, answer⟩ | ⟨free, answer⟩
    · rw [answer, (represents _ gsid).mpr locked]
    have absent : locks (charname.map tolower) = none :=
      eq_none_iff_forall_ne_some.mpr fun gsid locked =>
        free gsid ((represents _ gsid).mp locked)
    rw [answer, absent]
  · obtain ⟨after, -, -, ran, -, -⟩ := settle_represented holds represents operation permitted
    exact ⟨after, ran, .step reached permitted ran⟩

theorem charlock_is_map_sample : ∃ store locks, Reached 3 1 store locks ∧
    clQueryCharlockStatus store (text "bAR") = some (1, some 2) := by
  have empty : Reached 3 1 _ _ := .init rfl
  have first := empty.step
    (show Permitted _ (.lock 5 (text "Foo") (text "Realm") 1) from ⟨by decide, rfl⟩) rfl
  have second := first.step
    (show Permitted _ (.lock 6 (text "Bar") (text "Realm") 2) from ⟨by decide, rfl⟩) rfl
  have third := second.step (show Permitted _ (.unlockAll 1) from trivial) rfl
  exact ⟨_, _, third, (charlock_is_map third).1 (text "bAR") (by decide)⟩

end Runs

end Pvpgn.CharLock
