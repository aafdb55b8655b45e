import Pvpgn.CheckedArray
import Pvpgn.LinkedMemory
import Mathlib.Data.Multiset.Filter

/-!
The hash tables of common/hashtable.cpp. Rows are singly linked chains of
internal entries. Removal only poisons an entry: its data becomes a pointer to
the static `nodata`, here `none`. `hashtable_purge` unlinks and frees poisoned
entries later. A walk that reaches a freed entry is a fault.
-/

namespace Pvpgn.HashTable
open CheckedArray LinkedMemory Option Function Nat Prod

variable {Data : Type}

structure InternEntry (Data : Type) where
  data : Option Data
  next : Option Nat

structure Hashtable (Data : Type) where
  memory : Memory (InternEntry Data)
  numRows : Nat
  len : Nat
  rows : List (Option Nat)

/-- An exported entry: the caller's handle on an internal one. -/
structure Entry where
  row : Nat
  real : Nat
  deriving DecidableEq

def hashtableCreate (numRows : Nat) : Option (Hashtable Data) :=
  if numRows < 1 then none else some ⟨∅, numRows, 0, List.replicate numRows none⟩

def hashtableGetLength (table : Hashtable Data) : Nat := table.len

def isLive (entry : InternEntry Data) : Bool := entry.data.isSome

def hashtableInsertData (table : Hashtable Data) (address : Nat) (data : Data) (hash : Nat) :
    Option (Hashtable Data) := do
  let row := hash % table.numRows
  let first ← readAt table.rows row
  let memory ← allocate table.memory address ⟨some data, first⟩
  let rows ← writeAt table.rows row (some address)
  some { table with memory := memory, rows := rows, len := table.len + 1 }

def hashtableGetEntryByData [DecidableEq Data] (table : Hashtable Data) (data : Data) (hash : Nat) :
    Option (Option Entry) := do
  let row := hash % table.numRows
  let first ← readAt table.rows row
  let found ← seek InternEntry.next table.memory (fun entry => decide (entry.data = some data)) first
  some (found.map fun real => ⟨row, real⟩)

def entryGetData (table : Hashtable Data) (entry : Entry) : Option (Option Data) :=
  (load table.memory entry.real).map InternEntry.data

def hashtableRemoveEntry (table : Hashtable Data) (entry : Entry) : Option (Hashtable Data × Int) := do
  let real ← load table.memory entry.real
  if real.data.isNone then some (table, -1)
  else do
    let memory ← store table.memory entry.real { real with data := none }
    some ({ table with memory := memory, len := table.len - 1 }, 0)

def hashtableRemoveData [DecidableEq Data] (table : Hashtable Data) (data : Data) (hash : Nat) :
    Option (Hashtable Data × Int) := do
  match ← hashtableGetEntryByData table data hash with
  | none => some (table, -1)
  | some entry => hashtableRemoveEntry table entry

-- `if (change) *change = next; xfree(curr);`
def unlinkEntry (memory : Memory (InternEntry Data)) (change next : Option Nat) (curr : Nat) :
    Option (Memory (InternEntry Data)) := do
  let memory ← match change with
    | none => some memory
    | some last => update memory last fun kept => { kept with next := next }
  release memory curr

/-- One row of hashtable_purge. `change` is the entry whose `next` still has to skip
whatever poisoned entries follow it. -/
def purgeRow : Nat → Memory (InternEntry Data) → Option Nat → Option Nat → Option Nat →
    Option (Memory (InternEntry Data) × Option Nat)
  | _, memory, none, head, _ => some (memory, head)
  | 0, _, some _, _, _ => none
  | budget + 1, memory, some curr, head, change => do
    let entry ← load memory curr
    if entry.data.isNone then do
      let memory ← unlinkEntry memory change entry.next curr
      purgeRow budget memory entry.next head change
    else purgeRow budget memory entry.next (head.or (some curr)) (some curr)

def purgeRows : List Nat → Hashtable Data → Option (Hashtable Data)
  | [], table => some table
  | row :: rest, table => do
    let first ← readAt table.rows row
    let (memory, head) ← purgeRow table.memory.keys.length table.memory first none none
    let rows ← writeAt table.rows row head
    purgeRows rest { table with memory := memory, rows := rows }

def hashtablePurge (table : Hashtable Data) : Option (Hashtable Data) :=
  purgeRows (List.range table.numRows) table

/-- The row loop shared by hashtable_get_first and entry_get_next. -/
def firstInRows (table : Hashtable Data) : List Nat → Option (Option Entry)
  | [] => some none
  | row :: rest => do
    let first ← readAt table.rows row
    match ← seek InternEntry.next table.memory isLive first with
    | some real => some (some ⟨row, real⟩)
    | none => firstInRows table rest

def hashtableGetFirst (table : Hashtable Data) : Option (Option Entry) :=
  firstInRows table (List.range table.numRows)

def entryGetNext (table : Hashtable Data) (entry : Entry) : Option (Option Entry) := do
  let real ← load table.memory entry.real
  match ← seek InternEntry.next table.memory isLive real.next with
  | some next => some (some { entry with real := next })
  | none => firstInRows table (List.range' (entry.row + 1) (table.numRows - (entry.row + 1)))

def hashtableGetFirstMatching (table : Hashtable Data) (hash : Nat) : Option (Option Entry) := do
  let row := hash % table.numRows
  let first ← readAt table.rows row
  let found ← seek InternEntry.next table.memory isLive first
  some (found.map fun real => ⟨row, real⟩)

def entryGetNextMatching (table : Hashtable Data) (entry : Entry) : Option (Option Entry) := do
  let real ← load table.memory entry.real
  let found ← seek InternEntry.next table.memory isLive real.next
  some (found.map fun next => { entry with real := next })

-- HASHTABLE_TRAVERSE and HASHTABLE_TRAVERSE_MATCHING differ in `advance`. The body
-- reads the current entry and removes it when `doomed` says so; the result names
-- the entries it saw with the data it read.
def traverse (advance : Hashtable Data → Entry → Option (Option Entry))
    (doomed : Entry → Data → Bool) :
    Nat → Hashtable Data → Option Entry → Option (Hashtable Data × List (Entry × Option Data))
  | _, table, none => some (table, [])
  | 0, _, some _ => none
  | rounds + 1, table, some entry => do
    let data ← entryGetData table entry
    let after ← if data.any (doomed entry) then (hashtableRemoveEntry table entry).map fst
      else some table
    let next ← advance after entry
    let (last, seen) ← traverse advance doomed rounds after next
    some (last, (entry, data) :: seen)

/-! Every row as the chain of its entries, poisoned ones included. -/

abbrev Chains (Data : Type) := Nat → List (Nat × Option Data)

def rowSlots (chains : Chains Data) (row : Nat) : List (Entry × Option Data) :=
  (chains row).map fun item => (⟨row, item.1⟩, item.2)

def slots (chains : Chains Data) (rows : List Nat) : List (Entry × Option Data) :=
  rows.flatMap (rowSlots chains)

def liveSlot (slot : Entry × Option Data) : Bool := slot.2.isSome

def pair (slot : Entry × Option Data) : Option (Data × Nat) := slot.2.map fun data => (data, slot.1.row)

def pairs (chains : Chains Data) (rows : List Nat) : List (Data × Nat) :=
  (slots chains rows).filterMap pair

structure Holds (table : Hashtable Data) (chains : Chains Data) : Prop where
  positive : 0 < table.numRows
  rowCount : table.rows.length = table.numRows
  linked : ∀ row, row < table.numRows → ∃ first, readAt table.rows row = some first ∧
    Chain InternEntry.next table.memory first ((chains row).map fst) none
  contents : ∀ row, row < table.numRows → ∀ item ∈ chains row,
    (load table.memory item.1).map InternEntry.data = some item.2
  apart : ∀ left right, left < table.numRows → right < table.numRows →
    ∀ address, address ∈ (chains left).map fst → address ∈ (chains right).map fst → left = right
  counted : table.len = (pairs chains (List.range table.numRows)).length

def poison (dead : Nat → Bool) (chains : Chains Data) : Chains Data :=
  fun row => (chains row).map fun item => (item.1, if dead item.1 then none else item.2)

def poisonSlot (dead : Nat → Bool) (slot : Entry × Option Data) : Entry × Option Data :=
  (slot.1, if dead slot.1.real then none else slot.2)

variable (table : Hashtable Data) (chains : Chains Data) (dead : Nat → Bool) (rows : List Nat)
  (row : Nat) (memory : Memory (InternEntry Data))

@[simp] theorem slots_nil : slots chains [] = [] := rfl

@[simp] theorem slots_cons (rest : List Nat) :
    slots chains (row :: rest) = rowSlots chains row ++ slots chains rest := rfl

theorem row_slots_addresses :
    (rowSlots chains row).map (fun slot => slot.1.real) = (chains row).map fst := by
  simp [rowSlots, comp_def]

theorem poison_slots (chains : Chains Data) (rows : List Nat) :
    slots (poison dead chains) rows = (slots chains rows).map (poisonSlot dead) := by
  induction rows with
  | nil => rfl
  | cons row rest ih =>
    simp only [slots_cons, ih, List.map_append]
    simp [rowSlots, poison, poisonSlot, comp_def]

theorem poison_addresses (chains : Chains Data) (row : Nat) :
    (poison dead chains row).map fst = (chains row).map fst := by
  simp [poison, comp_def]

variable (front back : List (Entry × Option Data)) (kept : List Nat) (slot : Entry × Option Data)
  (head : Option Nat) (item : Nat × Option Data)

theorem split_slots (split : slots chains rows = front ++ slot :: back) :
    ∃ earlier later before after, rows = earlier ++ slot.1.row :: later ∧
      chains slot.1.row = before ++ (slot.1.real, slot.2) :: after ∧
      back = (after.map fun item => (⟨slot.1.row, item.1⟩, item.2)) ++ slots chains later := by
  induction rows generalizing front with
  | nil => simp at split
  | cons row rest ih =>
    rw [slots_cons] at split
    rcases List.append_eq_append_iff.mp split with ⟨middle, frontSplit, restSplit⟩ |
      ⟨middle, rowSplit, backSplit⟩
    · obtain ⟨earlier, later, before, after, rowsSplit, chain, tail⟩ := ih middle restSplit
      exact ⟨row :: earlier, later, before, after, by rw [rowsSplit]; rfl, chain, tail⟩
    cases middle with
    | nil =>
      obtain ⟨earlier, later, before, after, rowsSplit, chain, tail⟩ := ih [] (by simpa using backSplit.symm)
      exact ⟨row :: earlier, later, before, after, by rw [rowsSplit]; rfl, chain, tail⟩
    | cons head middle =>
      rw [List.cons_append, List.cons_eq_cons] at backSplit
      obtain ⟨rfl, backSplit⟩ := backSplit
      rw [rowSlots, List.map_eq_append_iff] at rowSplit
      obtain ⟨before, rest', chain, _, restSplit⟩ := rowSplit
      rw [List.map_eq_cons_iff] at restSplit
      obtain ⟨item, after, itemSplit, same, afterSplit⟩ := restSplit
      subst same
      refine ⟨[], rest, before, after, rfl, ?_, ?_⟩
      · rw [chain, itemSplit]
      · rw [backSplit, afterSplit]

theorem slot_listed (member : slot ∈ slots chains rows) :
    slot.1.row ∈ rows ∧ (slot.1.real, slot.2) ∈ chains slot.1.row := by
  obtain ⟨front, back, split⟩ := List.append_of_mem member
  obtain ⟨earlier, later, before, after, rowsSplit, chain, _⟩ := split_slots _ _ _ _ _ split
  exact ⟨by simp [rowsSplit], by simp [chain]⟩

theorem slots_distinct (holds : Holds table chains) (rows : List Nat)
    (inside : ∀ row ∈ rows, row < table.numRows) (distinct : rows.Nodup) :
    ((slots chains rows).map fun slot => slot.1.real).Nodup := by
  induction rows with
  | nil => simp
  | cons row rest ih =>
    obtain ⟨outside, restDistinct⟩ := List.nodup_cons.mp distinct
    have here := inside row List.mem_cons_self
    obtain ⟨first, _, chain⟩ := holds.linked row here
    rw [slots_cons, List.map_append, row_slots_addresses]
    refine List.nodup_append.mpr ⟨chain_nodup _ _ _ _ chain,
      ih (fun other member => inside other (List.mem_cons_of_mem row member)) restDistinct, ?_⟩
    rintro address member other again rfl
    obtain ⟨slot, slotMember, same⟩ := List.mem_map.mp again
    obtain ⟨laterRow, item⟩ := slot_listed _ _ _ slotMember
    subst same
    have later := inside slot.1.row (List.mem_cons_of_mem row laterRow)
    have sameRow := holds.apart row slot.1.row here later _ member (List.mem_map_of_mem item)
    exact outside (sameRow ▸ laterRow)

theorem create_holds (numRows : Nat) (positive : 1 ≤ numRows) :
    ∃ table : Hashtable Data, hashtableCreate numRows = some table ∧ table.numRows = numRows ∧
      Holds table fun _ => [] := by
  refine ⟨⟨∅, numRows, 0, List.replicate numRows none⟩, ?_, rfl, ?_⟩
  · rw [hashtableCreate, if_neg (by omega)]
  constructor
  · exact positive
  · simp
  · intro row inside
    exact ⟨none, by simp [readAt, inside], rfl⟩
  · simp
  · simp
  · have empty : ∀ rows, slots (fun _ => [] : Chains Data) rows = [] := by
      intro rows
      induction rows with
      | nil => rfl
      | cons row rest ih => simp [ih, rowSlots]
    simp [pairs, empty]

theorem seek_items (first : Option Nat) (items : List (Nat × Option Data))
    (hit : InternEntry Data → Bool) (test : Nat × Option Data → Bool)
    (chain : Chain InternEntry.next memory first (items.map fst) none)
    (agree : ∀ item ∈ items, hits memory hit item.1 = test item) :
    seek InternEntry.next memory hit first = some ((items.find? test).map fst) := by
  rw [seek_chain _ _ _ _ _ chain, List.find?_map]
  have same : items.find? (hits memory hit ∘ fst) = items.find? test := by
    clear chain
    induction items with
    | nil => rfl
    | cons item rest ih =>
      rw [List.find?_cons, List.find?_cons, comp_apply, agree item List.mem_cons_self,
        ih (fun other member => agree other (List.mem_cons_of_mem item member))]
  rw [same]

theorem hits_live (content : (load memory item.1).map InternEntry.data = some item.2) :
    hits memory isLive item.1 = item.2.isSome := by
  obtain ⟨entry, present, same⟩ := map_eq_some_iff.mp content
  simp [hits, present, isLive, same]

theorem first_in_rows (holds : Holds table chains) (rows : List Nat)
    (inside : ∀ row ∈ rows, row < table.numRows) :
    firstInRows table rows = some (((slots chains rows).find? liveSlot).map fst) := by
  induction rows with
  | nil => rfl
  | cons row rest ih =>
    have here := inside row List.mem_cons_self
    obtain ⟨first, read, chain⟩ := holds.linked row here
    have found := seek_items table.memory first (chains row) isLive (fun item => item.2.isSome) chain
      (fun item member => hits_live _ _ (holds.contents row here item member))
    have later := ih (fun other member => inside other (List.mem_cons_of_mem row member))
    have inRow : (rowSlots chains row).find? liveSlot =
        ((chains row).find? fun item => item.2.isSome).map fun item => (⟨row, item.1⟩, item.2) := by
      rw [rowSlots, List.find?_map]
      rfl
    simp only [firstInRows, read, found, bind_eq_bind, bind_some, slots_cons,
      List.find?_append, inRow]
    cases (chains row).find? fun item => item.2.isSome with
    | none => simpa using later
    | some item => rfl

theorem rows_after (count row : Nat) (earlier later : List Nat)
    (split : List.range count = earlier ++ row :: later) :
    List.range' (row + 1) (count - (row + 1)) = later := by
  rw [List.range_eq_range'] at split
  obtain ⟨position, _, _, tail⟩ := List.range'_eq_append_iff.mp split
  obtain ⟨start, _, rest⟩ := List.range'_eq_cons_iff.mp tail.symm
  have same : position = row := by omega
  rw [rest, same, Nat.sub_sub]

section
variable (holds : Holds table chains)
include holds

theorem tail_items (row : Nat) (inside : row < table.numRows)
    (before after : List (Nat × Option Data)) (item : Nat × Option Data)
    (split : chains row = before ++ item :: after) :
    ∃ real, load table.memory item.1 = some real ∧ real.data = item.2 ∧
      seek InternEntry.next table.memory isLive real.next =
        some ((after.find? fun other => other.2.isSome).map fst) := by
  obtain ⟨first, _, chain⟩ := holds.linked row inside
  rw [split, List.map_append, chain_append] at chain
  obtain ⟨middle, _, _, real, present, tail⟩ := chain
  have content := holds.contents row inside item (by simp [split])
  rw [present] at content
  refine ⟨real, present, by simpa using content, ?_⟩
  apply seek_items _ _ _ _ _ tail
  intro other member
  exact hits_live _ _ (holds.contents row inside other (by simp [split, member]))

theorem get_next_exact (front back : List (Entry × Option Data)) (slot : Entry × Option Data)
    (split : slots chains (List.range table.numRows) = front ++ slot :: back) :
    entryGetNext table slot.1 = some ((back.find? liveSlot).map fst) := by
  obtain ⟨earlier, later, before, after, rowsSplit, chain, tail⟩ := split_slots _ _ _ _ _ split
  have inside : slot.1.row < table.numRows := by
    apply List.mem_range.mp
    simp [rowsSplit]
  obtain ⟨real, present, _, found⟩ := tail_items table chains holds _ inside before after _ chain
  have remaining := rows_after _ _ _ _ rowsSplit
  have laterInside : ∀ row ∈ later, row < table.numRows := by
    intro row member
    apply List.mem_range.mp
    simp [rowsSplit, member]
  have rest := first_in_rows table chains holds later laterInside
  have inRow : (after.map fun item => ((⟨slot.1.row, item.1⟩ : Entry), item.2)).find? liveSlot =
      (after.find? fun item => item.2.isSome).map fun item => (⟨slot.1.row, item.1⟩, item.2) := by
    rw [List.find?_map]
    rfl
  simp only [entryGetNext, present, found, bind_eq_bind, bind_some, remaining, tail,
    List.find?_append, inRow]
  cases after.find? fun item => item.2.isSome with
  | none => simpa using rest
  | some item => rfl

theorem get_first_matching_exact (hash : Nat) :
    hashtableGetFirstMatching table hash =
      some (((slots chains [hash % table.numRows]).find? liveSlot).map fst) := by
  have inside : hash % table.numRows < table.numRows := mod_lt _ holds.positive
  obtain ⟨first, read, chain⟩ := holds.linked _ inside
  have found := seek_items table.memory first _ isLive (fun item => item.2.isSome) chain
    (fun item member => hits_live _ _ (holds.contents _ inside item member))
  simp only [hashtableGetFirstMatching, read, found, bind_eq_bind, bind_some,
    slots_cons, slots_nil, List.append_nil, rowSlots, List.find?_map, Option.map_map]
  rfl

theorem get_next_matching_exact (row : Nat) (inside : row < table.numRows)
    (front back : List (Entry × Option Data)) (slot : Entry × Option Data)
    (split : slots chains [row] = front ++ slot :: back) :
    entryGetNextMatching table slot.1 = some ((back.find? liveSlot).map fst) := by
  obtain ⟨earlier, later, before, after, rowsSplit, chain, tail⟩ := split_slots _ _ _ _ _ split
  obtain ⟨rfl, same, rfl⟩ : earlier = [] ∧ slot.1.row = row ∧ later = [] := by
    cases earlier with
    | nil => simpa [eq_comm] using rowsSplit
    | cons head rest => simp at rowsSplit
  obtain ⟨real, present, _, found⟩ :=
    tail_items table chains holds _ (same ▸ inside) before after _ chain
  rw [slots_nil, List.append_nil] at tail
  simp only [entryGetNextMatching, present, found, bind_eq_bind, bind_some, tail,
    List.find?_map, Option.map_map]
  rfl

end

/-! What each operation does to the rows. -/

theorem pairs_append :
    (front ++ back).filterMap pair = front.filterMap pair ++ back.filterMap pair :=
  List.filterMap_append

theorem slots_congr (other : Chains Data) (rows : List Nat)
    (same : ∀ row ∈ rows, other row = chains row) : slots other rows = slots chains rows := by
  apply List.flatMap_congr
  intro row member
  rw [rowSlots, rowSlots, same row member]

def prependItem (chains : Chains Data) (row : Nat) (item : Nat × Option Data) : Chains Data :=
  fun other => if other = row then item :: chains other else chains other

theorem prepend_slots (rows : List Nat) (member : row ∈ rows) (distinct : rows.Nodup) :
    (slots (prependItem chains row item) rows).Perm
      ((⟨row, item.1⟩, item.2) :: slots chains rows) := by
  induction rows with
  | nil => simp at member
  | cons other rest ih =>
    obtain ⟨outside, restDistinct⟩ := List.nodup_cons.mp distinct
    by_cases same : other = row
    · subst same
      have unchanged : slots (prependItem chains other item) rest = slots chains rest := by
        apply slots_congr
        intro later laterMember
        exact if_neg (ne_of_mem_of_not_mem laterMember outside)
      rw [slots_cons, slots_cons, unchanged]
      simp [rowSlots, prependItem]
    · have later : row ∈ rest := by simpa [Ne.symm same] using member
      have unchanged : rowSlots (prependItem chains row item) other = rowSlots chains other := by
        simp [rowSlots, prependItem, same]
      rw [slots_cons, slots_cons, unchanged]
      exact ((ih later restDistinct).append_left _).trans List.perm_middle

theorem mem_prepend {chains : Chains Data} {target row : Nat} {added item : Nat × Option Data}
    (member : item ∈ prependItem chains target added row) :
    item ∈ chains row ∨ (row = target ∧ item = added) := by
  unfold prependItem at member
  split at member
  · next here =>
      rcases List.mem_cons.mp member with new | old
      · exact Or.inr ⟨here, new⟩
      · exact Or.inl old
  · exact Or.inl member

theorem insert_holds (holds : Holds table chains) (address : Nat) (data : Data) (hash : Nat)
    (fresh : load table.memory address = none) :
    ∃ after, hashtableInsertData table address data hash = some after ∧
      after.numRows = table.numRows ∧
      Holds after (prependItem chains (hash % table.numRows) (address, some data)) := by
  have inside : hash % table.numRows < table.numRows := mod_lt _ holds.positive
  obtain ⟨first, read, chain⟩ := holds.linked _ inside
  have unlisted : ∀ row, row < table.numRows → address ∉ (chains row).map fst := by
    intro row rowInside member
    obtain ⟨_, _, rowChain⟩ := holds.linked row rowInside
    obtain ⟨entry, present⟩ := chain_allocated _ _ _ _ _ rowChain address member
    rw [fresh] at present
    cases present
  have frame : ∀ row, row < table.numRows → ∀ other ∈ (chains row).map fst,
      load (table.memory.insert address ⟨some data, first⟩) other = load table.memory other := by
    intro row rowInside other member
    rw [load_insert, if_neg (ne_of_mem_of_not_mem member (unlisted row rowInside))]
  refine ⟨⟨table.memory.insert address ⟨some data, first⟩, table.numRows, table.len + 1,
    table.rows.set (hash % table.numRows) (some address)⟩, ?_, rfl, ?_⟩
  · have rowInside : hash % table.numRows < table.rows.length := by rwa [holds.rowCount]
    simp only [hashtableInsertData, read, allocate_fresh _ _ _ fresh, write_inside _ _ _ rowInside,
      bind_eq_bind, bind_some]
  constructor
  · exact holds.positive
  · simp [holds.rowCount]
  · intro row rowInside
    obtain ⟨rowFirst, rowRead, rowChain⟩ := holds.linked row rowInside
    have moved := chain_frame _ _ (table.memory.insert address ⟨some data, first⟩) _ _ _ rowChain
      (fun other member => by rw [frame row rowInside other member])
    by_cases same : row = hash % table.numRows
    · subst same
      have sameFirst : rowFirst = first := some.inj (rowRead.symm.trans read)
      subst sameFirst
      refine ⟨some address, ?_, ?_⟩
      · simp [readAt, holds.rowCount, inside]
      · simp only [prependItem, if_true, List.map_cons]
        exact ⟨rfl, _, by rw [load_insert, if_pos rfl], moved⟩
    · refine ⟨rowFirst, ?_, ?_⟩
      · rwa [readAt, List.getElem?_set_ne (Ne.symm same)]
      · simpa only [prependItem, if_neg same] using moved
  · intro row rowInside item member
    rcases mem_prepend member with old | ⟨_, rfl⟩
    · rw [frame row rowInside item.1 (List.mem_map_of_mem old)]
      exact holds.contents row rowInside item old
    · simp [load_insert]
  · have widened : ∀ row other, other ∈ (prependItem chains (hash % table.numRows)
        (address, some data) row).map fst →
        other ∈ (chains row).map fst ∨ (other = address ∧ row = hash % table.numRows) := by
      intro row other member
      obtain ⟨item, found, rfl⟩ := List.mem_map.mp member
      rcases mem_prepend found with old | ⟨here, rfl⟩
      · exact Or.inl (List.mem_map_of_mem old)
      · exact Or.inr ⟨rfl, here⟩
    intro left right leftInside rightInside other inLeft inRight
    rcases widened left other inLeft with oldLeft | ⟨newLeft, atLeft⟩
    · rcases widened right other inRight with oldRight | ⟨newRight, _⟩
      · exact holds.apart left right leftInside rightInside other oldLeft oldRight
      · exact absurd (newRight ▸ oldLeft) (unlisted left leftInside)
    · rcases widened right other inRight with oldRight | ⟨_, atRight⟩
      · exact absurd (newLeft ▸ oldRight) (unlisted right rightInside)
      · rw [atLeft, atRight]
  · have permuted := (prepend_slots chains (hash % table.numRows) (address, some data)
      (List.range table.numRows) (List.mem_range.mpr inside) List.nodup_range).filterMap pair
    rw [pairs, permuted.length_eq, holds.counted]
    simp [pair, pairs]

theorem poison_elsewhere (others : List (Entry × Option Data))
    (spared : ∀ slot ∈ others, dead slot.1.real = false) :
    others.map (poisonSlot dead) = others := by
  conv_rhs => rw [← List.map_id others]
  apply List.map_congr_left
  intro slot member
  simp [poisonSlot, spared slot member]

theorem poison_split (holds : Holds table chains) (rows : List Nat)
    (inside : ∀ row ∈ rows, row < table.numRows) (distinct : rows.Nodup)
    (front back : List (Entry × Option Data)) (slot : Entry × Option Data)
    (split : slots chains rows = front ++ slot :: back) :
    slots (poison (fun address => address == slot.1.real) chains) rows =
      front ++ (slot.1, none) :: back := by
  have reals := slots_distinct table chains holds rows inside distinct
  rw [split, List.map_append, List.map_cons] at reals
  obtain ⟨_, restReals, apart⟩ := List.nodup_append.mp reals
  have outside := (List.nodup_cons.mp restReals).1
  rw [poison_slots, split, List.map_append, List.map_cons,
    poison_elsewhere _ front, poison_elsewhere _ back]
  · simp [poisonSlot]
  · intro other member
    have different : other.1.real ≠ slot.1.real := by
      intro same
      exact outside (same ▸ List.mem_map_of_mem (f := fun slot => slot.1.real) member)
    simpa using different
  · intro other member
    have different := apart other.1.real (List.mem_map_of_mem (f := fun slot => slot.1.real) member)
      slot.1.real List.mem_cons_self
    simpa using different

theorem remove_dead (holds : Holds table chains) (entry : Entry)
    (member : (entry, none) ∈ slots chains (List.range table.numRows)) :
    entryGetData table entry = some none ∧ hashtableRemoveEntry table entry = some (table, -1) := by
  obtain ⟨row, item⟩ := slot_listed _ _ _ member
  have content := holds.contents _ (List.mem_range.mp row) _ item
  obtain ⟨real, present, empty⟩ := map_eq_some_iff.mp content
  exact ⟨content, by simp [hashtableRemoveEntry, present, empty]⟩

theorem remove_live (holds : Holds table chains) (entry : Entry) (data : Data)
    (member : (entry, some data) ∈ slots chains (List.range table.numRows)) :
    entryGetData table entry = some (some data) ∧
      ∃ after, hashtableRemoveEntry table entry = some (after, 0) ∧ after.numRows = table.numRows ∧
        Holds after (poison (fun address => address == entry.real) chains) ∧
        (pairs chains (List.range table.numRows)).Perm ((data, entry.row) ::
          pairs (poison (fun address => address == entry.real) chains)
            (List.range table.numRows)) := by
  obtain ⟨row, item⟩ := slot_listed _ _ _ member
  have content := holds.contents _ (List.mem_range.mp row) _ item
  obtain ⟨real, present, live⟩ := map_eq_some_iff.mp content
  obtain ⟨front, back, split⟩ := List.append_of_mem member
  have poisoned := poison_split table chains holds _ (fun row member => List.mem_range.mp member)
    List.nodup_range front back _ split
  have permuted : (pairs chains (List.range table.numRows)).Perm ((data, entry.row) ::
      pairs (poison (fun address => address == entry.real) chains) (List.range table.numRows)) := by
    rw [pairs, pairs, split, poisoned, pairs_append, pairs_append]
    exact List.perm_middle
  refine ⟨content, ⟨table.memory.insert entry.real ⟨none, real.next⟩, table.numRows,
    table.len - 1, table.rows⟩, ?_, rfl, ?_, permuted⟩
  · simp [hashtableRemoveEntry, present, live, store_allocated _ _ _ _ present]
  constructor
  · exact holds.positive
  · exact holds.rowCount
  · intro row rowInside
    obtain ⟨first, read, chain⟩ := holds.linked row rowInside
    refine ⟨first, read, ?_⟩
    rw [poison_addresses]
    apply chain_frame _ _ _ _ _ _ chain
    intro address _
    rw [load_insert]
    split
    · next same => rw [same, present]; rfl
    · rfl
  · intro row rowInside item member
    obtain ⟨old, oldMember, rfl⟩ := List.mem_map.mp member
    have before := holds.contents row rowInside old oldMember
    simp only [load_insert]
    by_cases same : old.1 = entry.real
    · simp [same]
    · simpa [same] using before
  · intro left right leftInside rightInside address inLeft inRight
    rw [poison_addresses] at inLeft inRight
    exact holds.apart left right leftInside rightInside address inLeft inRight
  · rw [holds.counted, permuted.length_eq, List.length_cons, Nat.add_sub_cancel]

theorem unlink_dead (curr : Nat) (entry : InternEntry Data)
    (present : load memory curr = some entry)
    (linked : kept ≠ [] → Chain InternEntry.next memory head kept (some curr))
    (outside : curr ∉ kept) (distinct : kept.Nodup) :
    ∃ after, unlinkEntry memory kept.getLast? entry.next curr = some after ∧
      (kept ≠ [] → Chain InternEntry.next after head kept entry.next) ∧
      (∀ address, address ∉ kept → address ≠ curr → load after address = load memory address) ∧
      ∀ address ∈ kept,
        (load after address).map InternEntry.data = (load memory address).map InternEntry.data := by
  rcases List.eq_nil_or_concat kept with empty | ⟨front, last, split⟩
  · subst empty
    refine ⟨memory.erase curr, ?_, by simp, ?_, by simp⟩
    · simp [unlinkEntry, release_allocated memory curr entry present]
    · intro address _ different
      rw [load_erase, if_neg different]
  rw [List.concat_eq_append] at split
  subst split
  have chain := linked (by simp)
  obtain ⟨old, oldPresent⟩ := chain_allocated _ _ _ _ _ chain last (by simp)
  have notFront : last ∉ front :=
    fun member => (List.nodup_append.mp distinct).2.2 last member last (by simp) rfl
  have different : curr ≠ last := fun same => outside (by simp [same])
  have stillThere : load (memory.insert last { old with next := entry.next }) curr = some entry := by
    rw [load_insert, if_neg different, present]
  refine ⟨(memory.insert last { old with next := entry.next }).erase curr, ?_, ?_, ?_, ?_⟩
  · simp only [unlinkEntry, List.getLast?_append, List.getLast?_singleton, some_or,
      update_allocated _ _ _ _ oldPresent, bind_eq_bind, bind_some]
    exact release_allocated _ _ _ stillThere
  · intro _
    have redirected := chain_redirect_last InternEntry.next memory head (some curr) entry.next front
      last { old with next := entry.next } chain notFront rfl
    apply chain_frame _ _ _ _ _ _ redirected
    intro address member
    rw [load_erase, if_neg (ne_of_mem_of_not_mem member outside)]
  · intro address notKept apart
    have notLast : address ≠ last := fun same => notKept (by simp [same])
    rw [load_erase, if_neg apart, load_insert, if_neg notLast]
  · intro address member
    rw [load_erase, if_neg (ne_of_mem_of_not_mem member outside), load_insert]
    split
    · next same => rw [same, oldPresent]; rfl
    · rfl

theorem kept_extends (address : Nat) (entry : InternEntry Data)
    (present : load memory address = some entry) (first : head = kept.head?)
    (linked : kept ≠ [] → Chain InternEntry.next memory head kept (some address)) :
    Chain InternEntry.next memory (head.or (some address)) (kept ++ [address]) entry.next := by
  rw [chain_append]
  refine ⟨some address, ?_, rfl, entry, present, rfl⟩
  cases kept with
  | nil => simp [first, Chain]
  | cons start others =>
    rw [first]
    rw [first] at linked
    exact linked (by simp)

-- Induction on the entries still to be examined. `kept` are the live ones already
-- passed; the last of them links to the entry under the cursor.
theorem purge_row_exact (budget : Nat) (memory : Memory (InternEntry Data)) (curr head : Option Nat)
    (kept : List Nat) (rest : List (Nat × Option Data)) (first : head = kept.head?)
    (linked : kept ≠ [] → Chain InternEntry.next memory head kept curr)
    (chain : Chain InternEntry.next memory curr (rest.map fst) none)
    (distinct : (kept ++ rest.map fst).Nodup)
    (contents : ∀ item ∈ rest, (load memory item.1).map InternEntry.data = some item.2)
    (enough : rest.length ≤ budget) :
    ∃ after start, purgeRow budget memory curr head kept.getLast? = some (after, start) ∧
      Chain InternEntry.next after start
        (kept ++ (rest.filter fun item => item.2.isSome).map fst) none ∧
      (∀ address, address ∉ kept → address ∉ rest.map fst →
        load after address = load memory address) ∧
      (∀ address ∈ kept,
        (load after address).map InternEntry.data = (load memory address).map InternEntry.data) ∧
      ∀ item ∈ rest, item.2.isSome → (load after item.1).map InternEntry.data = some item.2 := by
  induction rest generalizing budget memory curr head kept with
  | nil =>
    have ends : curr = none := chain
    subst ends
    refine ⟨memory, head, by cases budget <;> rfl, ?_, fun _ _ _ => rfl, fun _ _ => rfl, by simp⟩
    rw [List.filter_nil, List.map_nil, List.append_nil]
    cases kept with
    | nil => exact first
    | cons address others => exact linked (by simp)
  | cons item rest ih =>
    obtain ⟨address, data⟩ := item
    obtain ⟨here, entry, present, tail⟩ := chain
    subst here
    have content := contents (address, data) List.mem_cons_self
    rw [present] at content
    have sameData : entry.data = data := by simpa using content
    obtain ⟨keptDistinct, restDistinct, apart⟩ := List.nodup_append.mp distinct
    obtain ⟨notRest, tailDistinct⟩ := List.nodup_cons.mp restDistinct
    have notKept : address ∉ kept :=
      fun member => apart address member address List.mem_cons_self rfl
    have keptNotRest : ∀ other ∈ rest.map fst, other ∉ kept :=
      fun other member again => apart other again other (List.mem_cons_of_mem _ member) rfl
    cases budget with
    | zero => simp at enough
    | succ budget =>
      have short : rest.length ≤ budget := by simpa using enough
      cases data with
      | none =>
        obtain ⟨changed, unlinked, keptLinked, frame, keptSame⟩ :=
          unlink_dead memory kept head address entry present linked notKept keptDistinct
        have restFrame : ∀ other ∈ rest.map fst, load changed other = load memory other :=
          fun other member => frame other (keptNotRest other member)
            (ne_of_mem_of_not_mem member notRest)
        obtain ⟨after, start, purged, final, outer, keptData, restData⟩ :=
          ih budget changed entry.next head kept first keptLinked
            (chain_frame _ _ _ _ _ _ tail (fun other member => by rw [restFrame other member]))
            (List.nodup_append.mpr ⟨keptDistinct, tailDistinct,
              fun left member right again => apart left member right
                (List.mem_cons_of_mem _ again)⟩)
            (fun other member => by
              rw [restFrame other.1 (List.mem_map_of_mem member)]
              exact contents other (List.mem_cons_of_mem _ member))
            short
        refine ⟨after, start, ?_, by simpa using final, ?_, ?_, ?_⟩
        · simp only [purgeRow, present, sameData, isNone_none, if_true, unlinked,
            bind_eq_bind, bind_some, purged]
        · intro other otherKept otherRest
          rw [List.map_cons, List.mem_cons, not_or] at otherRest
          rw [outer other otherKept otherRest.2, frame other otherKept otherRest.1]
        · intro other member
          rw [keptData other member, keptSame other member]
        · intro other member live
          rcases List.mem_cons.mp member with same | later
          · rw [same] at live
            cases live
          · exact restData other later live
      | some data =>
        have keptNext := kept_extends memory kept head address entry present first linked
        obtain ⟨after, start, purged, final, outer, keptData, restData⟩ :=
          ih budget memory entry.next (head.or (some address)) (kept ++ [address])
            (by rw [first]; cases kept <;> rfl) (fun _ => keptNext) tail (by simpa using distinct)
            (fun other member => contents other (List.mem_cons_of_mem _ member)) short
        refine ⟨after, start, ?_, by simpa using final, ?_, ?_, ?_⟩
        · rw [List.getLast?_append, List.getLast?_singleton, some_or] at purged
          simp only [purgeRow, present, sameData, isNone_some, Bool.false_eq_true,
            if_false, bind_eq_bind, bind_some, purged]
        · intro other otherKept otherRest
          rw [List.map_cons, List.mem_cons, not_or] at otherRest
          exact outer other (by simp [otherKept, otherRest.1]) otherRest.2
        · intro other member
          exact keptData other (by simp [member])
        · intro other member live
          rcases List.mem_cons.mp member with same | later
          · rw [same, keptData address (by simp), present, map_some, sameData]
          · exact restData other later live

def sweep (rows : List Nat) (chains : Chains Data) : Chains Data :=
  fun row => if row ∈ rows then (chains row).filter fun item => item.2.isSome else chains row

theorem sweep_pairs (swept rows : List Nat) (chains : Chains Data) :
    pairs (sweep swept chains) rows = pairs chains rows := by
  induction rows with
  | nil => rfl
  | cons row rest ih =>
    have here : (rowSlots (sweep swept chains) row).filterMap pair =
        (rowSlots chains row).filterMap pair := by
      unfold rowSlots sweep
      split
      · rw [List.filterMap_map, List.filterMap_map, List.filterMap_filter]
        apply List.filterMap_congr
        intro item _
        cases data : item.2 <;> simp [pair, data]
      · rfl
    simp only [pairs, slots_cons, pairs_append, here] at ih ⊢
    rw [ih]

theorem sweep_subset (chains : Chains Data) (row : Nat) :
    ∀ item ∈ sweep rows chains row, item ∈ chains row := by
  intro item member
  unfold sweep at member
  split at member
  · exact (List.mem_filter.mp member).1
  · exact member

theorem purge_row_holds (holds : Holds table chains) (row : Nat) (inside : row < table.numRows) :
    ∃ first memory head, readAt table.rows row = some first ∧
      purgeRow table.memory.keys.length table.memory first none none = some (memory, head) ∧
      Holds { table with memory := memory, rows := table.rows.set row head } (sweep [row] chains) := by
  obtain ⟨first, read, chain⟩ := holds.linked row inside
  have fits := chain_fits _ _ _ _ chain
  rw [List.length_map] at fits
  obtain ⟨memory, head, purged, final, outer, _, contents⟩ :=
    purge_row_exact table.memory.keys.length table.memory first none [] (chains row) rfl (by simp)
      chain (by simpa using chain_nodup _ _ _ _ chain) (holds.contents row inside) fits
  have frame : ∀ other, other < table.numRows → other ≠ row →
      ∀ address ∈ (chains other).map fst, load memory address = load table.memory address := by
    intro other otherInside different address member
    apply outer address (by simp)
    intro again
    exact different (holds.apart other row otherInside inside address member again)
  refine ⟨first, memory, head, read, purged, ?_⟩
  constructor
  · exact holds.positive
  · simp [holds.rowCount]
  · intro other otherInside
    by_cases same : other = row
    · subst same
      refine ⟨head, ?_, ?_⟩
      · simp [readAt, holds.rowCount, inside]
      · simpa [sweep] using final
    obtain ⟨otherFirst, otherRead, otherChain⟩ := holds.linked other otherInside
    refine ⟨otherFirst, by rwa [readAt, List.getElem?_set_ne (Ne.symm same)], ?_⟩
    have unswept : sweep [row] chains other = chains other := by simp [sweep, same]
    rw [unswept]
    apply chain_frame _ _ _ _ _ _ otherChain
    intro address member
    rw [frame other otherInside same address member]
  · intro other otherInside item member
    have old := sweep_subset _ _ _ item member
    by_cases same : other = row
    · subst same
      have live : item.2.isSome := by
        simp only [sweep, List.mem_singleton, if_true] at member
        exact (List.mem_filter.mp member).2
      exact contents item old live
    · rw [frame other otherInside same item.1 (List.mem_map_of_mem old)]
      exact holds.contents other otherInside item old
  · intro left right leftInside rightInside address inLeft inRight
    obtain ⟨leftItem, leftMember, rfl⟩ := List.mem_map.mp inLeft
    obtain ⟨rightItem, rightMember, sameAddress⟩ := List.mem_map.mp inRight
    apply holds.apart left right leftInside rightInside leftItem.1
    · exact List.mem_map_of_mem (sweep_subset _ _ _ _ leftMember)
    · rw [← sameAddress]
      exact List.mem_map_of_mem (sweep_subset _ _ _ _ rightMember)
  · rw [sweep_pairs]
    exact holds.counted

theorem purge_rows_holds (table : Hashtable Data) (chains : Chains Data)
    (holds : Holds table chains) (inside : ∀ row ∈ rows, row < table.numRows) :
    ∃ after swept, purgeRows rows table = some after ∧ after.numRows = table.numRows ∧
      Holds after swept ∧
      ∀ row, pairs swept (List.range row) = pairs chains (List.range row) := by
  induction rows generalizing table chains with
  | nil => exact ⟨table, chains, rfl, rfl, holds, fun _ => rfl⟩
  | cons row rest ih =>
    have here := inside row List.mem_cons_self
    obtain ⟨first, memory, head, read, purged, next⟩ := purge_row_holds table chains holds row here
    obtain ⟨after, swept, done, sameRows, final, kept⟩ := ih _ _ next
      (fun other member => inside other (List.mem_cons_of_mem row member))
    rw [← holds.rowCount] at here
    refine ⟨after, swept, ?_, sameRows, final, fun other => by rw [kept other, sweep_pairs]⟩
    simp only [purgeRows, read, purged, write_inside _ _ _ here, bind_eq_bind, bind_some, done]

theorem pairs_listed (data : Data) (row : Nat) :
    (data, row) ∈ pairs chains rows ↔
      row ∈ rows ∧ ∃ address, (address, some data) ∈ chains row := by
  rw [pairs, List.mem_filterMap]
  constructor
  · rintro ⟨⟨entry, content⟩, member, same⟩
    obtain ⟨found, live, equal⟩ := map_eq_some_iff.mp same
    obtain ⟨rfl, rfl⟩ := mk.inj equal
    have listed := slot_listed _ _ _ member
    exact ⟨listed.1, entry.real, by simpa only [← live] using listed.2⟩
  · rintro ⟨inside, address, member⟩
    refine ⟨(⟨row, address⟩, some data), ?_, rfl⟩
    exact List.mem_flatMap.mpr ⟨row, inside, List.mem_map.mpr ⟨_, member, rfl⟩⟩

theorem get_entry_by_data_exact [DecidableEq Data] (holds : Holds table chains) (data : Data)
    (hash : Nat) :
    hashtableGetEntryByData table data hash =
      some (((chains (hash % table.numRows)).find? fun item => decide (item.2 = some data)).map
        fun item => ⟨hash % table.numRows, item.1⟩) := by
  have inside : hash % table.numRows < table.numRows := mod_lt _ holds.positive
  obtain ⟨first, read, chain⟩ := holds.linked _ inside
  have found := seek_items table.memory first (chains (hash % table.numRows))
    (fun entry => decide (entry.data = some data)) (fun item => decide (item.2 = some data)) chain
    (by
      intro item member
      obtain ⟨entry, present, same⟩ := map_eq_some_iff.mp (holds.contents _ inside item member)
      simp [hits, present, same])
  simp only [hashtableGetEntryByData, read, found, bind_eq_bind, bind_some, Option.map_map]
  rfl

/-! Runs of calls, beside the multiset of pairs they should leave in the table. -/

inductive Call (Data : Type) where
  | insertData (address : Nat) (data : Data) (hash : Nat)
  | removeData (data : Data) (hash : Nat)
  | removeEntry (entry : Entry)
  | purge

def perform [DecidableEq Data] (table : Hashtable Data) :
    Call Data → Option (Hashtable Data × Int)
  | .insertData address data hash =>
    (hashtableInsertData table address data hash).map fun after => (after, 0)
  | .removeData data hash => hashtableRemoveData table data hash
  | .removeEntry entry => hashtableRemoveEntry table entry
  | .purge => (hashtablePurge table).map fun after => (after, 0)

/-- The allocator returns free memory, and a handle leads to an entry that is still
in its row, removed or not. -/
def Admissible (table : Hashtable Data) : Call Data → Prop
  | .insertData address _ _ => load table.memory address = none
  | .removeEntry entry => entry.row < table.numRows ∧
      ∃ first elems, readAt table.rows entry.row = some first ∧
        Chain InternEntry.next table.memory first elems none ∧ entry.real ∈ elems
  | _ => True

def settle [DecidableEq Data] (table : Hashtable Data) (ledger : Multiset (Data × Nat)) :
    Call Data → Multiset (Data × Nat)
  | .insertData _ data hash => (data, hash % table.numRows) ::ₘ ledger
  | .removeData data hash => ledger.erase (data, hash % table.numRows)
  | .removeEntry entry =>
    match entryGetData table entry with
    | some (some data) => ledger.erase (data, entry.row)
    | _ => ledger
  | .purge => ledger

def Represents (table : Hashtable Data) (ledger : Multiset (Data × Nat)) : Prop :=
  ∃ chains, Holds table chains ∧ Multiset.ofList (pairs chains (List.range table.numRows)) = ledger

theorem handle_listed (holds : Holds table chains) (entry : Entry)
    (admissible : Admissible table (.removeEntry entry)) :
    ∃ content, (entry, content) ∈ slots chains (List.range table.numRows) := by
  obtain ⟨inside, first, elems, read, chain, member⟩ := admissible
  obtain ⟨start, startRead, rowChain⟩ := holds.linked entry.row inside
  have same : start = first := some.inj (startRead.symm.trans read)
  subst same
  rw [chain_unique _ _ _ _ _ chain rowChain] at member
  obtain ⟨item, itemMember, real⟩ := List.mem_map.mp member
  refine ⟨item.2, List.mem_flatMap.mpr ⟨entry.row, List.mem_range.mpr inside, ?_⟩⟩
  exact List.mem_map.mpr ⟨item, itemMember, by rw [real]⟩

theorem listed_admissible (holds : Holds table chains) (slot : Entry × Option Data)
    (member : slot ∈ slots chains (List.range table.numRows)) :
    Admissible table (.removeEntry slot.1) := by
  obtain ⟨inside, item⟩ := slot_listed _ _ _ member
  have rowInside := List.mem_range.mp inside
  obtain ⟨first, read, chain⟩ := holds.linked _ rowInside
  exact ⟨rowInside, first, _, read, chain, List.mem_map_of_mem item⟩

theorem remove_represents [DecidableEq Data] (holds : Holds table chains) (entry : Entry)
    (data : Data) (member : (entry, some data) ∈ slots chains (List.range table.numRows)) :
    ∃ after, hashtableRemoveEntry table entry = some (after, 0) ∧
      after.numRows = table.numRows ∧ Represents after
        ((Multiset.ofList (pairs chains (List.range table.numRows))).erase (data, entry.row)) := by
  obtain ⟨_, after, done, sameRows, afterHolds, permuted⟩ :=
    remove_live table chains holds entry data member
  refine ⟨after, done, sameRows, _, afterHolds, ?_⟩
  rw [sameRows, Multiset.coe_eq_coe.mpr permuted, ← Multiset.cons_coe, Multiset.erase_cons_head]

theorem remove_listed [DecidableEq Data] {table : Hashtable Data}
    {ledger : Multiset (Data × Nat)} (represented : Represents table ledger) {data : Data}
    {hash : Nat} (listed : (data, hash % table.numRows) ∈ ledger) :
    ∃ after, hashtableRemoveData table data hash = some (after, 0) ∧
      after.numRows = table.numRows ∧ Represents after (ledger.erase (data, hash % table.numRows)) := by
  obtain ⟨chains, holds, rfl⟩ := represented
  have search := get_entry_by_data_exact table chains holds data hash
  obtain ⟨row, address, inside⟩ := (pairs_listed chains _ _ _).mp (Multiset.mem_coe.mp listed)
  cases hit : (chains (hash % table.numRows)).find? fun item => decide (item.2 = some data) with
  | none =>
    have missed := List.find?_eq_none.mp hit _ inside
    simp at missed
  | some item =>
    rw [hit] at search
    have live : item.2 = some data := by simpa using List.find?_some hit
    have member : ((⟨hash % table.numRows, item.1⟩ : Entry), some data) ∈
        slots chains (List.range table.numRows) := by
      refine List.mem_flatMap.mpr ⟨_, row, ?_⟩
      exact List.mem_map.mpr ⟨item, List.mem_of_find?_eq_some hit, by rw [live]⟩
    obtain ⟨after, done, sameRows, settled⟩ := remove_represents table chains holds _ data member
    exact ⟨after, by simp [hashtableRemoveData, search, done], sameRows, settled⟩

variable (ledger : Multiset (Data × Nat))

theorem perform_settles [DecidableEq Data] (represented : Represents table ledger)
    (call : Call Data) (admissible : Admissible table call) :
    ∃ after result, perform table call = some (after, result) ∧
      after.numRows = table.numRows ∧ Represents after (settle table ledger call) := by
  obtain ⟨chains, holds, rfl⟩ := represented
  cases call with
  | insertData address data hash =>
    obtain ⟨after, done, sameRows, afterHolds⟩ :=
      insert_holds table chains holds address data hash admissible
    refine ⟨after, 0, by simp [perform, done], sameRows, _, afterHolds, ?_⟩
    have permuted := (prepend_slots chains (hash % table.numRows) (address, some data)
      (List.range table.numRows) (List.mem_range.mpr (mod_lt _ holds.positive))
      List.nodup_range).filterMap pair
    rw [sameRows, settle, Multiset.cons_coe]
    exact Multiset.coe_eq_coe.mpr permuted
  | removeData data hash =>
    by_cases listed : (data, hash % table.numRows) ∈
        Multiset.ofList (pairs chains (List.range table.numRows))
    · obtain ⟨after, done, sameRows, settled⟩ := remove_listed ⟨chains, holds, rfl⟩ listed
      exact ⟨after, 0, done, sameRows, settled⟩
    have search := get_entry_by_data_exact table chains holds data hash
    have missed : (chains (hash % table.numRows)).find?
        (fun item => decide (item.2 = some data)) = none := by
      rw [List.find?_eq_none]
      intro item member live
      refine listed (Multiset.mem_coe.mpr ((pairs_listed _ _ _ _).mpr
        ⟨List.mem_range.mpr (mod_lt _ holds.positive), item.1, ?_⟩))
      rwa [← of_decide_eq_true live]
    rw [missed] at search
    refine ⟨table, -1, by simp [perform, hashtableRemoveData, search], rfl, chains, holds, ?_⟩
    rw [settle, Multiset.erase_of_notMem listed]
  | removeEntry entry =>
    obtain ⟨content, member⟩ := handle_listed table chains holds entry admissible
    cases content with
    | none =>
      obtain ⟨read, done⟩ := remove_dead table chains holds entry member
      exact ⟨table, -1, done, rfl, chains, holds, by simp [settle, read]⟩
    | some data =>
      have read := (remove_live table chains holds entry data member).1
      obtain ⟨after, done, sameRows, settled⟩ :=
        remove_represents table chains holds entry data member
      exact ⟨after, 0, done, sameRows, by simpa only [settle, read] using settled⟩
  | purge =>
    obtain ⟨after, swept, done, sameRows, afterHolds, kept⟩ :=
      purge_rows_holds (List.range table.numRows) table chains holds
        (fun row member => List.mem_range.mp member)
    exact ⟨after, 0, by simp [perform, hashtablePurge, done], sameRows, swept, afterHolds,
      by rw [sameRows, kept, settle]⟩

inductive Built [DecidableEq Data] : Hashtable Data → Multiset (Data × Nat) → Prop where
  | create (numRows : Nat) (table : Hashtable Data) :
      hashtableCreate numRows = some table → Built table 0
  | call (table after : Hashtable Data) (ledger : Multiset (Data × Nat)) (call : Call Data)
      (result : Int) : Built table ledger → Admissible table call →
      perform table call = some (after, result) → Built after (settle table ledger call)

theorem built_represents [DecidableEq Data] (built : Built table ledger) :
    Represents table ledger := by
  induction built with
  | create numRows table created =>
    by_cases empty : numRows < 1
    · simp [hashtableCreate, empty] at created
    obtain ⟨made, done, _, holds⟩ : ∃ table : Hashtable Data, hashtableCreate numRows = some table ∧
        table.numRows = numRows ∧ Holds table fun _ => [] := create_holds numRows (by omega)
    have same : made = table := some.inj (done.symm.trans created)
    subst same
    have none_paired : ∀ rows, pairs (fun _ => [] : Chains Data) rows = [] := by
      intro rows
      induction rows with
      | nil => rfl
      | cons row rest ih => simpa [pairs, rowSlots] using ih
    exact ⟨_, holds, by rw [none_paired]; rfl⟩
  | call table after ledger call result _ admissible done ih =>
    obtain ⟨made, _, performed, _, settled⟩ := perform_settles table ledger ih call admissible
    have same : made = after := by
      have equal := performed.symm.trans done
      exact congrArg fst (some.inj equal)
    rwa [same] at settled

/-! Traversals. -/

def doomedSlot (doomed : Entry → Data → Bool) (slot : Entry × Option Data) : Bool :=
  slot.2.any (doomed slot.1)

/-- What a step to the next entry has to satisfy to walk the given rows in order. -/
def Advances (advance : Hashtable Data → Entry → Option (Option Entry)) (count : Nat)
    (rows : List Nat) : Prop :=
  ∀ (table : Hashtable Data) (chains : Chains Data), Holds table chains → table.numRows = count →
    ∀ front back slot, slots chains rows = front ++ slot :: back →
      advance table slot.1 = some ((back.find? liveSlot).map fst)

theorem find_live_split (found : back.find? liveSlot = some slot) :
    ∃ skipped rest data, slot = (slot.1, some data) ∧ back = skipped ++ slot :: rest ∧
      back.filter liveSlot = slot :: rest.filter liveSlot := by
  obtain ⟨here, skipped, rest, split, missed⟩ := List.find?_eq_some_iff_append.mp found
  obtain ⟨data, live⟩ := isSome_iff_exists.mp here
  refine ⟨skipped, rest, data, by rw [← live], split, ?_⟩
  have noneLive : skipped.filter liveSlot = [] := by
    rw [List.filter_eq_nil_iff]
    intro other member
    simpa using missed other member
  rw [split, List.filter_append, noneLive, List.nil_append, List.filter_cons_of_pos here]

-- Induction on the rounds left. `front` has been passed, `back` is still ahead; the
-- removals behind the cursor only poison entries of `front`.
theorem traverse_exact [DecidableEq Data]
    (advance : Hashtable Data → Entry → Option (Option Entry)) (doomed : Entry → Data → Bool)
    (count : Nat) (rows : List Nat) (inside : ∀ row ∈ rows, row < count) (distinct : rows.Nodup)
    (advances : Advances advance count rows) (rounds : Nat) (table : Hashtable Data)
    (chains : Chains Data) (ledger : Multiset (Data × Nat)) (built : Built table ledger)
    (holds : Holds table chains) (sameCount : table.numRows = count)
    (front back : List (Entry × Option Data)) (split : slots chains rows = front ++ back)
    (enough : (back.filter liveSlot).length ≤ rounds) :
    ∃ last, traverse advance doomed rounds table ((back.find? liveSlot).map fst) =
        some (last, back.filter liveSlot) ∧
      Built last (ledger - Multiset.ofList
        (((back.filter liveSlot).filter (doomedSlot doomed)).filterMap pair)) := by
  induction rounds generalizing table chains ledger front back with
  | zero =>
    have noneLeft : back.filter liveSlot = [] := List.length_eq_zero_iff.mp (by omega)
    have notFound : back.find? liveSlot = none := by
      rw [List.find?_eq_none]
      exact List.filter_eq_nil_iff.mp noneLeft
    exact ⟨table, by rw [noneLeft, notFound]; rfl, by simpa [noneLeft] using built⟩
  | succ rounds ih =>
    cases found : back.find? liveSlot with
    | none =>
      have noneLeft : back.filter liveSlot = [] := by
        rw [List.filter_eq_nil_iff]
        exact List.find?_eq_none.mp found
      exact ⟨table, by rw [noneLeft]; rfl, by simpa [noneLeft] using built⟩
    | some slot =>
      obtain ⟨skipped, rest, data, shape, backSplit, shown⟩ := find_live_split back slot found
      obtain ⟨entry, content⟩ := slot
      obtain ⟨_, rfl⟩ := mk.inj shape
      have whole : slots chains rows = (front ++ skipped) ++ (entry, some data) :: rest := by
        rw [split, backSplit, List.append_assoc]
      have rowListed := slot_listed chains rows (entry, some data) (by simp [whole])
      have member : (entry, some data) ∈ slots chains (List.range table.numRows) := by
        refine List.mem_flatMap.mpr ⟨entry.row, ?_, ?_⟩
        · exact List.mem_range.mpr (sameCount ▸ inside _ rowListed.1)
        · exact List.mem_map.mpr ⟨_, rowListed.2, rfl⟩
      obtain ⟨read, after, removed, sameRows, afterHolds, _⟩ :=
        remove_live table chains holds entry data member
      rw [shown, List.length_cons] at enough
      have short : (rest.filter liveSlot).length ≤ rounds := by omega
      by_cases remove : doomed entry data = true
      · have poisoned := poison_split table chains holds rows
          (fun row rowMember => sameCount ▸ inside row rowMember) distinct _ _ _ whole
        have next := advances after _ afterHolds (sameRows.trans sameCount) _ _ _ poisoned
        have admissible := listed_admissible table chains holds _ member
        have afterBuilt : Built after (ledger.erase (data, entry.row)) := by
          have step := Built.call table after ledger (.removeEntry entry) 0 built admissible removed
          simpa only [settle, read] using step
        obtain ⟨last, loop, lastBuilt⟩ := ih after _ _ afterBuilt afterHolds
          (sameRows.trans sameCount) (front ++ skipped ++ [(entry, none)]) rest
          (by rw [poisoned]; simp) short
        refine ⟨last, ?_, ?_⟩
        · simp only [traverse, map_some, read, any_some, remove, if_true, removed,
            next, loop, shown, bind_eq_bind, bind_some]
        have counted : doomedSlot doomed (entry, some data) = true := remove
        have here : pair (entry, some data) = some (data, entry.row) := rfl
        rw [shown, List.filter_cons_of_pos counted, List.filterMap_cons_some here,
          ← Multiset.cons_coe, Multiset.sub_cons]
        exact lastBuilt
      · have next := advances table chains holds sameCount _ _ _ whole
        obtain ⟨last, loop, lastBuilt⟩ := ih table chains ledger built holds sameCount
          (front ++ skipped ++ [(entry, some data)]) rest (by rw [whole]; simp) short
        refine ⟨last, ?_, ?_⟩
        · simp only [traverse, map_some, read, any_some, remove, Bool.false_eq_true,
            if_false, next, loop, shown, bind_eq_bind, bind_some]
        · have spared : ¬doomedSlot doomed (entry, some data) = true := remove
          rw [shown, List.filter_cons_of_neg spared]
          exact lastBuilt

/-- One traversal: it ends, sees every live entry of its rows once, each with the pair
it stands for, and takes exactly the doomed ones out of the table. -/
def Visits [DecidableEq Data] (table : Hashtable Data) (ledger seenPairs : Multiset (Data × Nat))
    (start : Option (Option Entry)) (advance : Hashtable Data → Entry → Option (Option Entry))
    (doomed : Entry → Data → Bool) (rounds : Nat) : Prop :=
  ∃ first last seen, start = some first ∧
    traverse advance doomed rounds table first = some (last, seen) ∧
    (seen.map fun slot => slot.1.real).Nodup ∧ (∀ slot ∈ seen, liveSlot slot = true) ∧
    Multiset.ofList (seen.filterMap pair) = seenPairs ∧
    Built last (ledger - Multiset.ofList ((seen.filter (doomedSlot doomed)).filterMap pair))

theorem live_pairs (all : List (Entry × Option Data)) :
    (all.filter liveSlot).filterMap pair = all.filterMap pair := by
  induction all with
  | nil => rfl
  | cons slot rest ih =>
    obtain ⟨entry, content⟩ := slot
    cases content with
    | none => simpa [liveSlot, pair, List.filterMap_cons] using ih
    | some data =>
      have here : pair (entry, some data) = some (data, entry.row) := rfl
      rw [List.filter_cons_of_pos rfl, List.filterMap_cons_some here,
        List.filterMap_cons_some here, ih]

theorem traversal_visits [DecidableEq Data] (built : Built table ledger)
    (holds : Holds table chains) (advance : Hashtable Data → Entry → Option (Option Entry))
    (doomed : Entry → Data → Bool) (rows : List Nat) (inside : ∀ row ∈ rows, row < table.numRows)
    (distinct : rows.Nodup) (advances : Advances advance table.numRows rows)
    (start : Option (Option Entry))
    (starts : start = some (((slots chains rows).find? liveSlot).map fst)) (rounds : Nat)
    (enough : (pairs chains rows).length ≤ rounds) :
    Visits table ledger (Multiset.ofList (pairs chains rows)) start advance doomed rounds := by
  have short : ((slots chains rows).filter liveSlot).length ≤ rounds := by
    have paired : ∀ slot ∈ (slots chains rows).filter liveSlot, (pair slot).isSome := by
      intro slot member
      simpa [pair, liveSlot] using (List.mem_filter.mp member).2
    rw [pairs, ← live_pairs, List.length_filterMap_eq_countP, List.countP_eq_length.mpr paired] at enough
    exact enough
  obtain ⟨last, loop, lastBuilt⟩ := traverse_exact advance doomed table.numRows rows inside distinct
    advances rounds table chains ledger built holds rfl [] (slots chains rows) rfl short
  refine ⟨_, last, _, starts, loop, ?_, ?_, ?_, lastBuilt⟩
  · have reals := slots_distinct table chains holds rows inside distinct
    exact reals.sublist (List.filter_sublist.map _)
  · intro slot member
    exact (List.mem_filter.mp member).2
  · rw [live_pairs, pairs]

theorem pairs_of_row (rows : List Nat) (member : row ∈ rows) (distinct : rows.Nodup) :
    (pairs chains rows).filter (fun found => decide (found.2 = row)) = pairs chains [row] := by
  have inRow : ∀ other, ∀ found ∈ pairs chains [other], found.2 = other := by
    intro other found listed
    have shown := ((pairs_listed chains [other] found.1 found.2).mp listed).1
    simpa using shown
  induction rows with
  | nil => simp at member
  | cons other rest ih =>
    obtain ⟨outside, restDistinct⟩ := List.nodup_cons.mp distinct
    have parts : pairs chains (other :: rest) = pairs chains [other] ++ pairs chains rest := by
      simp [pairs, slots]
    rw [parts, List.filter_append]
    by_cases same : other = row
    · subst same
      have kept : (pairs chains [other]).filter (fun found => decide (found.2 = other)) =
          pairs chains [other] := by
        rw [List.filter_eq_self]
        intro found listed
        simpa using inRow other found listed
      have dropped : (pairs chains rest).filter (fun found => decide (found.2 = other)) = [] := by
        rw [List.filter_eq_nil_iff]
        intro found listed equal
        have shown := ((pairs_listed chains rest found.1 found.2).mp listed).1
        rw [of_decide_eq_true equal] at shown
        exact outside shown
      rw [kept, dropped, List.append_nil]
    · have dropped : (pairs chains [other]).filter (fun found => decide (found.2 = row)) = [] := by
        rw [List.filter_eq_nil_iff]
        intro found listed equal
        exact same ((inRow other found listed).symm.trans (of_decide_eq_true equal))
      have later : row ∈ rest := by simpa [Ne.symm same] using member
      rw [dropped, List.nil_append, ih later restDistinct]

/-- Every table built by the calls represents the pairs inserted and not removed:
its length counts them, the next call cannot fault and keeps the account, and both
kinds of traversal see exactly the live entries once, removals included. -/
theorem table_represents_ledger [DecidableEq Data] (table : Hashtable Data)
    (ledger : Multiset (Data × Nat)) (built : Built table ledger) :
    hashtableGetLength table = ledger.card ∧
      (∀ call, Admissible table call → ∃ after result,
        perform table call = some (after, result) ∧ Built after (settle table ledger call)) ∧
      ∀ doomed rounds, ledger.card ≤ rounds →
        Visits table ledger ledger (hashtableGetFirst table) entryGetNext doomed rounds ∧
        ∀ hash, Visits table ledger (ledger.filter fun found => found.2 = hash % table.numRows)
          (hashtableGetFirstMatching table hash) entryGetNextMatching doomed rounds := by
  have represented := built_represents table ledger built
  obtain ⟨chains, holds, paired⟩ := represented
  have counted : (pairs chains (List.range table.numRows)).length = ledger.card := by
    rw [← paired, Multiset.coe_card]
  refine ⟨holds.counted.trans counted, ?_, ?_⟩
  · intro call admissible
    obtain ⟨after, result, done, _⟩ :=
      perform_settles table ledger ⟨chains, holds, paired⟩ call admissible
    exact ⟨after, result, done, Built.call table after ledger call result built admissible done⟩
  intro doomed rounds enough
  constructor
  · rw [← paired]
    rw [← paired] at built
    apply traversal_visits table chains _ built holds entryGetNext doomed (List.range table.numRows)
      (fun row member => List.mem_range.mp member) List.nodup_range
    · intro other others otherHolds sameCount front back slot split
      exact get_next_exact other others otherHolds front back slot (sameCount ▸ split)
    · exact first_in_rows table chains holds _ (fun row member => List.mem_range.mp member)
    · omega
  intro hash
  have inside : hash % table.numRows < table.numRows := mod_lt _ holds.positive
  have seen := pairs_of_row chains (hash % table.numRows) (List.range table.numRows)
    (List.mem_range.mpr inside) List.nodup_range
  have matching : ledger.filter (fun found => found.2 = hash % table.numRows) =
      Multiset.ofList (pairs chains [hash % table.numRows]) := by
    rw [← paired, Multiset.filter_coe, seen]
  rw [matching]
  apply traversal_visits table chains _ built holds entryGetNextMatching doomed
    [hash % table.numRows] (by simpa using inside) (by simp)
  · intro other others otherHolds sameCount front back slot split
    exact get_next_matching_exact other others otherHolds _ (sameCount ▸ inside) front back slot split
  · exact get_first_matching_exact table chains holds hash
  · have fewer := congrArg List.length seen
    have bound := List.length_filter_le (fun found : Data × Nat =>
      decide (found.2 = hash % table.numRows)) (pairs chains (List.range table.numRows))
    omega

theorem table_represents_ledger_sample :
    ∃ table : Hashtable Nat, hashtableGetLength table = 1 ∧
      Visits table {(8, 0)} {(8, 0)} (hashtableGetFirst table) entryGetNext (fun _ _ => true) 1 := by
  have empty : Built ⟨∅, 2, 0, [none, none]⟩ (0 : Multiset (Nat × Nat)) := Built.create 2 _ rfl
  have first := Built.call _ _ _ (.insertData 5 7 3) 0 empty rfl rfl
  have second := Built.call _ _ _ (.insertData 6 8 4) 0 first rfl rfl
  have third := Built.call _ _ _ (.removeData 7 3) 0 second trivial rfl
  have represents := table_represents_ledger _ _ third
  exact ⟨_, represents.1, (represents.2.2 (fun _ _ => true) 1 (by decide)).1⟩

end Pvpgn.HashTable
