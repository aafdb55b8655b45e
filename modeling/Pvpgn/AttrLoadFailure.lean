import Pvpgn.AttrGroup

/-!
`attrgroup_load` when the storage reports an error: the group was marked as loaded before it was
read, and the error return leaves it so, with whatever the callback had set until then.
-/

namespace Pvpgn.AttrLoadFailure
open Stdio LinkedMemory EmbeddedList FilePlain AttrGroup Option Function

variable {σ : Type}

structure ReadFails (server : Server σ) (world : World σ) (id : Nat) : Prop where
  unloaded : (world.groups id).loaded = false
  unmarked : (world.groups id).dirty = false
  error : (server.storage.readAttrs (world.groups id).storage).2 ≠ 0

def Outside (list : Elist (Option Nat)) (id : Nat) : Prop := ∃ ids, Ring list ids ∧ id ∉ ids

/-- The group is as if it had never been loaded: no save writes it, and the next access loads it
again. -/
structure Undone (server : Server σ) (world : World σ) (id : Nat) : Prop where
  unloaded : (world.groups id).loaded = false
  unmarked : (world.groups id).dirty = false
  empty : Holds (world.groups id).list []
  notLoadedList : Outside world.loadedlist id
  notDirtyList : Outside world.dirtylist id
  kept : ∀ now force, attrgroupSave server now world id force = some (0, world)
  retried : ∀ now, attrgroupLoad server now world id ≠ some (0, world)

/-! No call of the callback clears the mark. -/

section Marks
variable {server : Server σ} {now : Int} {id : Nat} {before after : World σ}

theorem set_accessed_loaded (loaded : (before.groups id).loaded = true) :
    ((attrgroupSetAccessed now before id).groups id).loaded = true := by
  rw [setAccessed_groups, update_self]
  exact loaded

theorem set_dirty_loaded (loaded : (before.groups id).loaded = true) :
    ((attrgroupSetDirty now before id).groups id).loaded = true := by
  rw [setDirty_groups, update_self]
  exact loaded

theorem set_list_loaded (list : Hlist Attr) (loaded : (before.groups id).loaded = true) :
    ((before.set id { before.groups id with list := list }).groups id).loaded = true := by
  rw [set_groups_same]
  exact loaded

variable {key : Text} {val : Option Text}

theorem lookup_loaded {found : Option Nat} (loaded : (before.groups id).loaded = true)
    (looked : lookupAttr server before id key = some (found, after)) :
    (after.groups id).loaded = true := by
  simp only [lookupAttr, bind_eq_bind, bind_eq_some_iff] at looked
  obtain ⟨⟨hit, list⟩, _, looked⟩ := looked
  cases hit with
  | some address =>
    cases looked
    exact set_list_loaded list loaded
  | none =>
    cases reads : server.storage.readAttr (before.groups id).storage key with
    | none =>
      simp only [reads] at looked
      cases looked
      exact set_list_loaded list loaded
    | some attr =>
      simp only [reads, bind_eq_some_iff] at looked
      obtain ⟨⟨address, added⟩, _, looked⟩ := looked
      cases looked
      exact set_list_loaded added loaded

theorem change_loaded {address : Nat} (loaded : (before.groups id).loaded = true)
    (changes : changeVal now before id address val = some after) :
    (after.groups id).loaded = true := by
  simp only [changeVal, bind_eq_bind, bind_eq_some_iff] at changes
  obtain ⟨attr, _, changes⟩ := changes
  by_cases same : attr.val = val
  · rw [if_pos same] at changes
    cases changes
    exact loaded
  · rw [if_neg same, bind_eq_some_iff] at changes
    obtain ⟨list, _, changes⟩ := changes
    cases changes
    exact set_dirty_loaded (set_list_loaded list loaded)

theorem create_loaded (loaded : (before.groups id).loaded = true)
    (creates : createVal server now before id key val = some after) :
    (after.groups id).loaded = true := by
  simp only [createVal, bind_eq_bind, bind_eq_some_iff] at creates
  obtain ⟨⟨address, list⟩, _, creates⟩ := creates
  cases creates
  exact set_dirty_loaded (set_list_loaded list loaded)

theorem set_attr_stays_loaded (depth : Nat) (loaded : (before.groups id).loaded = true)
    (sets : setAttrWith (loadWithin server now depth) server now before id key val = some after) :
    (after.groups id).loaded = true := by
  simp only [setAttrWith, bind_eq_bind, bind_eq_some_iff] at sets
  obtain ⟨⟨found, newkey, middle⟩, finds, sets⟩ := sets
  simp only [findAttrWith, load_loaded server now depth before id loaded, bind_eq_bind,
    bind_some, ne_eq, not_true_eq_false, if_false, bind_eq_some_iff] at finds
  obtain ⟨⟨hit, looked⟩, looks, finds⟩ := finds
  cases finds
  have middleLoaded := lookup_loaded (set_accessed_loaded loaded) looks
  cases hit with
  | some address => exact change_loaded middleLoaded sets
  | none => exact create_loaded middleLoaded sets

theorem replay_stays_loaded (depth : Nat) (pairs : List (Text × Text))
    (loaded : (before.groups id).loaded = true) (replays : replay (fun world key val =>
      setAttrWith (loadWithin server now depth) server now world id key val) pairs before =
        some after) : (after.groups id).loaded = true := by
  induction pairs generalizing before with
  | nil =>
    cases replays
    exact loaded
  | cons pair rest ih =>
    simp only [replay, bind_eq_bind, bind_eq_some_iff] at replays
    obtain ⟨middle, sets, later⟩ := replays
    exact ih (set_attr_stays_loaded depth loaded sets) later

theorem failed_load_eq (fails : ReadFails server before id) :
    attrgroupLoad server now before id =
      (replay (fun world key val => setAttrWith (loadWithin server now 0) server now world id key
        val) (server.storage.readAttrs (before.groups id).storage).1
        (attrgroupSetLoaded before id)).map fun after => (-1, after) := by
  unfold attrgroupLoad loadWithin
  rw [if_neg (by simp [fails.unloaded]), if_neg (by simp [fails.unmarked])]
  have error := fails.error
  cases reads : server.storage.readAttrs (before.groups id).storage with
  | mk pairs status =>
    rw [reads] at error
    simp only [if_pos error, ne_eq, bind_eq_bind]
    cases replay _ pairs (attrgroupSetLoaded before id) with
    | none => rfl
    | some world => rfl

end Marks

/-! The group stays loaded. -/

/-- The group stays loaded with the attributes that were delivered; every later access takes it as
it stands. -/
theorem failed_load_stays (server : Server σ) (now : Int) (world after : World σ) (id : Nat)
    (code : Int) (fails : ReadFails server world id)
    (returned : attrgroupLoad server now world id = some (code, after)) :
    ¬ Undone server after id ∧ code = -1 ∧ (after.groups id).loaded = true ∧
      ∀ later, attrgroupLoad server later after id = some (0, after) := by
  rw [failed_load_eq fails] at returned
  obtain ⟨final, replays, resultIs⟩ := map_eq_some_iff.mp returned
  cases resultIs
  have started : ((attrgroupSetLoaded world id).groups id).loaded = true := by
    rw [setLoaded_groups, update_self]
  have loaded := replay_stays_loaded 0 _ started replays
  refine ⟨fun undone => ?_, rfl, loaded, fun later => load_loaded server later 1 after id loaded⟩
  exact absurd (undone.unloaded.symm.trans loaded) (by simp)

theorem memory_unused : ∀ memory, load memory (memoryServer.malloc memory) = none :=
  memoryServer.malloc_unused

def brokenServer : Server (List (Text × Text)) where
  storage := { memoryServer.storage with
    readAttrs := fun info => if info.length = 2 then (info.take 1, -1) else (info, 0) }
  defattrs := memoryServer.defattrs
  userSyncTimer := memoryServer.userSyncTimer
  userFlushTimer := memoryServer.userFlushTimer
  malloc := memoryServer.malloc
  malloc_unused := memory_unused

def brokenWorld : World (List (Text × Text)) where
  groups := fun _ =>
    ⟨⟨none, ∅⟩, [(rankKey, text "7"), (text "Record\\wins", text "3")], false, false, false, 0, 0⟩
  loadedlist := elistInit _
  dirtylist := elistInit _

theorem broken_fails : ReadFails brokenServer brokenWorld 1 := ⟨rfl, rfl, by decide⟩

theorem broken_load_stays : ∃ after, attrgroupLoad brokenServer 10 brokenWorld 1 =
      some (-1, after) ∧ ¬ Undone brokenServer after 1 ∧
    ∀ later, attrgroupLoad brokenServer later after 1 = some (0, after) := by
  have codes : (attrgroupLoad brokenServer 10 brokenWorld 1).map Prod.fst = some (-1) := by
    decide +kernel
  obtain ⟨⟨code, after⟩, loads, rfl⟩ := map_eq_some_iff.mp codes
  obtain ⟨left, _, _, taken⟩ :=
    failed_load_stays brokenServer 10 brokenWorld after 1 (-1) broken_fails loads
  exact ⟨after, loads, left, taken⟩

/-- After the error a save leaves one of two attributes in the storage. -/
theorem broken_load_saved : ReadFails brokenServer brokenWorld 1 ∧
    ∃ after, attrgroupLoad brokenServer 10 brokenWorld 1 = some (-1, after) ∧
      ¬ Undone brokenServer after 1 ∧
      ∃ saved, attrgroupSave brokenServer 20 after 1 true = some (1, saved) ∧
        (saved.groups 1).storage = [(rankKey, text "7")] := by
  have codes : ((attrgroupLoad brokenServer 10 brokenWorld 1).map fun result => (result.1,
      (attrgroupSave brokenServer 20 result.2 1 true).map Prod.fst)) = some (-1, some 1) := by
    decide +kernel
  have stored : ((attrgroupLoad brokenServer 10 brokenWorld 1).bind fun result =>
      (attrgroupSave brokenServer 20 result.2 1 true).map fun saved =>
        (saved.2.groups 1).storage) = some [(rankKey, text "7")] := by decide +kernel
  obtain ⟨⟨code, after⟩, loads, codes⟩ := map_eq_some_iff.mp codes
  simp only [Prod.mk.injEq] at codes
  obtain ⟨rfl, codes⟩ := codes
  obtain ⟨⟨status, saved⟩, saves, rfl⟩ := map_eq_some_iff.mp codes
  rw [loads, bind_some, saves, map_some, Option.some.injEq] at stored
  refine ⟨broken_fails, after, loads, fun undone => ?_, saved, saves, stored⟩
  rw [undone.kept 20 true] at saves
  cases saves

end Pvpgn.AttrLoadFailure
