import Pvpgn.AttrGroup

/-!
The two loops over all groups (`attrlayer.cpp`), which go a few groups at a time and keep their
place in static pointers between the calls.
-/

namespace Pvpgn.AttrLayer
open Stdio LinkedMemory EmbeddedList FilePlain AttrGroup List Option Function Prod

variable {σ : Type}

/-- The static pointers of one loop; `next` is NULL before the first call. -/
structure Cursor where
  curr : Option Nat
  next : Option (Option Nat)

/-- `now` is the time of the latest call. -/
structure State (σ : Type) where
  world : World σ
  flushCursor : Cursor
  saveCursor : Cursor
  now : Int

/-- The loop of `attrlayer_flush` and of `attrlayer_save`: over which list, and what is done with
each group. `all` is `FS_ALL`; the loop is followed for as many rounds as are given. -/
def walkWithin (link : World σ → Elist (Option Nat))
    (serve : World σ → Nat → Option (Int × World σ)) (all : Bool) (userStep : Nat) :
    Nat → World σ → Cursor → Nat → Option (World σ × Cursor × Nat)
  | 0, _, _, _ => none
  | rounds + 1, world, cursor, tcount =>
    match cursor.curr with
    | none => some (world, cursor, tcount)
    | some id =>
      if !all && userStep ≤ tcount then some (world, cursor, tcount)
      else do
        let (code, world) ← serve world id
        if code = 0 then some (world, cursor, tcount)
        else do
          let next ← cursor.next
          walkWithin link serve all userStep rounds world
            ⟨next, some ((link world).next next)⟩ (tcount + 1)

/-- A loop begins at the first group when it came to the end, or when all are asked for. -/
def begin_ (list : Elist (Option Nat)) (cursor : Cursor) (all : Bool) : Cursor :=
  if cursor.curr = none ∨ all = true then
    ⟨list.next none, some (list.next (list.next none))⟩
  else cursor

/-- The state afterwards and how many groups were processed; `FS_FORCE` is not set. -/
def attrlayerFlush (server : Server σ) (userStep rounds : Nat) (now : Int) (state : State σ)
    (all : Bool) : Option (State σ × Nat) := do
  let (world, cursor, tcount) ← walkWithin World.loadedlist
    (fun world id => attrgroupFlush server now world id false) all userStep rounds state.world
    (begin_ state.world.loadedlist state.flushCursor all) 0
  some ({ state with world := world, flushCursor := cursor, now := now }, tcount)

def attrlayerSave (server : Server σ) (userStep rounds : Nat) (now : Int) (state : State σ)
    (all : Bool) : Option (State σ × Nat) := do
  let (world, cursor, tcount) ← walkWithin World.dirtylist
    (fun world id => attrgroupSave server now world id false) all userStep rounds state.world
    (begin_ state.world.dirtylist state.saveCursor all) 0
  some ({ state with world := world, saveCursor := cursor, now := now }, tcount)

/-! The flags and the two lists. -/

/-- The lists link the loaded and the dirty groups, each in the order of its times. Where one group
is named, it may be out of place among the loaded ones. -/
structure Layer (now : Int) (moving : Option Nat) (world : World σ)
    (loadedIds dirtyIds : List Nat) : Prop where
  loadedRing : Ring world.loadedlist loadedIds
  dirtyRing : Ring world.dirtylist dirtyIds
  loadedFlag : ∀ id, id ∈ loadedIds ↔ (world.groups id).loaded = true
  dirtyFlag : ∀ id, id ∈ dirtyIds ↔ (world.groups id).dirty = true
  dirtyLoaded : ∀ id ∈ dirtyIds, id ∈ loadedIds
  dirtyOrder : dirtyIds.Pairwise fun first second =>
    (world.groups first).dirtytime ≤ (world.groups second).dirtytime
  dirtyPast : ∀ id ∈ dirtyIds, (world.groups id).dirtytime ≤ now
  accessOrder : loadedIds.Pairwise fun first second =>
    some first ≠ moving → some second ≠ moving →
      (world.groups first).lastaccess ≤ (world.groups second).lastaccess
  accessed : ∀ id ∈ loadedIds, some id ≠ moving →
    (world.groups id).accessed = true ∧ (world.groups id).lastaccess ≤ now

variable {after before : World σ} {group : Attrgroup σ}

variable {id : Nat}

theorem changed_field {Value : Type} (field : Attrgroup σ → Value)
    (groupsIs : after.groups = update before.groups id group)
    (kept : field group = field (before.groups id)) (other : Nat) :
    field (after.groups other) = field (before.groups other) := by
  rw [groupsIs]
  by_cases here : other = id
  · rw [here, update_self, kept]
  · rw [update_of_ne here]

theorem changed_other (groupsIs : after.groups = update before.groups id group) {other : Nat}
    (differs : other ≠ id) : after.groups other = before.groups other := by
  rw [groupsIs, update_of_ne differs]

theorem changed_self (groupsIs : after.groups = update before.groups id group) :
    after.groups id = group := by
  rw [groupsIs, update_self]

section Layers
variable {now : Int} {moving : Option Nat} {world : World σ} {loadedIds dirtyIds : List Nat}

section
variable (layer : Layer now moving world loadedIds dirtyIds)
include layer

theorem Layer.congr (changed : World σ) (loadedSame : changed.loadedlist = world.loadedlist)
    (dirtySame : changed.dirtylist = world.dirtylist)
    (loaded : ∀ id, (changed.groups id).loaded = (world.groups id).loaded)
    (accessed : ∀ id, (changed.groups id).accessed = (world.groups id).accessed)
    (dirty : ∀ id, (changed.groups id).dirty = (world.groups id).dirty)
    (lastaccess : ∀ id, (changed.groups id).lastaccess = (world.groups id).lastaccess)
    (dirtytime : ∀ id, (changed.groups id).dirtytime = (world.groups id).dirtytime) :
    Layer now moving changed loadedIds dirtyIds where
  loadedRing := by rw [loadedSame]; exact layer.loadedRing
  dirtyRing := by rw [dirtySame]; exact layer.dirtyRing
  loadedFlag := fun id => by rw [loaded]; exact layer.loadedFlag id
  dirtyFlag := fun id => by rw [dirty]; exact layer.dirtyFlag id
  dirtyLoaded := layer.dirtyLoaded
  dirtyOrder := by simp only [dirtytime]; exact layer.dirtyOrder
  dirtyPast := by simp only [dirtytime]; exact layer.dirtyPast
  accessOrder := by simp only [lastaccess]; exact layer.accessOrder
  accessed := by simp only [accessed, lastaccess]; exact layer.accessed

theorem Layer.set_data (id : Nat) (list : Hlist Attr) (storage : σ) :
    Layer now moving (world.set id { world.groups id with list := list, storage := storage })
      loadedIds dirtyIds := by
  have groupsIs : (world.set id { world.groups id with list := list, storage := storage }).groups =
      update world.groups id
        { world.groups id with list := list, storage := storage } := rfl
  exact layer.congr _ rfl rfl (changed_field Attrgroup.loaded groupsIs rfl)
    (changed_field Attrgroup.accessed groupsIs rfl) (changed_field Attrgroup.dirty groupsIs rfl)
    (changed_field Attrgroup.lastaccess groupsIs rfl)
    (changed_field Attrgroup.dirtytime groupsIs rfl)

theorem Layer.later {time : Int} (passed : now ≤ time) :
    Layer time moving world loadedIds dirtyIds :=
  { layer with
    dirtyPast := fun id member => (layer.dirtyPast id member).trans passed
    accessed := fun id member apart =>
      ⟨(layer.accessed id member apart).1, (layer.accessed id member apart).2.trans passed⟩ }

end

theorem Layer.allow (layer : Layer now none world loadedIds dirtyIds) (id : Nat) :
    Layer now (some id) world loadedIds dirtyIds :=
  { layer with
    accessOrder := layer.accessOrder.imp fun order _ _ => order (by simp) (by simp)
    accessed := fun other member _ => layer.accessed other member (by simp) }

theorem Layer.set_loaded (layer : Layer now (some id) world loadedIds dirtyIds) :
    ∃ ids, Layer now (some id) (attrgroupSetLoaded world id) ids dirtyIds ∧ loadedIds ⊆ ids ∧
      id ∈ ids := by
  by_cases already : (world.groups id).loaded = true
  · have same : attrgroupSetLoaded world id = world := if_pos already
    rw [same]
    exact ⟨loadedIds, layer, Subset.refl _, (layer.loadedFlag id).mpr already⟩
  have outside : id ∉ loadedIds := fun member => already ((layer.loadedFlag id).mp member)
  have groupsIs := setLoaded_groups world id
  have listIs : (attrgroupSetLoaded world id).loadedlist =
      elistAddTail world.loadedlist none (some id) := by simp [attrgroupSetLoaded, already]
  have dirtyIs : (attrgroupSetLoaded world id).dirtylist = world.dirtylist := by
    simp [attrgroupSetLoaded, already, World.set]
  refine ⟨loadedIds ++ [id], ⟨?_, ?_, ?_, ?_, ?_, ?_, ?_, ?_, ?_⟩, subset_append_left _ _,
    by simp⟩
  · rw [listIs]
    exact layer.loadedRing.add_tail outside
  · rw [dirtyIs]
    exact layer.dirtyRing
  · intro other
    rw [mem_append, mem_singleton, layer.loadedFlag]
    by_cases here : other = id
    · simp [here, changed_self groupsIs]
    · simp [here, changed_other groupsIs here]
  · intro other
    rw [changed_field Attrgroup.dirty groupsIs rfl]
    exact layer.dirtyFlag other
  · exact fun other member => mem_append_left _ (layer.dirtyLoaded other member)
  · simp only [changed_field Attrgroup.dirtytime groupsIs rfl]
    exact layer.dirtyOrder
  · simp only [changed_field Attrgroup.dirtytime groupsIs rfl]
    exact layer.dirtyPast
  · simp only [changed_field Attrgroup.lastaccess groupsIs rfl]
    refine pairwise_append.mpr ⟨layer.accessOrder, pairwise_singleton _ _, ?_⟩
    intro first _ second single _ apart
    exact absurd (congrArg some (mem_singleton.mp single)) apart
  · simp only [changed_field Attrgroup.accessed groupsIs rfl,
      changed_field Attrgroup.lastaccess groupsIs rfl]
    intro other member apart
    rcases mem_append.mp member with old | single
    · exact layer.accessed other old apart
    · exact absurd (congrArg some (mem_singleton.mp single)) apart

theorem Layer.set_accessed (layer : Layer now (some id) world loadedIds dirtyIds)
    (loaded : id ∈ loadedIds) :
    Layer now none (attrgroupSetAccessed now world id) (loadedIds.erase id ++ [id]) dirtyIds := by
  have nodup := layer.loadedRing.nodup
  have outside : id ∉ loadedIds.erase id := nodup.not_mem_erase
  have apart {other : Nat} (member : other ∈ loadedIds.erase id) : other ≠ id := fun same =>
    outside (same ▸ member)
  have groupsIs := setAccessed_groups now world id
  refine ⟨(layer.loadedRing.erase loaded).add_tail outside, layer.dirtyRing, ?_, ?_, ?_, ?_, ?_, ?_,
    ?_⟩
  · intro other
    rw [changed_field Attrgroup.loaded groupsIs rfl, ← layer.loadedFlag, mem_append,
      mem_singleton, nodup.mem_erase_iff]
    by_cases here : other = id
    · simp [here, loaded]
    · simp [here]
  · intro other
    rw [changed_field Attrgroup.dirty groupsIs rfl]
    exact layer.dirtyFlag other
  · intro other member
    by_cases here : other = id
    · simp [here]
    · exact mem_append_left _ (nodup.mem_erase_iff.mpr ⟨here, layer.dirtyLoaded other member⟩)
  · simp only [changed_field Attrgroup.dirtytime groupsIs rfl]
    exact layer.dirtyOrder
  · simp only [changed_field Attrgroup.dirtytime groupsIs rfl]
    exact layer.dirtyPast
  · refine pairwise_append.mpr ⟨?_, pairwise_singleton _ _, ?_⟩
    · refine (layer.accessOrder.sublist erase_sublist).imp_of_mem ?_
      intro first second firstIn secondIn order _ _
      rw [changed_other groupsIs (apart firstIn), changed_other groupsIs (apart secondIn)]
      exact order (by simp [apart firstIn]) (by simp [apart secondIn])
    · intro first firstIn second single _ _
      rw [mem_singleton.mp single, changed_self groupsIs, changed_other groupsIs (apart firstIn)]
      exact (layer.accessed first (mem_of_mem_erase firstIn) (by simp [apart firstIn])).2
  · intro other member _
    rcases mem_append.mp member with old | single
    · rw [changed_other groupsIs (apart old)]
      exact layer.accessed other (mem_of_mem_erase old) (by simp [apart old])
    · rw [mem_singleton.mp single, changed_self groupsIs]
      exact ⟨rfl, le_refl now⟩

theorem Layer.set_dirty (layer : Layer now moving world loadedIds dirtyIds)
    (loaded : id ∈ loadedIds) :
    ∃ ids, Layer now moving (attrgroupSetDirty now world id) loadedIds ids ∧ dirtyIds ⊆ ids := by
  by_cases already : (world.groups id).dirty = true
  · have same : attrgroupSetDirty now world id = world := if_pos already
    rw [same]
    exact ⟨dirtyIds, layer, Subset.refl _⟩
  have outside : id ∉ dirtyIds := fun member => already ((layer.dirtyFlag id).mp member)
  have apart {other : Nat} (member : other ∈ dirtyIds) : other ≠ id := fun same =>
    outside (same ▸ member)
  have groupsIs := setDirty_groups now world id
  rw [if_neg already] at groupsIs
  have listIs : (attrgroupSetDirty now world id).loadedlist = world.loadedlist := by
    simp [attrgroupSetDirty, already, World.set]
  have dirtyIs : (attrgroupSetDirty now world id).dirtylist =
      elistAddTail world.dirtylist none (some id) := by simp [attrgroupSetDirty, already]
  refine ⟨dirtyIds ++ [id], ⟨?_, ?_, ?_, ?_, ?_, ?_, ?_, ?_, ?_⟩, subset_append_left _ _⟩
  · rw [listIs]
    exact layer.loadedRing
  · rw [dirtyIs]
    exact layer.dirtyRing.add_tail outside
  · intro other
    rw [changed_field Attrgroup.loaded groupsIs rfl]
    exact layer.loadedFlag other
  · intro other
    rw [mem_append, mem_singleton, layer.dirtyFlag]
    by_cases here : other = id
    · simp [here, changed_self groupsIs]
    · simp [here, changed_other groupsIs here]
  · intro other member
    rcases mem_append.mp member with old | single
    · exact layer.dirtyLoaded other old
    · exact mem_singleton.mp single ▸ loaded
  · refine pairwise_append.mpr ⟨?_, pairwise_singleton _ _, ?_⟩
    · refine layer.dirtyOrder.imp_of_mem fun firstIn secondIn order => ?_
      rw [changed_other groupsIs (apart firstIn), changed_other groupsIs (apart secondIn)]
      exact order
    · intro first firstIn second single
      rw [mem_singleton.mp single, changed_self groupsIs, changed_other groupsIs (apart firstIn)]
      exact layer.dirtyPast first firstIn
  · intro other member
    rcases mem_append.mp member with old | single
    · rw [changed_other groupsIs (apart old)]
      exact layer.dirtyPast other old
    · rw [mem_singleton.mp single, changed_self groupsIs]
  · simp only [changed_field Attrgroup.lastaccess groupsIs rfl]
    exact layer.accessOrder
  · simp only [changed_field Attrgroup.accessed groupsIs rfl,
      changed_field Attrgroup.lastaccess groupsIs rfl]
    exact layer.accessed

theorem Layer.clear_dirty (layer : Layer now moving world loadedIds dirtyIds) (id : Nat) :
    Layer now moving (attrgroupClearDirty world id) loadedIds (dirtyIds.erase id) := by
  by_cases marked : (world.groups id).dirty = true
  · have member := (layer.dirtyFlag id).mpr marked
    have nodup := layer.dirtyRing.nodup
    have groupsIs := clearDirty_groups world id
    have listIs : (attrgroupClearDirty world id).loadedlist = world.loadedlist := by
      simp [attrgroupClearDirty, marked, World.set]
    have dirtyIs : (attrgroupClearDirty world id).dirtylist =
        elistDel world.dirtylist (some id) := by simp [attrgroupClearDirty, marked]
    refine ⟨?_, ?_, ?_, ?_, ?_, ?_, ?_, ?_, ?_⟩
    · rw [listIs]
      exact layer.loadedRing
    · rw [dirtyIs]
      exact layer.dirtyRing.erase member
    · intro other
      rw [changed_field Attrgroup.loaded groupsIs rfl]
      exact layer.loadedFlag other
    · intro other
      rw [nodup.mem_erase_iff, layer.dirtyFlag]
      by_cases here : other = id
      · simp [here, changed_self groupsIs]
      · simp [here, changed_other groupsIs here]
    · exact fun other inside => layer.dirtyLoaded other (mem_of_mem_erase inside)
    · simp only [changed_field Attrgroup.dirtytime groupsIs rfl]
      exact layer.dirtyOrder.sublist erase_sublist
    · simp only [changed_field Attrgroup.dirtytime groupsIs rfl]
      exact fun other inside => layer.dirtyPast other (mem_of_mem_erase inside)
    · simp only [changed_field Attrgroup.lastaccess groupsIs rfl]
      exact layer.accessOrder
    · simp only [changed_field Attrgroup.accessed groupsIs rfl,
        changed_field Attrgroup.lastaccess groupsIs rfl]
      exact layer.accessed
  · have same : attrgroupClearDirty world id = world := if_neg marked
    rw [same, erase_of_not_mem fun member => marked ((layer.dirtyFlag id).mp member)]
    exact layer

theorem Layer.clear_loaded (layer : Layer now moving world loadedIds dirtyIds)
    (loaded : id ∈ loadedIds) :
    Layer now moving (attrgroupClearLoaded world id) (loadedIds.erase id) (dirtyIds.erase id) := by
  have marked := (layer.loadedFlag id).mp loaded
  have cleaned := layer.clear_dirty id
  have nodup := layer.loadedRing.nodup
  have dirtyNodup := layer.dirtyRing.nodup
  have apart {other : Nat} (member : other ∈ loadedIds.erase id) : other ≠ id := fun same =>
    nodup.not_mem_erase (same ▸ member)
  have groupsIs := clearLoaded_groups world id marked
  have listIs : (attrgroupClearLoaded world id).loadedlist =
      elistDel (attrgroupClearDirty world id).loadedlist (some id) := by
    simp [attrgroupClearLoaded, marked, attrgroupClearAccessed, World.set]
  have dirtyIs : (attrgroupClearLoaded world id).dirtylist =
      (attrgroupClearDirty world id).dirtylist := by
    simp [attrgroupClearLoaded, marked, attrgroupClearAccessed, World.set]
  refine ⟨?_, ?_, ?_, ?_, ?_, ?_, ?_, ?_, ?_⟩
  · rw [listIs]
    exact cleaned.loadedRing.erase loaded
  · rw [dirtyIs]
    exact cleaned.dirtyRing
  · intro other
    rw [nodup.mem_erase_iff, layer.loadedFlag]
    by_cases here : other = id
    · simp [here, changed_self groupsIs]
    · simp [here, changed_other groupsIs here]
  · intro other
    rw [dirtyNodup.mem_erase_iff, layer.dirtyFlag]
    by_cases here : other = id
    · simp [here, changed_self groupsIs]
    · simp [here, changed_other groupsIs here]
  · intro other member
    obtain ⟨differs, inside⟩ := dirtyNodup.mem_erase_iff.mp member
    exact nodup.mem_erase_iff.mpr ⟨differs, layer.dirtyLoaded other inside⟩
  · simp only [changed_field Attrgroup.dirtytime groupsIs rfl]
    exact cleaned.dirtyOrder.imp_of_mem fun _ _ order => by
      simpa only [changed_field Attrgroup.dirtytime (clearDirty_groups world id) rfl] using order
  · simp only [changed_field Attrgroup.dirtytime groupsIs rfl]
    exact fun other member => layer.dirtyPast other (mem_of_mem_erase member)
  · simp only [changed_field Attrgroup.lastaccess groupsIs rfl]
    exact layer.accessOrder.sublist erase_sublist
  · intro other member differs
    rw [changed_other groupsIs (apart member)]
    exact layer.accessed other (mem_of_mem_erase member) differs

end Layers

/-! What the calls for one group leave of the lists. -/

/-- One group was served: no other group changed, and nothing was taken out of the lists. -/
structure Served (now : Int) (moving : Option Nat) (id : Nat) (before after : World σ)
    (loadedIds dirtyIds : List Nat) : Prop where
  frame : ∀ other, other ≠ id → after.groups other = before.groups other
  lists : ∃ loaded dirty, Layer now moving after loaded dirty ∧ loadedIds ⊆ loaded ∧
    dirtyIds ⊆ dirty ∧ id ∈ loaded

theorem Served.trans {now : Int} {first second : Option Nat}
    {before middle after : World σ}
    {loadedIds dirtyIds : List Nat} (left : Served now first id before middle loadedIds dirtyIds)
    (right : ∀ loaded dirty, Layer now first middle loaded dirty → id ∈ loaded →
      Served now second id middle after loaded dirty) :
    Served now second id before after loadedIds dirtyIds := by
  obtain ⟨loaded, dirty, layer, loadedGrows, dirtyGrows, member⟩ := left.lists
  have next := right loaded dirty layer member
  obtain ⟨later, laterDirty, laterLayer, laterGrows, laterDirtyGrows, laterMember⟩ := next.lists
  exact ⟨fun other differs => (next.frame other differs).trans (left.frame other differs), later,
    laterDirty, laterLayer, Subset.trans loadedGrows laterGrows,
    Subset.trans dirtyGrows laterDirtyGrows, laterMember⟩

section Calls
variable {now : Int} {world : World σ} {loadedIds dirtyIds : List Nat} {id : Nat}

section
variable {moving : Option Nat} (layer : Layer now moving world loadedIds dirtyIds)
  (loaded : id ∈ loadedIds)
include layer loaded

theorem served_data (list : Hlist Attr) :
    Served now moving id world (world.set id { world.groups id with list := list }) loadedIds
      dirtyIds :=
  ⟨fun _ differs => set_groups_other _ _ _ _ differs, loadedIds, dirtyIds,
    layer.set_data id list (world.groups id).storage, Subset.refl _,
      Subset.refl _, loaded⟩

theorem served_dirty :
    Served now moving id world (attrgroupSetDirty now world id) loadedIds dirtyIds := by
  obtain ⟨ids, marked, grows⟩ := layer.set_dirty loaded
  exact ⟨fun _ differs => changed_other (setDirty_groups now world id) differs, loadedIds,
    ids, marked,
    Subset.refl _, grows, loaded⟩

end

theorem served_accessed (layer : Layer now (some id) world loadedIds dirtyIds)
    (loaded : id ∈ loadedIds) :
    Served now none id world (attrgroupSetAccessed now world id) loadedIds dirtyIds := by
  refine ⟨fun _ differs => changed_other (setAccessed_groups now world id) differs, _, dirtyIds,
    layer.set_accessed loaded, fun other member => ?_, Subset.refl _, by simp⟩
  by_cases here : other = id
  · simp [here]
  · exact mem_append_left _ ((mem_erase_of_ne here).mpr member)

variable (server : Server σ)

theorem lookup_attr_served (layer : Layer now none world loadedIds dirtyIds)
    (loaded : id ∈ loadedIds) (key : Text) (found : Option Nat) (after : World σ)
    (looks : lookupAttr server world id key = some (found, after)) :
    Served now none id world after loadedIds dirtyIds := by
  unfold lookupAttr at looks
  simp only [bind_eq_bind, bind_eq_some_iff] at looks
  obtain ⟨⟨address, list⟩, _, rest⟩ := looks
  cases address with
  | some address =>
    cases rest
    exact served_data layer loaded list
  | none =>
    cases reads : server.storage.readAttr (world.groups id).storage key with
    | none =>
      simp only [reads] at rest
      cases rest
      exact served_data layer loaded list
    | some attr =>
      simp only [reads, bind_eq_some_iff] at rest
      obtain ⟨⟨created, added⟩, _, resultIs⟩ := rest
      cases resultIs
      exact served_data layer loaded added

variable (loadGroup : World σ → Nat → Option (Int × World σ))

theorem find_attr_served (server : Server σ) (key : Text) (escape : Bool) (found : Option Nat)
    (newkey : Text) (after : World σ)
    (loads : ∀ code middle, loadGroup world id = some (code, middle) →
      code = 0 ∧ Served now (some id) id world middle loadedIds dirtyIds)
    (finds : findAttrWith loadGroup server now world id key escape = some (found, newkey, after)) :
    Served now none id world after loadedIds dirtyIds := by
  unfold findAttrWith at finds
  simp only [bind_eq_bind, bind_eq_some_iff] at finds
  obtain ⟨⟨code, middle⟩, loading, rest⟩ := finds
  obtain ⟨rfl, served⟩ := loads code middle loading
  simp only [ne_eq, not_true_eq_false, if_false, bind_eq_some_iff] at rest
  obtain ⟨⟨attr, last⟩, looks, resultIs⟩ := rest
  cases resultIs
  refine served.trans fun loaded dirty layer member => ?_
  refine (served_accessed layer member).trans fun loaded dirty layer member => ?_
  exact lookup_attr_served server layer member _ _ _ looks

theorem set_attr_served (server : Server σ) (key : Text) (val : Option Text) (after : World σ)
    (loads : ∀ code middle, loadGroup world id = some (code, middle) →
      code = 0 ∧ Served now (some id) id world middle loadedIds dirtyIds)
    (sets : setAttrWith loadGroup server now world id key val = some after) :
    Served now none id world after loadedIds dirtyIds := by
  unfold setAttrWith at sets
  simp only [bind_eq_bind, bind_eq_some_iff] at sets
  obtain ⟨⟨found, newkey, middle⟩, finds, rest⟩ := sets
  refine (find_attr_served loadGroup server key true found newkey middle loads finds).trans
    fun loaded dirty layer member => ?_
  have marks (list : Hlist Attr) : Served now none id middle (attrgroupSetDirty now
      (middle.set id { middle.groups id with list := list }) id) loaded dirty :=
    (served_data layer member list).trans fun _ _ layer member => served_dirty layer member
  cases found with
  | some address =>
    unfold changeVal at rest
    simp only [bind_eq_bind, bind_eq_some_iff] at rest
    obtain ⟨attr, _, rest⟩ := rest
    split at rest
    · cases rest
      exact ⟨fun _ _ => rfl, loaded, dirty, layer, Subset.refl _, Subset.refl _, member⟩
    · obtain ⟨list, _, resultIs⟩ := bind_eq_some_iff.mp rest
      cases resultIs
      exact marks list
  | none =>
    unfold createVal at rest
    simp only [bind_eq_bind, bind_eq_some_iff] at rest
    obtain ⟨⟨address, list⟩, _, resultIs⟩ := rest
    cases resultIs
    exact marks list

theorem replay_served (setAttr : World σ → Text → Option Text → Option (World σ))
    (sets : ∀ before after key val loaded dirty, Layer now (some id) before loaded dirty →
      id ∈ loaded → setAttr before key val = some after →
      Served now (some id) id before after loaded dirty)
    (pairs : List (Text × Text)) (before after : World σ) (loaded dirty : List Nat)
    (layer : Layer now (some id) before loaded dirty) (member : id ∈ loaded)
    (replays : replay setAttr pairs before = some after) :
    Served now (some id) id before after loaded dirty := by
  induction pairs generalizing before loaded dirty with
  | nil =>
    cases replays
    exact ⟨fun _ _ => rfl, loaded, dirty, layer, Subset.refl _, Subset.refl _, member⟩
  | cons pair rest ih =>
    simp only [replay, bind_eq_bind, bind_eq_some_iff] at replays
    obtain ⟨middle, setsIt, later⟩ := replays
    exact (sets before middle pair.1 (some pair.2) loaded dirty layer member setsIt).trans
      fun loaded dirty layer member => ih middle loaded dirty layer member later

theorem Served.allow {before after : World σ}
    (served : Served now none id before after loadedIds dirtyIds) :
    Served now (some id) id before after loadedIds dirtyIds := by
  obtain ⟨loaded, dirty, layer, rest⟩ := served.lists
  exact ⟨served.frame, loaded, dirty, layer.allow id, rest⟩

/-- A group that is not loaded can be read from the storage. -/
def Readable (server : Server σ) (world : World σ) (id : Nat) : Prop :=
  (world.groups id).loaded = false → (server.storage.readAttrs (world.groups id).storage).2 = 0

section
variable (layer : Layer now none world loadedIds dirtyIds) (readable : Readable server world id)
include layer readable

theorem load_served (code : Int) (after : World σ)
    (loads : attrgroupLoad server now world id = some (code, after)) :
    code = 0 ∧ Served now (some id) id world after loadedIds dirtyIds := by
  by_cases loaded : (world.groups id).loaded = true
  · rw [attrgroupLoad, load_loaded server now 1 world id loaded] at loads
    cases loads
    exact ⟨rfl, fun _ _ => rfl, loadedIds, dirtyIds, layer.allow id, List.Subset.refl _,
      List.Subset.refl _, (layer.loadedFlag id).mpr loaded⟩
  have outside : id ∉ dirtyIds := fun member =>
    loaded ((layer.loadedFlag id).mp (layer.dirtyLoaded id member))
  have unmarked : ¬ (world.groups id).dirty = true := fun marked =>
    outside ((layer.dirtyFlag id).mpr marked)
  unfold attrgroupLoad loadWithin at loads
  rw [if_neg loaded, if_neg unmarked] at loads
  have fine := readable (Bool.eq_false_iff.mpr loaded)
  cases reads : server.storage.readAttrs (world.groups id).storage with
  | mk pairs status =>
    rw [reads] at fine loads
    dsimp only at fine
    subst fine
    simp only [not_true_eq_false, bind_eq_bind, bind_eq_some_iff] at loads
    obtain ⟨middle, replays, resultIs⟩ := loads
    cases resultIs
    obtain ⟨ids, starting, grows, member⟩ := (layer.allow id).set_loaded
    have served := replay_served _ (fun before after key val loaded dirty layer member sets =>
      (set_attr_served (loadWithin server now 0) server key val after
        (fun code middle loads => by
        rw [load_loaded server now 0 before id ((layer.loadedFlag id).mp member)] at loads
        cases loads
        exact ⟨rfl, fun _ _ => rfl, loaded, dirty, layer, List.Subset.refl _,
          List.Subset.refl _, member⟩) sets).allow)
      pairs _ middle ids dirtyIds starting member replays
    obtain ⟨loadedLater, dirtyLater, laterLayer, laterGrows, dirtyGrows, laterMember⟩ :=
      served.lists
    refine ⟨rfl, fun other differs => ?_, loadedLater, dirtyLater.erase id,
      laterLayer.clear_dirty id, List.Subset.trans grows laterGrows, fun other inside => ?_,
      laterMember⟩
    · rw [changed_other (clearDirty_groups middle id) differs, served.frame other differs,
        changed_other (setLoaded_groups world id) differs]
    · have differs : other ≠ id := fun same => outside (same ▸ inside)
      exact (mem_erase_of_ne differs).mpr (dirtyGrows inside)

theorem own_val_served (key newkey : Text) (escape : Bool) (val : Option Text) (after : World σ)
    (gets : ownVal server now world id key escape = some (val, newkey, after)) :
    Served now none id world after loadedIds dirtyIds := by
  unfold ownVal at gets
  simp only [bind_eq_bind, bind_eq_some_iff] at gets
  obtain ⟨⟨found, looked, middle⟩, finds, rest⟩ := gets
  have served := find_attr_served (attrgroupLoad server now) server key escape found looked middle
    (fun code middle loads => load_served server layer readable code middle loads) finds
  cases found with
  | none =>
    cases rest
    exact served
  | some address =>
    obtain ⟨attr, _, resultIs⟩ := bind_eq_some_iff.mp rest
    cases resultIs
    exact served

theorem get_attr_layer (readableDefault : Readable server world server.defattrs) (key : Text)
    (val : Option Text) (after : World σ)
    (gets : attrgroupGetAttr server now world id key = some (val, after)) :
    ∃ loaded dirty, Layer now none after loaded dirty ∧ loadedIds ⊆ loaded ∧ dirtyIds ⊆ dirty := by
  unfold attrgroupGetAttr at gets
  simp only [bind_eq_bind, bind_eq_some_iff] at gets
  obtain ⟨⟨own, newkey, middle⟩, owns, rest⟩ := gets
  have served := own_val_served server layer readable key newkey true own middle owns
  obtain ⟨loaded, dirty, middleLayer, loadedGrows, dirtyGrows, _⟩ := served.lists
  split at rest
  · rename_i fallback
    obtain ⟨⟨default, lastKey, last⟩, defaults, resultIs⟩ := bind_eq_some_iff.mp rest
    cases resultIs
    have stillReadable : Readable server middle server.defattrs := by
      unfold Readable
      rw [served.frame server.defattrs (Ne.symm fallback.2)]
      exact readableDefault
    obtain ⟨loadedLater, dirtyLater, laterLayer, laterGrows, laterDirtyGrows, _⟩ :=
      (own_val_served server middleLayer stillReadable newkey lastKey false default last
        defaults).lists
    exact ⟨loadedLater, dirtyLater, laterLayer, Subset.trans loadedGrows laterGrows,
      Subset.trans dirtyGrows laterDirtyGrows⟩
  · cases rest
    exact ⟨loaded, dirty, middleLayer, loadedGrows, dirtyGrows⟩

end

end Calls

/-! What leaves the lists. -/

def saveDue (server : Server σ) (now : Int) (world : World σ) (id : Nat) : Prop :=
  (world.groups id).dirty = true ∧ ¬ now - (world.groups id).dirtytime < server.userSyncTimer

def flushDue (server : Server σ) (now : Int) (world : World σ) (id : Nat) : Prop :=
  (world.groups id).loaded = true ∧ ¬ now - (world.groups id).lastaccess < server.userFlushTimer

section Leaving
variable {now : Int} {world : World σ} {loadedIds dirtyIds : List Nat} {id : Nat}

theorem save_layer (server : Server σ) (layer : Layer now none world loadedIds dirtyIds)
    (force : Bool) (code : Int) (after : World σ)
    (saves : attrgroupSave server now world id force = some (code, after)) :
    (code = 0 ∧ after = world ∧
      ¬ ((world.groups id).dirty = true ∧ (force = true ∨ saveDue server now world id))) ∨
    (code = 1 ∧ (world.groups id).dirty = true ∧ (force = true ∨ saveDue server now world id) ∧
      Layer now none after loadedIds (dirtyIds.erase id) ∧
      ∀ other, other ≠ id → after.groups other = world.groups other) := by
  unfold attrgroupSave at saves
  dsimp only at saves
  by_cases dirty : (world.groups id).dirty = true
  · have loaded := (layer.loadedFlag id).mp (layer.dirtyLoaded id ((layer.dirtyFlag id).mpr dirty))
    rw [if_neg (by simp [loaded]), if_neg (by simp [dirty])] at saves
    split at saves
    · rename_i early
      simp only [Bool.and_eq_true, Bool.not_eq_true', decide_eq_true_eq] at early
      cases saves
      refine .inl ⟨rfl, rfl, fun acts => ?_⟩
      rcases acts.2 with forced | due
      · exact absurd (forced.symm.trans early.1) (by simp)
      · exact due.2 early.2
    rename_i ready
    simp only [Bool.and_eq_true, decide_eq_true_eq, not_and] at ready
    simp only [bind_eq_bind, bind_eq_some_iff] at saves
    obtain ⟨⟨attrs, list⟩, _, resultIs⟩ := saves
    cases resultIs
    refine .inr ⟨rfl, dirty, ?_, (layer.set_data id list _).clear_dirty id,
      fun other differs => ?_⟩
    · cases force with
      | true => exact .inl rfl
      | false => exact .inr ⟨dirty, ready rfl⟩
    · rw [changed_other (clearDirty_groups _ id) differs, set_groups_other _ _ _ _ differs]
  · have same : (0, world) = (code, after) := by
      split at saves
      · exact some.inj saves
      · rw [if_pos (by simp [dirty])] at saves
        exact some.inj saves
    cases same
    exact .inl ⟨rfl, rfl, fun acts => dirty acts.1⟩

theorem flush_layer (server : Server σ) (layer : Layer now none world loadedIds dirtyIds)
    (force : Bool) (code : Int) (after : World σ)
    (flushes : attrgroupFlush server now world id force = some (code, after)) :
    (code = 0 ∧ after = world ∧
      ¬ ((world.groups id).loaded = true ∧ (force = true ∨ flushDue server now world id))) ∨
    (code = 1 ∧ (world.groups id).loaded = true ∧ (force = true ∨ flushDue server now world id) ∧
      Layer now none after (loadedIds.erase id) (dirtyIds.erase id) ∧
      ∀ other, other ≠ id → after.groups other = world.groups other) := by
  unfold attrgroupFlush at flushes
  dsimp only at flushes
  by_cases loaded : (world.groups id).loaded = true
  · have member := (layer.loadedFlag id).mpr loaded
    obtain ⟨accessed, _⟩ := layer.accessed id member (by simp)
    rw [if_neg (by simp [loaded])] at flushes
    split at flushes
    · rename_i early
      simp only [Bool.and_eq_true, Bool.not_eq_true', decide_eq_true_eq] at early
      cases flushes
      refine .inl ⟨rfl, rfl, fun acts => ?_⟩
      rcases acts.2 with forced | due
      · exact absurd (forced.symm.trans early.1.1) (by simp)
      · exact due.2 early.2
    rename_i ready
    simp only [Bool.and_eq_true, decide_eq_true_eq, not_and, accessed] at ready
    simp only [bind_eq_bind, bind_eq_some_iff] at flushes
    obtain ⟨⟨saveCode, saved⟩, saves, list, _, resultIs⟩ := flushes
    cases resultIs
    have savedLayer : Layer now none saved loadedIds (dirtyIds.erase id) ∧
        ∀ other, other ≠ id → saved.groups other = world.groups other := by
      rcases save_layer server layer true saveCode saved saves with
        ⟨_, rfl, clean⟩ | ⟨_, _, _, savedLayer, frame⟩
      · have outside : id ∉ dirtyIds := fun inside =>
          clean ⟨(layer.dirtyFlag id).mp inside, .inl rfl⟩
        rw [erase_of_not_mem outside]
        exact ⟨layer, fun _ _ => rfl⟩
      · exact ⟨savedLayer, frame⟩
    obtain ⟨savedLayer, frame⟩ := savedLayer
    have emptied := savedLayer.set_data id (hlistInit list) (saved.groups id).storage
    have cleared := emptied.clear_loaded member
    rw [erase_of_not_mem layer.dirtyRing.nodup.not_mem_erase] at cleared
    refine .inr ⟨rfl, loaded, ?_, cleared, fun other differs => ?_⟩
    · cases force with
      | true => exact .inl rfl
      | false => exact .inr ⟨loaded, ready ⟨rfl, trivial⟩⟩
    · rw [changed_other (clearLoaded_groups _ id ((emptied.loadedFlag id).mp member)) differs]
      exact (set_groups_other _ _ _ _ differs).trans (frame other differs)
  · rw [if_pos (by simp [loaded])] at flushes
    cases flushes
    exact .inl ⟨rfl, rfl, fun acts => loaded acts.1⟩

end Leaving

/-! The loops. -/

structure CursorIn (ids : List Nat) (cursor : Cursor) : Prop where
  curr : ∀ id, cursor.curr = some id → id ∈ ids
  next : ∀ id, cursor.next = some (some id) → id ∈ ids
  ahead : ∀ id, cursor.curr = some id → cursor.next ≠ some (some id)

def Under (cursor : Cursor) (id : Nat) : Prop :=
  cursor.curr = some id ∨ cursor.next = some (some id)

variable {ids : List Nat}

variable {cursor : Cursor}

theorem CursorIn.grow {more : List Nat} (inside : CursorIn ids cursor) (grows : ids ⊆ more) :
    CursorIn more cursor where
  curr := fun id here => grows (inside.curr id here)
  next := fun id here => grows (inside.next id here)
  ahead := inside.ahead

theorem CursorIn.erase (inside : CursorIn ids cursor) (apart : ¬ Under cursor id) :
    CursorIn (ids.erase id) cursor where
  curr := fun other here => by
    have differs : other ≠ id := fun same => apart (.inl (here.trans (congrArg some same)))
    exact (mem_erase_of_ne differs).mpr (inside.curr other here)
  next := fun other here => by
    have differs : other ≠ id := fun same =>
      apart (.inr (here.trans (congrArg (fun node => some (some node)) same)))
    exact (mem_erase_of_ne differs).mpr (inside.next other here)
  ahead := inside.ahead

theorem ring_cursor {list : Elist (Option Nat)} (ring : Ring list ids) (curr : Option Nat)
    (member : ∀ id, curr = some id → id ∈ ids) : CursorIn ids ⟨curr, some (list.next curr)⟩ := by
  cases curr with
  | none =>
    refine ⟨member, fun id here => ?_, fun id here => by cases here⟩
    rw [ring.first] at here
    exact mem_of_head? (some.inj here)
  | some node =>
    obtain ⟨before, after, rfl⟩ := append_of_mem (member node rfl)
    refine ⟨member, fun id here => ?_, fun id here same => ?_⟩
    · rw [ring.next] at here
      have later := mem_of_head? (some.inj here)
      exact mem_append_right _ (mem_cons_of_mem _ later)
    rw [ring.next] at same
    cases here
    have nodup := nodup_middle.mp ring.nodup
    exact (nodup_cons.mp nodup).1
      (mem_append_right _ (mem_of_head? (some.inj same)))

/-- What a loop relies on: `Inv` says which nodes the list has, in the order in which they get due,
and serving a node that is due takes it out, and only it. -/
structure Serves (link : World σ → Elist (Option Nat))
    (serve : World σ → Nat → Option (Int × World σ)) (due : World σ → Nat → Prop)
    (Inv : World σ → List Nat → Prop) : Prop where
  ring : ∀ world ids, Inv world ids → Ring (link world) ids
  order : ∀ world before id after, Inv world (before ++ id :: after) → ¬ due world id →
    ∀ later ∈ after, ¬ due world later
  step : ∀ world ids id code after, Inv world ids → id ∈ ids → serve world id = some (code, after) →
    (code = 0 ∧ after = world ∧ ¬ due world id) ∨
    (code ≠ 0 ∧ due world id ∧ Inv after (ids.erase id) ∧
      ∀ other, other ≠ id → (due after other → due world other))

/-- Before a loop goes on: nothing is due, or the cursor is at the first group, and at the one after
it unless no other group is due. -/
def Aligned (list : Elist (Option Nat)) (due : Nat → Prop) (cursor : Cursor) : Prop :=
  cursor.curr = none ∨ (∀ id, ¬ due id) ∨
    (cursor.curr = list.next none ∧
      (cursor.next = some (list.next cursor.curr) ∨ ∀ id, due id → cursor.curr = some id))

section Walks
variable {link : World σ → Elist (Option Nat)}
  {serve : World σ → Nat → Option (Int × World σ)} {due : World σ → Nat → Prop}
  {Inv : World σ → List Nat → Prop}

theorem walk_aligned (serves : Serves link serve due Inv) (all : Bool) (userStep rounds : Nat)
    (world : World σ) (ids : List Nat) (inv : Inv world ids) (cursor : Cursor)
    (first : cursor.curr = ids.head?) (second : cursor.next = some ((link world).next cursor.curr))
    (tcount : Nat) (after : World σ) (last : Cursor) (count : Nat)
    (walks : walkWithin link serve all userStep rounds world cursor tcount =
      some (after, last, count)) :
    ∃ left, Inv after left ∧ CursorIn left last ∧
      (all = true ∨ count < userStep → ∀ id ∈ left, ¬ due after id) := by
  induction rounds generalizing world ids cursor tcount with
  | zero => cases walks
  | succ rounds ih =>
    have ring := serves.ring world ids inv
    cases ids with
    | nil =>
      have atEnd : cursor.curr = none := first
      have inside := ring_cursor ring cursor.curr fun id here => by
        rw [atEnd] at here
        cases here
      rw [← second] at inside
      rw [walkWithin, atEnd] at walks
      cases walks
      exact ⟨[], inv, inside, by simp⟩
    | cons id rest =>
      have here : cursor.curr = some id := first
      have nextIs : cursor.next = some rest.head? := by
        rw [second, here]
        exact congrArg some ring.second
      have inside : CursorIn (id :: rest) cursor := by
        have placed := ring_cursor ring cursor.curr fun other at_ => by
          rw [here] at at_
          exact some.inj at_ ▸ mem_cons_self
        rwa [← second] at placed
      rw [walkWithin, here] at walks
      dsimp only at walks
      split at walks
      · rename_i enough
        simp only [Bool.and_eq_true, Bool.not_eq_true', decide_eq_true_eq] at enough
        cases walks
        refine ⟨id :: rest, inv, inside, fun fewer => ?_⟩
        rcases fewer with everything | fewer
        · exact absurd (everything.symm.trans enough.1) (by simp)
        · exact absurd fewer (not_lt.mpr enough.2)
      simp only [bind_eq_bind, bind_eq_some_iff] at walks
      obtain ⟨⟨code, served⟩, serving, goesOn⟩ := walks
      rcases serves.step world (id :: rest) id code served inv mem_cons_self serving with
        ⟨rfl, rfl, early⟩ | ⟨acted, _, servedInv, _⟩
      · rw [if_pos rfl] at goesOn
        cases goesOn
        refine ⟨id :: rest, inv, inside, fun _ other member => ?_⟩
        rcases mem_cons.mp member with rfl | later
        · exact early
        · exact serves.order served [] id rest inv early other later
      · rw [if_neg acted, nextIs] at goesOn
        rw [erase_cons_head] at servedInv
        exact ih served rest servedInv _ rfl rfl _ goesOn

theorem walk_idle (serves : Serves link serve due Inv) (all : Bool) (userStep rounds : Nat)
    (world : World σ) (ids : List Nat) (inv : Inv world ids) (cursor : Cursor)
    (inside : CursorIn ids cursor) (idle : ∀ id ∈ ids, ¬ due world id) (tcount : Nat)
    (after : World σ) (last : Cursor) (count : Nat)
    (walks : walkWithin link serve all userStep rounds world cursor tcount =
      some (after, last, count)) : after = world ∧ last = cursor := by
  cases rounds with
  | zero => cases walks
  | succ rounds =>
    cases here : cursor.curr with
    | none =>
      rw [walkWithin, here] at walks
      cases walks
      exact ⟨rfl, rfl⟩
    | some id =>
      rw [walkWithin, here] at walks
      dsimp only at walks
      split at walks
      · cases walks
        exact ⟨rfl, rfl⟩
      simp only [bind_eq_bind, bind_eq_some_iff] at walks
      obtain ⟨⟨code, served⟩, serving, goesOn⟩ := walks
      have member := inside.curr id here
      rcases serves.step world ids id code served inv member serving with
        ⟨rfl, rfl, _⟩ | ⟨_, isDue, _, _⟩
      · rw [if_pos rfl] at goesOn
        cases goesOn
        exact ⟨rfl, rfl⟩
      · exact absurd isDue (idle id member)

theorem walk_sound (serves : Serves link serve due Inv) (all : Bool) (userStep rounds : Nat)
    (world : World σ) (ids : List Nat) (inv : Inv world ids) (cursor : Cursor)
    (inside : CursorIn ids cursor) (dueIn : ∀ id, due world id → id ∈ ids)
    (aligned : all = true ∨ Aligned (link world) (due world) cursor) (after : World σ)
    (last : Cursor) (count : Nat)
    (walks : walkWithin link serve all userStep rounds world (begin_ (link world) cursor all) 0 =
      some (after, last, count)) :
    ∃ left, Inv after left ∧ CursorIn left last ∧
      (all = true ∨ count < userStep → ∀ id ∈ left, ¬ due after id) := by
  have ring := serves.ring world ids inv
  by_cases restarts : cursor.curr = none ∨ all = true
  · rw [begin_, if_pos restarts] at walks
    exact walk_aligned serves all userStep rounds world ids inv _ ring.first rfl 0 after last count
      walks
  rw [begin_, if_neg restarts] at walks
  obtain ⟨moved, single⟩ := not_or.mp restarts
  rcases aligned with everything | atEnd | idle | ⟨first, second⟩
  · exact absurd everything single
  · exact absurd atEnd moved
  · obtain ⟨rfl, rfl⟩ := walk_idle serves all userStep rounds world ids inv cursor inside
      (fun id _ => idle id) 0 after last count walks
    exact ⟨ids, inv, inside, fun _ id _ => idle id⟩
  rcases second with second | alone
  · exact walk_aligned serves all userStep rounds world ids inv cursor
      (first.trans ring.first) second 0 after last count walks
  -- `next` may be behind the list: it is reached after the only group that is due
  cases ids with
  | nil => exact absurd (first.trans ring.first) moved
  | cons id rest =>
    have here : cursor.curr = some id := first.trans ring.first
    cases rounds with
    | zero => cases walks
    | succ rounds =>
      rw [walkWithin, here] at walks
      dsimp only at walks
      split at walks
      · rename_i enough
        simp only [Bool.and_eq_true, decide_eq_true_eq] at enough
        cases walks
        exact ⟨id :: rest, inv, inside, fun fewer => by
          rcases fewer with everything | fewer
          · exact absurd everything single
          · exact absurd fewer (not_lt.mpr enough.2)⟩
      simp only [bind_eq_bind, bind_eq_some_iff] at walks
      obtain ⟨⟨code, served⟩, serving, goesOn⟩ := walks
      rcases serves.step world (id :: rest) id code served inv mem_cons_self
        serving with ⟨rfl, rfl, early⟩ | ⟨acted, _, servedInv, others⟩
      · rw [if_pos rfl] at goesOn
        cases goesOn
        refine ⟨id :: rest, inv, inside, fun _ other member => ?_⟩
        rcases mem_cons.mp member with rfl | later
        · exact early
        · exact serves.order served [] id rest inv early other later
      rw [if_neg acted, bind_eq_some_iff] at goesOn
      obtain ⟨next, nextIs, goesOn⟩ := goesOn
      rw [erase_cons_head] at servedInv
      have placed := ring_cursor (serves.ring served rest servedInv) next
        fun other otherIs => by
          rw [otherIs] at nextIs
          have member := inside.next other nextIs
          have differs : other ≠ id := fun same =>
            inside.ahead id here (same ▸ nextIs)
          exact (mem_cons.mp member).resolve_left differs
      have idle : ∀ other ∈ rest, ¬ due served other := by
        intro other member isDue
        have differs : other ≠ id := fun same =>
          (nodup_cons.mp ring.nodup).1 (same ▸ member)
        have only := alone other (others other differs isDue)
        rw [here] at only
        exact differs (some.inj only).symm
      obtain ⟨rfl, rfl⟩ := walk_idle serves all userStep rounds served rest
        servedInv _
        placed idle _ after last count goesOn
      exact ⟨rest, servedInv, placed, fun _ => idle⟩

end Walks

variable (server : Server σ)

theorem save_serves (now : Int) (loadedIds : List Nat) :
    Serves World.dirtylist (fun world id => attrgroupSave server now world id false)
      (saveDue server now) (fun world ids => Layer now none world loadedIds ids) where
  ring := fun _ _ layer => layer.dirtyRing
  order := by
    intro world before id after layer early other later due
    have order := (pairwise_append.mp layer.dirtyOrder).2.1
    have older := (pairwise_cons.mp order).1 other later
    have dirty := (layer.dirtyFlag id).mp (by simp)
    have recent : now - (world.groups id).dirtytime < server.userSyncTimer := by
      by_contra long
      exact early ⟨dirty, long⟩
    exact due.2 (by omega)
  step := by
    intro world ids id code after layer member saves
    have dirty := (layer.dirtyFlag id).mp member
    rcases save_layer server layer false code after saves with
      ⟨codeIs, same, idle⟩ | ⟨rfl, _, acts, afterLayer, frame⟩
    · exact .inl ⟨codeIs, same, fun due => idle ⟨dirty, .inr due⟩⟩
    refine .inr ⟨by decide, acts.resolve_left (by simp), afterLayer, fun other differs => ?_⟩
    unfold saveDue
    rw [frame other differs]
    exact fun due => due

theorem flush_serves (now : Int) (cursor : Cursor) :
    Serves World.loadedlist (fun world id => attrgroupFlush server now world id false)
      (flushDue server now) (fun world ids => ∃ dirty, Layer now none world ids dirty ∧
        CursorIn dirty cursor ∧ ∀ id, Under cursor id → ¬ flushDue server now world id) where
  ring := fun _ _ ⟨_, layer, _⟩ => layer.loadedRing
  order := by
    intro world before id after ⟨dirty, layer, _⟩ early other later due
    have order := (pairwise_append.mp layer.accessOrder).2.1
    have older := (pairwise_cons.mp order).1 other later (by simp) (by simp)
    have loaded := (layer.loadedFlag id).mp (by simp)
    have recent : now - (world.groups id).lastaccess < server.userFlushTimer := by
      by_contra long
      exact early ⟨loaded, long⟩
    exact due.2 (by omega)
  step := by
    intro world ids id code after ⟨dirty, layer, inside, kept⟩ member flushes
    have loaded := (layer.loadedFlag id).mp member
    rcases flush_layer server layer false code after flushes with
      ⟨codeIs, same, idle⟩ | ⟨rfl, _, acts, afterLayer, frame⟩
    · exact .inl ⟨codeIs, same, fun due => idle ⟨loaded, .inr due⟩⟩
    have due := acts.resolve_left (by simp)
    have sameDue (other : Nat) (differs : other ≠ id) :
        flushDue server now after other → flushDue server now world other := by
      unfold flushDue
      rw [frame other differs]
      exact fun due => due
    refine .inr ⟨by decide, due, ⟨dirty.erase id, afterLayer,
      inside.erase fun under => kept id under due, fun other under otherDue => ?_⟩, sameDue⟩
    have differs : other ≠ id := fun same => kept id (same ▸ under) due
    exact kept other under (sameDue other differs otherDue)

/-! The runs. -/

/-- A call for one group, or one of the two loops without `FS_FORCE`. -/
inductive Event
  | group (event : AttrGroup.Event)
  | save (now : Int) (all : Bool)
  | flush (now : Int) (all : Bool)

def groupTime : AttrGroup.Event → Int
  | .get now _ _ | .set now _ _ _ | .save now _ _ | .flush now _ _ => now

def Event.time : Event → Int
  | .group event => groupTime event
  | .save now _ | .flush now _ => now

/-- The state afterwards and how many groups a loop processed. -/
def step (server : Server σ) (userStep rounds : Nat) (state : State σ) :
    Event → Option (State σ × Nat)
  | .group event => do
    let world ← AttrGroup.step server state.world event
    some ({ state with world := world, now := groupTime event }, 0)
  | .save now all => attrlayerSave server userStep rounds now state all
  | .flush now all => attrlayerFlush server userStep rounds now state all

/-- What a call must meet: a group that it takes out of a list is under no cursor of that list, a
loop that goes on is aligned, and what is loaded can be read. -/
def Meets (server : Server σ) (state : State σ) : Event → Prop
  | .group (.get _ id _) =>
    Readable server state.world id ∧ Readable server state.world server.defattrs
  | .group (.set _ id _ _) => Readable server state.world id
  | .group (.save now id force) =>
    (state.world.groups id).dirty = true ∧
      (force = true ∨ saveDue server now state.world id) → ¬ Under state.saveCursor id
  | .group (.flush now id force) =>
    (state.world.groups id).loaded = true ∧ (force = true ∨ flushDue server now state.world id) →
    ¬ Under state.flushCursor id ∧
      ((state.world.groups id).dirty = true → ¬ Under state.saveCursor id)
  | .save now all => all = true ∨
      Aligned state.world.dirtylist (saveDue server now state.world) state.saveCursor
  | .flush now all => (all = true ∨
      Aligned state.world.loadedlist (flushDue server now state.world) state.flushCursor) ∧
      ∀ id, Under state.saveCursor id → ¬ flushDue server now state.world id

structure Fresh (state : State σ) : Prop where
  unloaded : ∀ id, (state.world.groups id).loaded = false ∧ (state.world.groups id).dirty = false
  loadedlist : state.world.loadedlist = elistInit (Option Nat)
  dirtylist : state.world.dirtylist = elistInit (Option Nat)
  flushCursor : state.flushCursor = ⟨none, none⟩
  saveCursor : state.saveCursor = ⟨none, none⟩

/-- The states of the runs in which time does not go back and every call meets the condition. -/
inductive Reached (server : Server σ) (userStep : Nat) : State σ → Prop
  | start (state : State σ) (fresh : Fresh state) : Reached server userStep state
  | step (before after : State σ) (event : Event) (rounds count : Nat)
      (reached : Reached server userStep before) (passes : before.now ≤ event.time)
      (meets : Meets server before event)
      (steps : step server userStep rounds before event = some (after, count)) :
      Reached server userStep after

def StateHolds (state : State σ) : Prop :=
  ∃ loadedIds dirtyIds, Layer state.now none state.world loadedIds dirtyIds ∧
    CursorIn loadedIds state.flushCursor ∧ CursorIn dirtyIds state.saveCursor

variable (userStep : Nat) (state : State σ)

theorem fresh_holds (fresh : Fresh state) : StateHolds state := by
  have empty : CursorIn [] (⟨none, none⟩ : Cursor) := {
    curr := fun _ here => nomatch here
    next := fun _ here => nomatch here
    ahead := fun _ here => nomatch here }
  refine ⟨[], [], ⟨?_, ?_, ?_, ?_, by simp, Pairwise.nil, by simp, Pairwise.nil, by simp⟩,
    by rw [fresh.flushCursor]; exact empty, by rw [fresh.saveCursor]; exact empty⟩
  · rw [fresh.loadedlist]
    exact ring_init
  · rw [fresh.dirtylist]
    exact ring_init
  · exact fun id => by simp [(fresh.unloaded id).1]
  · exact fun id => by simp [(fresh.unloaded id).2]

theorem save_call (rounds : Nat) (now : Int) (state : State σ) (all : Bool)
    (holds : StateHolds state) (passes : state.now ≤ now)
    (meets : Meets server state (.save now all)) (after : State σ) (count : Nat)
    (saves : attrlayerSave server userStep rounds now state all = some (after, count)) :
    StateHolds after ∧ (all = true ∨ count < userStep →
      ∀ id, ¬ saveDue server now after.world id) := by
  obtain ⟨loadedIds, dirtyIds, layer, flushIn, saveIn⟩ := holds
  unfold attrlayerSave at saves
  simp only [bind_eq_bind, bind_eq_some_iff] at saves
  obtain ⟨⟨world, cursor, tcount⟩, walks, resultIs⟩ := saves
  cases resultIs
  have current := layer.later passes
  obtain ⟨left, leftLayer, leftIn, clean⟩ := walk_sound (save_serves server now loadedIds) all
    userStep rounds state.world dirtyIds current state.saveCursor saveIn
    (fun id due => (current.dirtyFlag id).mpr due.1) meets world cursor tcount walks
  refine ⟨⟨loadedIds, left, leftLayer, flushIn, leftIn⟩, fun fewer id due => ?_⟩
  exact clean fewer id ((leftLayer.dirtyFlag id).mpr due.1) due

variable (rounds : Nat)

theorem flush_call (now : Int) (state : State σ) (all : Bool) (holds : StateHolds state)
    (passes : state.now ≤ now) (meets : Meets server state (.flush now all)) (after : State σ)
    (count : Nat)
    (flushes : attrlayerFlush server userStep rounds now state all = some (after, count)) :
    StateHolds after ∧ (all = true ∨ count < userStep →
      ∀ id, ¬ flushDue server now after.world id) := by
  obtain ⟨loadedIds, dirtyIds, layer, flushIn, saveIn⟩ := holds
  unfold attrlayerFlush at flushes
  simp only [bind_eq_bind, bind_eq_some_iff] at flushes
  obtain ⟨⟨world, cursor, tcount⟩, walks, resultIs⟩ := flushes
  cases resultIs
  have current := layer.later passes
  obtain ⟨left, ⟨dirty, leftLayer, keptIn, _⟩, leftIn, clean⟩ := walk_sound
    (flush_serves server now state.saveCursor) all userStep rounds state.world loadedIds
    ⟨dirtyIds, current, saveIn, meets.2⟩ state.flushCursor flushIn
    (fun id due => (current.loadedFlag id).mpr due.1) meets.1 world cursor tcount walks
  refine ⟨⟨left, dirty, leftLayer, leftIn, keptIn⟩, fun fewer id due => ?_⟩
  exact clean fewer id ((leftLayer.loadedFlag id).mpr due.1) due

theorem group_call (event : AttrGroup.Event) (holds : StateHolds state)
    (passes : state.now ≤ groupTime event) (meets : Meets server state (.group event))
    (world : World σ) (steps : AttrGroup.step server state.world event = some world) :
    StateHolds { state with world := world, now := groupTime event } := by
  obtain ⟨loadedIds, dirtyIds, layer, flushIn, saveIn⟩ := holds
  have current := layer.later passes
  cases event with
  | get now id key =>
    obtain ⟨⟨val, after⟩, gets, rfl⟩ := map_eq_some_iff.mp steps
    obtain ⟨loaded, dirty, afterLayer, loadedGrows, dirtyGrows⟩ :=
      get_attr_layer server current meets.1 meets.2 key val after gets
    exact ⟨loaded, dirty, afterLayer, flushIn.grow loadedGrows, saveIn.grow dirtyGrows⟩
  | set now id key val =>
    obtain ⟨loaded, dirty, afterLayer, loadedGrows, dirtyGrows, _⟩ :=
      (set_attr_served (attrgroupLoad server now) server key val world
        (fun code middle loads => load_served server current meets code middle loads) steps).lists
    exact ⟨loaded, dirty, afterLayer, flushIn.grow loadedGrows, saveIn.grow dirtyGrows⟩
  | save now id force =>
    obtain ⟨⟨code, after⟩, saves, rfl⟩ := map_eq_some_iff.mp steps
    rcases save_layer server current force code after saves with
      ⟨_, rfl, _⟩ | ⟨_, dirty, acts, afterLayer, _⟩
    · exact ⟨loadedIds, dirtyIds, current, flushIn, saveIn⟩
    · exact ⟨loadedIds, dirtyIds.erase id, afterLayer, flushIn, saveIn.erase (meets ⟨dirty, acts⟩)⟩
  | flush now id force =>
    obtain ⟨⟨code, after⟩, flushes, rfl⟩ := map_eq_some_iff.mp steps
    rcases flush_layer server current force code after flushes with
      ⟨_, rfl, _⟩ | ⟨_, loaded, acts, afterLayer, _⟩
    · exact ⟨loadedIds, dirtyIds, current, flushIn, saveIn⟩
    obtain ⟨apart, apartDirty⟩ := meets ⟨loaded, acts⟩
    refine ⟨loadedIds.erase id, dirtyIds.erase id, afterLayer, flushIn.erase apart, ?_⟩
    by_cases dirty : (state.world.groups id).dirty = true
    · exact saveIn.erase (apartDirty dirty)
    · rw [erase_of_not_mem fun member => dirty ((current.dirtyFlag id).mp member)]
      exact saveIn

theorem step_holds (before after : State σ) (event : Event) (count : Nat)
    (holds : StateHolds before) (passes : before.now ≤ event.time)
    (meets : Meets server before event)
    (steps : step server userStep rounds before event = some (after, count)) :
    StateHolds after := by
  cases event with
  | group event =>
    simp only [step, bind_eq_bind, bind_eq_some_iff] at steps
    obtain ⟨world, serves, resultIs⟩ := steps
    cases resultIs
    exact group_call server before event holds passes meets world serves
  | save now all =>
    exact (save_call server userStep rounds now before all holds passes meets after count steps).1
  | flush now all =>
    exact (flush_call server userStep rounds now before all holds passes meets after
      count steps).1

theorem reached_holds (reached : Reached server userStep state) : StateHolds state := by
  induction reached with
  | start state fresh => exact fresh_holds state fresh
  | step before after event rounds count _ passes meets steps ih =>
    exact step_holds server userStep rounds before after event count ih passes meets steps

def CursorLinked (list : Elist (Option Nat)) (cursor : Cursor) : Prop :=
  ∃ nodes, Ring list nodes ∧ ∀ id, Under cursor id → id ∈ nodes

theorem CursorIn.linked {list : Elist (Option Nat)} {ids : List Nat} {cursor : Cursor}
    (inside : CursorIn ids cursor) (ring : Ring list ids) : CursorLinked list cursor :=
  ⟨ids, ring, fun id under => under.elim (inside.curr id) (inside.next id)⟩

/-- In every run whose calls meet the condition the cursors stay in their lists, and a loop that
processed fewer groups than it may leaves no group that is due. -/
theorem layer_sound (server : Server σ) (userStep : Nat) (state : State σ)
    (reached : Reached server userStep state) :
    CursorLinked state.world.dirtylist state.saveCursor ∧
    CursorLinked state.world.loadedlist state.flushCursor ∧
    ∀ (now : Int) (rounds count : Nat) (after : State σ), state.now ≤ now →
      (Meets server state (.save now false) →
        step server userStep rounds state (.save now false) = some (after, count) →
        count < userStep → ∀ id, ¬ saveDue server now after.world id) ∧
      (Meets server state (.flush now false) →
        step server userStep rounds state (.flush now false) = some (after, count) →
        count < userStep → ∀ id, ¬ flushDue server now after.world id) := by
  have holds := reached_holds server userStep state reached
  have ⟨loadedIds, dirtyIds, layer, flushIn, saveIn⟩ := holds
  refine ⟨saveIn.linked layer.dirtyRing, flushIn.linked layer.loadedRing,
    fun now rounds count after passes => ⟨fun meets steps fewer => ?_, fun meets steps fewer => ?_⟩⟩
  · exact (save_call server userStep rounds now state false holds passes meets after count steps).2
      (.inr fewer)
  · exact (flush_call server userStep rounds now state false holds passes meets after count steps).2
      (.inr fewer)

def run (server : Server σ) (userStep rounds : Nat) : List Event → State σ → Option (State σ)
  | [], state => some state
  | event :: rest, state => do
    let (state, _) ← step server userStep rounds state event
    run server userStep rounds rest state

def freshState : State (List (Text × Text)) where
  world := {
    groups := fun _ => ⟨⟨none, ∅⟩, [], false, false, false, 0, 0⟩
    loadedlist := elistInit _
    dirtylist := elistInit _ }
  flushCursor := ⟨none, none⟩
  saveCursor := ⟨none, none⟩
  now := 0

/-- Two groups get dirty, the first is saved by the loop and the second by itself, and the first
gets dirty again. -/
def stuckEvents : List Event :=
  [.group (.set 0 1 rankKey (some [49])), .group (.set 0 2 rankKey (some [49])), .save 300 false,
    .group (.save 300 2 true), .group (.set 301 1 rankKey (some [50]))]

/-- The cursor stays at the second group, which is in no list, and the loop stops there. -/
theorem cursor_left_behind : ∃ stuck after,
    run memoryServer 1 3 stuckEvents freshState = some stuck ∧
    ¬ CursorLinked stuck.world.dirtylist stuck.saveCursor ∧
    step memoryServer 1 3 stuck (.save 700 false) = some (after, 0) ∧
    saveDue memoryServer 700 after.world 1 := by
  have pointers : ((run memoryServer 1 3 stuckEvents freshState).map fun stuck =>
      (stuck.saveCursor.curr, stuck.world.dirtylist.next none,
        stuck.world.dirtylist.next (some 1))) = some (some 2, some 1, none) := by decide +kernel
  have result : (((run memoryServer 1 3 stuckEvents freshState).bind fun stuck =>
      step memoryServer 1 3 stuck (.save 700 false)).map fun result =>
        (result.2, (result.1.world.groups 1).dirty, (result.1.world.groups 1).dirtytime)) =
      some (0, true, 301) := by decide +kernel
  obtain ⟨stuck, runs, stuckIs⟩ := map_eq_some_iff.mp pointers
  simp only [mk.injEq] at stuckIs
  obtain ⟨currIs, firstIs, secondIs⟩ := stuckIs
  rw [runs, bind_some] at result
  obtain ⟨⟨after, count⟩, steps, afterIs⟩ := map_eq_some_iff.mp result
  simp only [mk.injEq] at afterIs
  obtain ⟨rfl, dirtyIs, timeIs⟩ := afterIs
  refine ⟨stuck, after, runs, ?_, steps, dirtyIs, ?_⟩
  · rintro ⟨nodes, ring, under⟩
    have member := under 2 (.inl currIs)
    have head := ring.first
    rw [firstIs] at head
    obtain ⟨rest, rfl⟩ := head?_eq_some_iff.mp head.symm
    have onlyOne := ring.second
    rw [secondIs] at onlyOne
    rw [head?_eq_none_iff.mp onlyOne.symm] at member
    simp at member
  · rw [timeIs]
    decide

/-- A loop that begins at the first group leaves nothing that is due. -/
theorem layer_sound_sample : ∃ dirtied after,
    step memoryServer 2 3 freshState (.group (.set 0 1 rankKey (some [49]))) = some (dirtied, 0) ∧
    step memoryServer 2 3 dirtied (.save 300 false) = some (after, 1) ∧
    CursorLinked dirtied.world.dirtylist dirtied.saveCursor ∧
    ∀ id, ¬ saveDue memoryServer 300 after.world id := by
  have computed : ((step memoryServer 2 3 freshState
      (.group (.set 0 1 rankKey (some [49])))).map fun result =>
        (result.2, result.1.now, result.1.saveCursor.curr,
          (step memoryServer 2 3 result.1 (.save 300 false)).map snd)) =
      some (0, 0, none, some 1) := by decide +kernel
  obtain ⟨⟨dirtied, count⟩, steps, dirtiedIs⟩ := map_eq_some_iff.mp computed
  simp only [mk.injEq] at dirtiedIs
  obtain ⟨rfl, nowIs, currIs, saveIs⟩ := dirtiedIs
  obtain ⟨⟨after, saved⟩, saves, rfl⟩ := map_eq_some_iff.mp saveIs
  have fresh : Fresh freshState := ⟨fun _ => ⟨rfl, rfl⟩, rfl, rfl, rfl, rfl⟩
  have reached : Reached memoryServer 2 dirtied :=
    .step freshState dirtied (.group (.set 0 1 rankKey (some [49]))) 3 0 (.start freshState fresh)
      (by decide) (fun _ => rfl) steps
  obtain ⟨linked, _, sound⟩ := layer_sound memoryServer 2 dirtied reached
  have now_le : dirtied.now ≤ 300 := by
    rw [nowIs]
    decide
  exact ⟨dirtied, after, steps, saves, linked,
    (sound 300 3 1 after now_le).1 (.inr (.inl currIs)) saves (by decide)⟩

end Pvpgn.AttrLayer
