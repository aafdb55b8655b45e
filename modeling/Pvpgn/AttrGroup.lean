import Pvpgn.EmbeddedList
import Pvpgn.FilePlain

/-!
Groups of attributes (`attrgroup.cpp`): a cache in front of the storage that is filled at the first
access, written back when it was changed, and thrown away when it was not used. What the storage and
the allocator do are parameters; a missing node or key that is read is `none`.
-/

namespace Pvpgn.AttrGroup
open Stdio LinkedMemory EmbeddedList FilePlain List Option Function Prod Bool

/-- The flags are `ATTRGROUP_FLAG_LOADED`, `_ACCESSED` and `_DIRTY`. -/
structure Attrgroup (σ : Type) where
  list : Hlist Attr
  storage : σ
  loaded : Bool
  accessed : Bool
  dirty : Bool
  lastaccess : Int
  dirtytime : Int

/-- All groups, with the lists of `attrlayer.cpp` that link them; `none` is a list's head. -/
structure World (σ : Type) where
  groups : Nat → Attrgroup σ
  loadedlist : Elist (Option Nat)
  dirtylist : Elist (Option Nat)

/-- `t_storage`: a read gives the calls of its callback in order, and what it returns. -/
structure Storage (σ : Type) where
  readAttrs : σ → List (Text × Text) × Int
  readAttr : σ → Text → Option Attr
  writeAttrs : σ → List Attr → σ
  escapeKey : Text → Text

structure Server (σ : Type) where
  storage : Storage σ
  defattrs : Nat
  userSyncTimer : Int
  userFlushTimer : Int
  malloc : Memory (Link Attr) → Nat
  malloc_unused : ∀ memory, load memory (malloc memory) = none

variable {σ : Type}

def World.set (world : World σ) (id : Nat) (group : Attrgroup σ) : World σ :=
  { world with groups := Function.update world.groups id group }

/-! Flags and lists. -/

def attrlayerAccessed (world : World σ) (id : Nat) : World σ :=
  { world with loadedlist := elistAddTail (elistDel world.loadedlist (some id)) none (some id) }

def attrgroupSetAccessed (now : Int) (world : World σ) (id : Nat) : World σ :=
  let group := world.groups id
  attrlayerAccessed (world.set id { group with accessed := true, lastaccess := now }) id

def attrgroupClearAccessed (world : World σ) (id : Nat) : World σ :=
  world.set id { world.groups id with accessed := false }

def attrgroupSetDirty (now : Int) (world : World σ) (id : Nat) : World σ :=
  let group := world.groups id
  if group.dirty then world
  else { world.set id { group with dirtytime := now, dirty := true } with
    dirtylist := elistAddTail world.dirtylist none (some id) }

def attrgroupClearDirty (world : World σ) (id : Nat) : World σ :=
  let group := world.groups id
  if group.dirty then
    { world.set id { group with dirty := false } with
      dirtylist := elistDel world.dirtylist (some id) }
  else world

def attrgroupSetLoaded (world : World σ) (id : Nat) : World σ :=
  let group := world.groups id
  if group.loaded then world
  else { world.set id { group with loaded := true } with
    loadedlist := elistAddTail world.loadedlist none (some id) }

def attrgroupClearLoaded (world : World σ) (id : Nat) : World σ :=
  if (world.groups id).loaded then
    let world := attrgroupClearAccessed (attrgroupClearDirty world id) id
    { world.set id { world.groups id with loaded := false } with
      loadedlist := elistDel world.loadedlist (some id) }
  else world

/-! Writing back. -/

/-- `force` is `FS_FORCE`; writing clears the mark of every attribute. -/
def attrgroupSave (server : Server σ) (now : Int) (world : World σ) (id : Nat) (force : Bool) :
    Option (Int × World σ) :=
  let group := world.groups id
  if !group.loaded then some (0, world)
  else if !group.dirty then some (0, world)
  else if !force && now - group.dirtytime < server.userSyncTimer then some (0, world)
  else do
    let (attrs, list) ← visit Attr.clearDirty group.list
    let storage := server.storage.writeAttrs group.storage attrs
    some (1, attrgroupClearDirty (world.set id { group with list := list, storage := storage }) id)

def attrgroupFlush (server : Server σ) (now : Int) (world : World σ) (id : Nat) (force : Bool) :
    Option (Int × World σ) :=
  let group := world.groups id
  if !group.loaded then some (0, world)
  else if !force && group.accessed && now - group.lastaccess < server.userFlushTimer then
    some (0, world)
  else do
    let (_, world) ← attrgroupSave server now world id true
    let list ← destroyAll (world.groups id).list
    some (1, attrgroupClearLoaded
      (world.set id { world.groups id with list := hlistInit list }) id)

/-! Keys. -/

/-- The names that clients use for `Record` and `STAR`. -/
def aliasKey (key : Text) : Text :=
  if (key.take 6).map tolower = (text "DynKey").map tolower then text "Record" ++ key.drop 6
  else if key.take 4 = text "Star" then text "STAR" ++ key.drop 4
  else key

def attrgroupEscapeKey (server : Server σ) (key : Text) : Text :=
  server.storage.escapeKey (aliasKey key)

/-- `!strcasecmp(attr_get_key(attr), key)` -/
def sameKey (key : Text) (attr : Attr) : Option Bool :=
  attr.key.map fun own => own.map tolower = key.map tolower

/-! Looking up and changing; `loadGroup` is `attrgroup_load`, which itself sets what it reads. -/

def addAttr (server : Server σ) (list : Hlist Attr) (attr : Attr) : Option (Nat × Hlist Attr) := do
  let address := server.malloc list.memory
  let list ← createNode list address attr
  let list ← hlistAdd list none address
  some (address, list)

/-- The part of `attrgroup_find_attr` after the group was loaded and the key escaped. -/
def lookupAttr (server : Server σ) (world : World σ) (id : Nat) (key : Text) :
    Option (Option Nat × World σ) := do
  let group := world.groups id
  let (found, list) ← search (sameKey key) group.list
  match found with
  | some address => some (some address, world.set id { group with list := list })
  | none =>
    match server.storage.readAttr group.storage key with
    | none => some (none, world.set id { group with list := list })
    | some attr => do
      let (address, list) ← addAttr server list attr
      some (some address, world.set id { group with list := list })

def findAttrWith (loadGroup : World σ → Nat → Option (Int × World σ)) (server : Server σ)
    (now : Int) (world : World σ) (id : Nat) (key : Text) (escape : Bool) :
    Option (Option Nat × Text × World σ) := do
  let (code, world) ← loadGroup world id
  if code ≠ 0 then some (none, key, world)
  else
    let key := if escape then attrgroupEscapeKey server key else key
    let (attr, world) ← lookupAttr server (attrgroupSetAccessed now world id) id key
    some (attr, key, world)

def changeVal (now : Int) (world : World σ) (id address : Nat) (val : Option Text) :
    Option (World σ) := do
  let group := world.groups id
  let attr ← group.list.item address
  if attr.val = val then some world
  else
    let list ← setItem group.list address fun attr => { attr with val := val, dirty := true }
    some (attrgroupSetDirty now (world.set id { group with list := list }) id)

/-- `attr_create`, `hlist_add` and `attr_set_dirty` -/
def createVal (server : Server σ) (now : Int) (world : World σ) (id : Nat) (key : Text)
    (val : Option Text) : Option (World σ) := do
  let group := world.groups id
  let (_, list) ← addAttr server group.list ⟨some key, val, true⟩
  some (attrgroupSetDirty now (world.set id { group with list := list }) id)

def setAttrWith (loadGroup : World σ → Nat → Option (Int × World σ)) (server : Server σ)
    (now : Int) (world : World σ) (id : Nat) (key : Text) (val : Option Text) :
    Option (World σ) := do
  let (attr, newkey, world) ← findAttrWith loadGroup server now world id key true
  match attr with
  | some address => changeVal now world id address val
  | none => createVal server now world id newkey val

def replay (setAttr : World σ → Text → Option Text → Option (World σ)) :
    List (Text × Text) → World σ → Option (World σ)
  | [], world => some world
  | (key, val) :: rest, world => do
    let world ← setAttr world key (some val)
    replay setAttr rest world

/-- The callbacks call `attrgroup_load` again, which finds the group loaded: `depth` counts how
often a load may begin inside a load. -/
def loadWithin (server : Server σ) (now : Int) :
    Nat → World σ → Nat → Option (Int × World σ)
  | depth, world, id =>
    if (world.groups id).loaded then some (0, world)
    else if (world.groups id).dirty then some (-1, world)
    else match depth with
      | 0 => none
      | depth + 1 => do
        let (pairs, code) := server.storage.readAttrs (world.groups id).storage
        let world ← replay
          (fun world key val => setAttrWith (loadWithin server now depth) server now world id
            key val) pairs (attrgroupSetLoaded world id)
        if code ≠ 0 then some (-1, world)
        else some (0, attrgroupClearDirty world id)

def attrgroupLoad (server : Server σ) (now : Int) (world : World σ) (id : Nat) :
    Option (Int × World σ) :=
  loadWithin server now 1 world id

def attrgroupSetAttr (server : Server σ) (now : Int) (world : World σ) (id : Nat) (key : Text)
    (val : Option Text) : Option (World σ) :=
  setAttrWith (attrgroupLoad server now) server now world id key val

/-- The value that one group itself has, and the key that was looked up. -/
def ownVal (server : Server σ) (now : Int) (world : World σ) (id : Nat) (key : Text)
    (escape : Bool) : Option (Option Text × Text × World σ) := do
  let (attr, newkey, world) ← findAttrWith (attrgroupLoad server now) server now world id key escape
  match attr with
  | none => some (none, newkey, world)
  | some address => do
    let attr ← (world.groups id).list.item address
    some (attr.val, newkey, world)

/-- `attrgroup_get_attrlow`; for the default group it asks no other group. -/
def attrgroupGetAttr (server : Server σ) (now : Int) (world : World σ) (id : Nat) (key : Text) :
    Option (Option Text × World σ) := do
  let (val, newkey, world) ← ownVal server now world id key true
  if val = none ∧ id ≠ server.defattrs then
    let (val, _, world) ← ownVal server now world server.defattrs newkey false
    some (val, world)
  else some (val, world)

/-! Keys up to case and other names. -/

def canonicalLower (lower : Text) : Text :=
  if lower.take 6 = text "dynkey" then text "record" ++ lower.drop 6 else lower

/-- Keys are the same when they agree up to case, where `DynKey` is another name for `Record`.
`Star` and `STAR` agree up to case already. -/
def canonical (key : Text) : Text := canonicalLower (key.map tolower)

theorem canonicalLower_idem (lower : Text) :
    canonicalLower (canonicalLower lower) = canonicalLower lower := by
  by_cases dynamic : lower.take 6 = text "dynkey"
  · have renamed : canonicalLower lower = text "record" ++ lower.drop 6 := if_pos dynamic
    rw [renamed]
    refine if_neg ?_
    rw [take_left' (by decide)]
    decide
  · have plain : canonicalLower lower = lower := if_neg dynamic
    rw [plain, plain]

variable (now : Int) (world : World σ) (loadGroup : World σ → Nat → Option (Int × World σ))
  (server : Server σ) (id : Nat) {values : Text → Option Text} {nodes : List (Nat × Attr)}
  (key : Text)

theorem aliasKey_lower : (aliasKey key).map tolower = canonical key := by
  unfold aliasKey canonical canonicalLower
  rw [← map_take, ← map_drop]
  by_cases dynamic : (key.take 6).map tolower = (text "DynKey").map tolower
  · have record : (text "Record").map tolower = text "record" := by decide
    rw [if_pos dynamic, if_pos (dynamic.trans (by decide)), map_append, record]
  have lowerDynamic : ¬ (key.take 6).map tolower = text "dynkey" := fun renamed =>
    dynamic (renamed.trans (by decide))
  rw [if_neg dynamic, if_neg lowerDynamic]
  by_cases star : key.take 4 = text "Star"
  · have upper : (text "STAR").map tolower = (text "Star").map tolower := by decide
    rw [if_pos star]
    calc
      (text "STAR" ++ key.drop 4).map tolower
          = (text "STAR").map tolower ++ (key.drop 4).map tolower := map_append
      _ = (key.take 4).map tolower ++ (key.drop 4).map tolower := by
          rw [star, upper]
      _ = key.map tolower := by rw [← map_append, take_append_drop]
  · rw [if_neg star]

theorem aliasKey_fixed : (aliasKey key).map tolower = canonical (aliasKey key) := by
  unfold canonical
  rw [aliasKey_lower]
  exact (canonicalLower_idem _).symm

theorem canonical_aliasKey : canonical (aliasKey key) = canonical key := by
  rw [← aliasKey_fixed, aliasKey_lower]

/-! What a cached list says. -/

/-- The attributes of a list give each key one value. -/
structure Caches (nodes : List (Nat × Attr)) (values : Text → Option Text) : Prop where
  keyed : ∀ node ∈ nodes, ∃ key, node.2.key = some key ∧ key.map tolower = canonical key
  distinct : (nodes.map fun node => node.2.key.map canonical).Nodup
  present : ∀ node ∈ nodes, ∀ key, node.2.key = some key → values (canonical key) = node.2.val
  absent : ∀ key, (∀ node ∈ nodes, node.2.key.map canonical ≠ some key) → values key = none

def Cached (list : Hlist Attr) (values : Text → Option Text) : Prop :=
  ∃ nodes, Holds list nodes ∧ Caches nodes values

theorem Caches.perm {other : List (Nat × Attr)} (caches : Caches nodes values)
    (perm : other.Perm nodes) : Caches other values where
  keyed := fun node member => caches.keyed node (perm.subset member)
  distinct := (perm.map _).nodup_iff.mpr caches.distinct
  present := fun node member => caches.present node (perm.subset member)
  absent := fun key outside => caches.absent key fun node member =>
    outside node (perm.symm.subset member)

theorem Caches.same_node (caches : Caches nodes values) {left right : Nat × Attr}
    (leftIn : left ∈ nodes) (rightIn : right ∈ nodes)
    (same : left.2.key.map canonical = right.2.key.map canonical) : left = right :=
  inj_on_of_nodup_map caches.distinct leftIn rightIn same

theorem caches_empty : Caches [] fun _ => none where
  keyed := by simp
  distinct := by simp
  present := by simp
  absent := fun _ _ => rfl

theorem Caches.create (caches : Caches nodes values) (address : Nat) (key : Text)
    (val : Option Text) (escaped : key.map tolower = canonical key)
    (fresh : ∀ node ∈ nodes, node.2.key.map canonical ≠ some (canonical key)) :
    Caches ((address, ⟨some key, val, true⟩) :: nodes)
      (update values (canonical key) val) where
  keyed := by
    intro node member
    rcases mem_cons.mp member with rfl | old
    · exact ⟨key, rfl, escaped⟩
    · exact caches.keyed node old
  distinct := by
    rw [map_cons, nodup_cons]
    refine ⟨fun member => ?_, caches.distinct⟩
    obtain ⟨node, old, same⟩ := mem_map.mp member
    exact fresh node old same
  present := by
    intro node member other otherIs
    rcases mem_cons.mp member with rfl | old
    · obtain rfl : key = other := some.inj otherIs
      exact update_self _ _ _
    have differs : canonical other ≠ canonical key := fun same =>
      fresh node old (by rw [otherIs, map_some, same])
    rw [update_of_ne differs]
    exact caches.present node old other otherIs
  absent := by
    intro other outside
    have differs : other ≠ canonical key := fun same =>
      outside _ mem_cons_self (by rw [same]; rfl)
    rw [update_of_ne differs]
    exact caches.absent other fun node old => outside node (mem_cons_of_mem _ old)

theorem Caches.change (caches : Caches nodes values) (addresses : (nodes.map fst).Nodup)
    {node : Nat × Attr} (member : node ∈ nodes) {key : Text} (keyIs : node.2.key = some key)
    (val : Option Text) :
    Caches (nodes.map fun other => if other.1 = node.1 then
        (other.1, { other.2 with val := val, dirty := true }) else other)
      (update values (canonical key) val) := by
  have keys (other : Nat × Attr) : (if other.1 = node.1 then
      (other.1, { other.2 with val := val, dirty := true }) else other).2.key = other.2.key := by
    split <;> rfl
  constructor
  · intro changed changedIn
    obtain ⟨other, old, rfl⟩ := mem_map.mp changedIn
    rw [keys]
    exact caches.keyed other old
  · rw [List.map_map]
    have names : ((fun changed : Nat × Attr => changed.2.key.map canonical) ∘ fun other =>
        if other.1 = node.1 then (other.1, { other.2 with val := val, dirty := true })
        else other) = fun other => other.2.key.map canonical :=
      funext fun other => congrArg (Option.map canonical) (keys other)
    rw [names]
    exact caches.distinct
  · intro changed changedIn other otherIs
    obtain ⟨source, old, rfl⟩ := mem_map.mp changedIn
    rw [keys] at otherIs
    by_cases same : source.1 = node.1
    · have sourceIs : source = node := inj_on_of_nodup_map addresses old member same
      obtain rfl : key = other := by
        rw [sourceIs, keyIs] at otherIs
        exact some.inj otherIs
      rw [if_pos same, update_self]
    · have differs : canonical other ≠ canonical key := by
        intro equal
        have sourceIs := caches.same_node old member (by
          rw [otherIs, keyIs, map_some, map_some, equal])
        exact same (by rw [sourceIs])
      rw [if_neg same, update_of_ne differs]
      exact caches.present source old other otherIs
  · intro other outside
    have differs : other ≠ canonical key := by
      intro equal
      refine outside _ (mem_map_of_mem member) ?_
      rw [keys, keyIs, map_some, equal]
    rw [update_of_ne differs]
    refine caches.absent other fun source old => ?_
    have keysOutside := outside _ (mem_map_of_mem old)
    rwa [keys] at keysOutside

/-! What one call leaves of a group that is loaded. -/

/-- The attributes that a storage can hold. -/
def nonNull (attr : Attr) : Option (Text × Text) :=
  match attr.key, attr.val with
  | some key, some val => some (key, val)
  | _, _ => none

/-- The plain file driver, as the cache relies on it. -/
structure PlainStorage (storage : Storage σ) : Prop where
  reads_written : ∀ info attrs, ∃ pairs, storage.readAttrs (storage.writeAttrs info attrs) =
    (pairs, 0) ∧ pairs.Perm (attrs.filterMap nonNull)
  readAttr_none : ∀ info key, storage.readAttr info key = none
  escapeKey_same : ∀ key, storage.escapeKey key = key

@[simp] theorem set_groups_same (group : Attrgroup σ) : (world.set id group).groups id = group :=
  update_self _ _ _

theorem set_groups_other (other : Nat) (group : Attrgroup σ) (differs : other ≠ id) :
    (world.set id group).groups other = world.groups other :=
  update_of_ne differs _ _

theorem setAccessed_groups :
    (attrgroupSetAccessed now world id).groups = update world.groups id
      { world.groups id with accessed := true, lastaccess := now } := rfl

theorem setDirty_groups :
    (attrgroupSetDirty now world id).groups = update world.groups id
      { world.groups id with
        dirty := true
        dirtytime := if (world.groups id).dirty then (world.groups id).dirtytime else now } := by
  unfold attrgroupSetDirty
  by_cases already : (world.groups id).dirty = true
  · have same : ({ world.groups id with dirty := true } : Attrgroup σ) = world.groups id := by
      rw [← already]
    rw [if_pos already, if_pos already]
    exact ((congrArg (update world.groups id) same).trans
      (update_eq_self id world.groups)).symm
  · rw [if_neg already, if_neg already]
    rfl

theorem clearDirty_groups :
    (attrgroupClearDirty world id).groups = update world.groups id
      { world.groups id with dirty := false } := by
  unfold attrgroupClearDirty
  by_cases marked : (world.groups id).dirty = true
  · rw [if_pos marked]
    rfl
  have same : ({ world.groups id with dirty := false } : Attrgroup σ) = world.groups id := by
    rw [← eq_false_iff.mpr marked]
  rw [if_neg marked]
  exact ((congrArg (update world.groups id) same).trans
    (update_eq_self id world.groups)).symm

theorem setLoaded_groups :
    (attrgroupSetLoaded world id).groups = update world.groups id
      { world.groups id with loaded := true } := by
  unfold attrgroupSetLoaded
  by_cases already : (world.groups id).loaded = true
  · have same : ({ world.groups id with loaded := true } : Attrgroup σ) = world.groups id := by
      rw [← already]
    rw [if_pos already]
    exact ((congrArg (update world.groups id) same).trans
      (update_eq_self id world.groups)).symm
  · rw [if_neg already]
    rfl

structure Settled (id : Nat) (before after : World σ) (old new : Text → Option Text) : Prop where
  frame : ∀ other, other ≠ id → after.groups other = before.groups other
  loaded : (after.groups id).loaded = true
  storage : (after.groups id).storage = (before.groups id).storage
  cached : Cached (after.groups id).list new
  clean : (after.groups id).dirty = false → (before.groups id).dirty = false ∧ new = old

variable {new : Text → Option Text} (pairs : List (Text × Text)) {after : World σ}
  {old : Text → Option Text}

theorem Settled.trans {id : Nat} {first second third : World σ} {middle : Text → Option Text}
    (left : Settled id first second old middle) (right : Settled id second third middle new) :
    Settled id first third old new where
  frame := fun other differs => (right.frame other differs).trans (left.frame other differs)
  loaded := right.loaded
  storage := right.storage.trans left.storage
  cached := right.cached
  clean := fun unmarked => by
    obtain ⟨stillUnmarked, same⟩ := right.clean unmarked
    obtain ⟨wasUnmarked, earlier⟩ := left.clean stillUnmarked
    exact ⟨wasUnmarked, same.trans earlier⟩

def Finds (nodes : List (Nat × Attr)) (key : Text) : Option Nat → Prop
  | some address => ∃ node ∈ nodes, node.1 = address ∧
      node.2.key.map canonical = some (canonical key)
  | none => ∀ node ∈ nodes, node.2.key.map canonical ≠ some (canonical key)

theorem search_cached {list : Hlist Attr} (cached : Cached list values) (key : Text)
    (escaped : key.map tolower = canonical key) :
    ∃ found changed nodes, search (sameKey key) list = some (found, changed) ∧
      Holds changed nodes ∧ Caches nodes values ∧ Finds nodes key found := by
  obtain ⟨nodes, holds, caches⟩ := cached
  let check : Attr → Bool := fun attr => attr.key.map canonical = some (canonical key)
  have known : ∀ node ∈ nodes, sameKey key node.2 = some (check node.2) := by
    intro node member
    obtain ⟨own, ownIs, ownEscaped⟩ := caches.keyed node member
    simp [sameKey, check, ownIs, ownEscaped, escaped]
  obtain ⟨changed, after, searched, afterHolds, perm⟩ := search_holds check holds known
  refine ⟨_, changed, after, searched, afterHolds, caches.perm perm, ?_⟩
  cases found : nodes.find? fun node => check node.2 with
  | none =>
    intro node member same
    have missed := find?_eq_none.mp found node (perm.subset member)
    exact missed (decide_eq_true same)
  | some node =>
    exact ⟨node, perm.symm.subset (mem_of_find?_eq_some found), rfl,
      of_decide_eq_true (find?_some (p := fun node : Nat × Attr => check node.2) found)⟩

theorem lookup_attr_cached (plain : PlainStorage server.storage) (world : World σ) (id : Nat)
    (key : Text) (escaped : key.map tolower = canonical key)
    (cached : Cached (world.groups id).list values) :
    ∃ found list nodes, lookupAttr server world id key =
        some (found, world.set id { world.groups id with list := list }) ∧
      Holds list nodes ∧ Caches nodes values ∧ Finds nodes key found := by
  obtain ⟨found, list, nodes, searched, holds, caches, finds⟩ := search_cached cached key escaped
  refine ⟨found, list, nodes, ?_, holds, caches, finds⟩
  unfold lookupAttr
  simp only [searched, bind_eq_bind]
  cases found with
  | some address => rfl
  | none => simp [plain.readAttr_none]

theorem find_attr_loaded (plain : PlainStorage server.storage) (now : Int) (world : World σ)
    (id : Nat) (key : Text) (escape : Bool)
    (escaped : escape = false → key.map tolower = canonical key)
    (loads : loadGroup world id = some (0, world)) (loaded : (world.groups id).loaded = true)
    (cached : Cached (world.groups id).list values) :
    ∃ found newkey after nodes, findAttrWith loadGroup server now world id key escape =
        some (found, newkey, after) ∧
      Settled id world after values values ∧ Holds (after.groups id).list nodes ∧
      Caches nodes values ∧ Finds nodes newkey found ∧
      newkey.map tolower = canonical newkey ∧ canonical newkey = canonical key := by
  let newkey := if escape then attrgroupEscapeKey server key else key
  have newkeyIs : newkey.map tolower = canonical newkey ∧ canonical newkey = canonical key := by
    cases escape with
    | false => exact ⟨escaped rfl, rfl⟩
    | true =>
      have escapes : newkey = aliasKey key := plain.escapeKey_same _
      rw [escapes]
      exact ⟨aliasKey_fixed key, canonical_aliasKey key⟩
  have accessedIs : (attrgroupSetAccessed now world id).groups id =
      { world.groups id with accessed := true, lastaccess := now } := by
    rw [setAccessed_groups, update_self]
  have stillCached : Cached ((attrgroupSetAccessed now world id).groups id).list values := by
    rw [accessedIs]
    exact cached
  obtain ⟨found, list, nodes, looked, holds, caches, finds⟩ :=
    lookup_attr_cached server plain (attrgroupSetAccessed now world id) id newkey newkeyIs.1
      stillCached
  let after := (attrgroupSetAccessed now world id).set id
    { (attrgroupSetAccessed now world id).groups id with list := list }
  have afterIs : after.groups id =
      { (attrgroupSetAccessed now world id).groups id with list := list } :=
    set_groups_same _ _ _
  refine ⟨found, newkey, after, nodes, ?_, ?_, ?_, caches, finds, newkeyIs⟩
  · unfold findAttrWith
    simp only [loads, bind_eq_bind, bind_some]
    rw [looked]
    rfl
  · constructor
    · intro other differs
      rw [set_groups_other _ _ _ _ differs, setAccessed_groups, update_of_ne differs]
    · rw [afterIs, accessedIs]
      exact loaded
    · rw [afterIs, accessedIs]
    · rw [afterIs]
      exact ⟨nodes, holds, caches⟩
    · rw [afterIs, accessedIs]
      exact fun unmarked => ⟨unmarked, rfl⟩
  · rw [afterIs]
    exact holds

theorem settled_set_dirty (list : Hlist Attr) (loaded : (world.groups id).loaded = true)
    (cached : Cached list new) :
    Settled id world
      (attrgroupSetDirty now (world.set id { world.groups id with list := list }) id) old new := by
  constructor
  · intro other differs
    rw [setDirty_groups, update_of_ne differs, set_groups_other _ _ _ _ differs]
  · rw [setDirty_groups, update_self, set_groups_same]
    exact loaded
  · rw [setDirty_groups, update_self, set_groups_same]
  · rw [setDirty_groups, update_self, set_groups_same]
    exact cached
  · rw [setDirty_groups, update_self]
    exact fun unmarked => absurd unmarked (by simp)

theorem change_val_settled (val : Option Text) (loaded : (world.groups id).loaded = true)
    (holds : Holds (world.groups id).list nodes) (caches : Caches nodes values) {node : Nat × Attr}
    (member : node ∈ nodes) (keyIs : node.2.key.map canonical = some (canonical key)) :
    ∃ after, changeVal now world id node.1 val = some after ∧
      Settled id world after values (update values (canonical key) val) := by
  obtain ⟨own, ownIs, ownSame⟩ := map_eq_some_iff.mp keyIs
  have valIs := caches.present node member own ownIs
  unfold changeVal
  simp only [holds.2 node member, bind_eq_bind, bind_some]
  by_cases same : node.2.val = val
  · rw [if_pos same]
    refine ⟨world, rfl, fun _ _ => rfl, loaded, rfl, ?_, fun unmarked => ⟨unmarked, ?_⟩⟩
    · rw [← same, ← valIs, ownSame, update_eq_self]
      exact ⟨nodes, holds, caches⟩
    · rw [← same, ← valIs, ownSame, update_eq_self]
  · obtain ⟨list, changed, listHolds⟩ :=
      set_item_holds holds member fun attr => { attr with val := val, dirty := true }
    have listCaches := caches.change (holds_nodup holds) member ownIs val
    rw [ownSame] at listCaches
    rw [if_neg same, changed]
    exact ⟨_, rfl, settled_set_dirty now world id list loaded ⟨_, listHolds, listCaches⟩⟩

theorem create_val_settled (now : Int) (world : World σ) (id : Nat) (key : Text) (val : Option Text)
    (escaped : key.map tolower = canonical key) (loaded : (world.groups id).loaded = true)
    (holds : Holds (world.groups id).list nodes) (caches : Caches nodes values)
    (fresh : ∀ node ∈ nodes, node.2.key.map canonical ≠ some (canonical key)) :
    ∃ after, createVal server now world id key val = some after ∧
      Settled id world after values (update values (canonical key) val) := by
  obtain ⟨created, added, creates, adds, addedHolds⟩ :=
    create_add_holds holds (server.malloc (world.groups id).list.memory) ⟨some key, val, true⟩
      (server.malloc_unused _)
  refine ⟨_, ?_, settled_set_dirty now world id added loaded
    ⟨_, addedHolds, caches.create _ key val escaped fresh⟩⟩
  simp only [createVal, addAttr, creates, adds, bind_eq_bind, bind_some]

theorem set_attr_loaded (plain : PlainStorage server.storage) (now : Int) (world : World σ)
    (id : Nat) (key : Text) (val : Option Text)
    (loads : ∀ world : World σ, (world.groups id).loaded = true →
      loadGroup world id = some (0, world)) (loaded : (world.groups id).loaded = true)
    (cached : Cached (world.groups id).list values) :
    ∃ after, setAttrWith loadGroup server now world id key val = some after ∧
      Settled id world after values (update values (canonical key) val) := by
  obtain ⟨found, newkey, middle, nodes, finding, settled, holds, caches, finds, escaped, same⟩ :=
    find_attr_loaded loadGroup server plain now world id key true (by simp) (loads world loaded)
      loaded cached
  unfold setAttrWith
  simp only [finding, bind_eq_bind]
  cases found with
  | some address =>
    obtain ⟨node, member, rfl, keyIs⟩ := finds
    obtain ⟨after, changes, changed⟩ := change_val_settled now middle id key val settled.loaded
      holds caches member (keyIs.trans (congrArg some same))
    exact ⟨after, changes, settled.trans changed⟩
  | none =>
    obtain ⟨after, creates, created⟩ := create_val_settled server now middle id newkey val escaped
      settled.loaded holds caches finds
    rw [same] at created
    exact ⟨after, creates, settled.trans created⟩

/-! Loading. -/

/-- The values after the callbacks of a read. -/
def replayed (pairs : List (Text × Text)) (values : Text → Option Text) : Text → Option Text :=
  pairs.foldl (fun values pair => Function.update values (canonical pair.1) (some pair.2)) values

theorem replay_settled (setAttr : World σ → Text → Option Text → Option (World σ)) (id : Nat)
    (sets : ∀ world key val (values : Text → Option Text), (world.groups id).loaded = true →
      Cached (world.groups id).list values → ∃ after, setAttr world key val = some after ∧
        Settled id world after values (update values (canonical key) val))
    (pairs : List (Text × Text)) (world : World σ) (loaded : (world.groups id).loaded = true)
    (values : Text → Option Text) (cached : Cached (world.groups id).list values) :
    ∃ after, replay setAttr pairs world = some after ∧
      Settled id world after values (replayed pairs values) := by
  induction pairs generalizing world values with
  | nil => exact ⟨world, rfl, fun _ _ => rfl, loaded, rfl, cached, fun unmarked => ⟨unmarked, rfl⟩⟩
  | cons pair rest ih =>
    obtain ⟨middle, setsIt, settled⟩ := sets world pair.1 (some pair.2) values loaded cached
    obtain ⟨after, replays, later⟩ := ih middle settled.loaded _ settled.cached
    refine ⟨after, ?_, settled.trans later⟩
    simp only [replay, setsIt]
    exact replays

theorem load_loaded (now : Int) (depth : Nat) (world : World σ) (id : Nat)
    (loaded : (world.groups id).loaded = true) :
    loadWithin server now depth world id = some (0, world) := by
  unfold loadWithin
  rw [if_pos loaded]

/-- What is true of a group between the calls: `values` are the values that its keys have. -/
structure GroupHolds (storage : Storage σ) (group : Attrgroup σ)
    (values : Text → Option Text) : Prop where
  unloaded : group.loaded = false → Holds group.list [] ∧ group.dirty = false
  cached : group.loaded = true → Cached group.list values
  stored : group.dirty = false → ∃ pairs, storage.readAttrs group.storage = (pairs, 0) ∧
    replayed pairs (fun _ => none) = values

/-- One call changes one group, which is loaded afterwards. -/
structure Loaded (storage : Storage σ) (id : Nat) (before after : World σ)
    (values : Text → Option Text) : Prop where
  frame : ∀ other, other ≠ id → after.groups other = before.groups other
  loaded : (after.groups id).loaded = true
  holds : GroupHolds storage (after.groups id) values

variable {storage : Storage σ}

theorem Settled.holds {id : Nat} {before : World σ} (settled : Settled id before after old new)
    (stored : (before.groups id).dirty = false → ∃ pairs,
      storage.readAttrs (before.groups id).storage = (pairs, 0) ∧
        replayed pairs (fun _ => none) = old) :
    Loaded storage id before after new where
  frame := settled.frame
  loaded := settled.loaded
  holds := {
    unloaded := fun unloaded => absurd (unloaded.symm.trans settled.loaded) (by simp)
    cached := fun _ => settled.cached
    stored := fun unmarked => by
      obtain ⟨wasUnmarked, same⟩ := settled.clean unmarked
      rw [settled.storage, same]
      exact stored wasUnmarked }

theorem load_holds (plain : PlainStorage server.storage) (now : Int) (world : World σ) (id : Nat)
    (holds : GroupHolds server.storage (world.groups id) values) :
    ∃ after, attrgroupLoad server now world id = some (0, after) ∧
      Loaded server.storage id world after values := by
  by_cases loaded : (world.groups id).loaded = true
  · exact ⟨world, load_loaded server now 1 world id loaded, fun _ _ => rfl, loaded, holds⟩
  have unloaded := eq_false_iff.mpr loaded
  obtain ⟨emptyList, unmarked⟩ := holds.unloaded unloaded
  obtain ⟨pairs, reads, replayedIs⟩ := holds.stored unmarked
  have startIs : (attrgroupSetLoaded world id).groups id =
      { world.groups id with loaded := true } := by
    rw [setLoaded_groups, update_self]
  obtain ⟨middle, replays, settled⟩ := replay_settled
    (fun world key val => setAttrWith (loadWithin server now 0) server now world id key val) id
    (fun world key val values loaded cached => set_attr_loaded _ server plain now world id key val
      (fun world loaded => load_loaded server now 0 world id loaded) loaded cached)
    pairs (attrgroupSetLoaded world id) (by rw [startIs]) (fun _ => none)
    (by rw [startIs]; exact ⟨[], emptyList, caches_empty⟩)
  have afterIs : (attrgroupClearDirty middle id).groups id =
      { middle.groups id with dirty := false } := by
    rw [clearDirty_groups, update_self]
  refine ⟨attrgroupClearDirty middle id, ?_, ?_, ?_, ?_⟩
  · unfold attrgroupLoad loadWithin
    rw [if_neg loaded, if_neg (by simp [unmarked])]
    simp only [reads, replays, bind_eq_bind, bind_some, ne_eq, not_true_eq_false, if_false]
  · intro other differs
    rw [clearDirty_groups, update_of_ne differs, settled.frame other differs,
      setLoaded_groups, update_of_ne differs]
  · rw [afterIs]
    exact settled.loaded
  · rw [afterIs]
    refine ⟨fun unloaded => absurd (unloaded.symm.trans settled.loaded) (by simp), fun _ => ?_,
      fun _ => ⟨pairs, ?_, replayedIs⟩⟩
    · rw [← replayedIs]
      exact settled.cached
    · rw [settled.storage, startIs]
      exact reads

theorem find_attr_after_load (now : Int) (world middle : World σ) (id : Nat) (key : Text)
    (escape : Bool) (loads : loadGroup world id = some (0, middle)) :
    findAttrWith loadGroup server now world id key escape =
      findAttrWith (fun world _ => some (0, world)) server now middle id key escape := by
  simp only [findAttrWith, loads]

theorem set_attr_holds (plain : PlainStorage server.storage) (now : Int) (world : World σ)
    (id : Nat) (key : Text) (val : Option Text)
    (holds : GroupHolds server.storage (world.groups id) values) :
    ∃ after, attrgroupSetAttr server now world id key val = some after ∧
      Loaded server.storage id world after (update values (canonical key) val) := by
  obtain ⟨middle, loads, loaded⟩ := load_holds server plain now world id holds
  obtain ⟨after, sets, settled⟩ := set_attr_loaded (fun world _ => some (0, world)) server plain now
    middle id key val (fun _ _ => rfl) loaded.loaded (loaded.holds.cached loaded.loaded)
  have done := settled.holds loaded.holds.stored
  refine ⟨after, ?_, fun other differs => ?_, done.loaded, done.holds⟩
  · rw [← sets]
    unfold attrgroupSetAttr setAttrWith
    rw [find_attr_after_load _ server now world middle id key true loads]
  · rw [done.frame other differs, loaded.frame other differs]

theorem own_val_holds (plain : PlainStorage server.storage) (now : Int) (world : World σ) (id : Nat)
    (key : Text) (escape : Bool) (escaped : escape = false → key.map tolower = canonical key)
    (holds : GroupHolds server.storage (world.groups id) values) :
    ∃ newkey after, ownVal server now world id key escape =
        some (values (canonical key), newkey, after) ∧
      Loaded server.storage id world after values ∧
      newkey.map tolower = canonical newkey ∧ canonical newkey = canonical key := by
  obtain ⟨middle, loads, loaded⟩ := load_holds server plain now world id holds
  obtain ⟨found, newkey, after, nodes, finding, settled, listHolds, caches, finds, newkeyIs⟩ :=
    find_attr_loaded (fun world _ => some (0, world)) server plain now middle id key escape escaped
      rfl loaded.loaded (loaded.holds.cached loaded.loaded)
  have done := settled.holds loaded.holds.stored
  refine ⟨newkey, after, ?_, ⟨fun other differs => ?_, done.loaded, done.holds⟩, newkeyIs⟩
  · unfold ownVal
    rw [find_attr_after_load _ server now world middle id key escape loads]
    simp only [finding, bind_eq_bind, bind_some]
    rw [← newkeyIs.2]
    cases found with
    | none => rw [caches.absent _ finds]
    | some address =>
      obtain ⟨node, member, rfl, keyIs⟩ := finds
      obtain ⟨own, ownIs, ownSame⟩ := map_eq_some_iff.mp keyIs
      rw [← ownSame, caches.present node member own ownIs]
      simp only [listHolds.2 node member, bind_some]
  · rw [done.frame other differs, loaded.frame other differs]

def WorldHolds (storage : Storage σ) (world : World σ) (values : Nat → Text → Option Text) :
    Prop :=
  ∀ id, GroupHolds storage (world.groups id) (values id)

theorem WorldHolds.change {world : World σ} {values : Nat → Text → Option Text}
    (holds : WorldHolds storage world values) (id : Nat)
    (frame : ∀ other, other ≠ id → after.groups other = world.groups other)
    (changed : GroupHolds storage (after.groups id) new) :
    WorldHolds storage after (update values id new) := by
  intro other
  by_cases same : other = id
  · rw [same, update_self]
    exact changed
  · rw [update_of_ne same, frame other same]
    exact holds other

theorem WorldHolds.keep {world : World σ} {values : Nat → Text → Option Text}
    (holds : WorldHolds storage world values) (id : Nat)
    (frame : ∀ other, other ≠ id → after.groups other = world.groups other)
    (kept : GroupHolds storage (after.groups id) (values id)) :
    WorldHolds storage after values := by
  have changed := holds.change id frame kept
  rwa [update_eq_self] at changed

theorem get_attr_holds (plain : PlainStorage server.storage) (now : Int) (world : World σ)
    (id : Nat) (key : Text) {values : Nat → Text → Option Text}
    (holds : WorldHolds server.storage world values) :
    ∃ after, attrgroupGetAttr server now world id key =
        some ((values id (canonical key)).or (values server.defattrs (canonical key)), after) ∧
      WorldHolds server.storage after values := by
  obtain ⟨newkey, middle, own, loaded, escaped, same⟩ :=
    own_val_holds server plain now world id key true (by simp) (holds id)
  have middleHolds := holds.keep id loaded.frame loaded.holds
  unfold attrgroupGetAttr
  simp only [own, bind_eq_bind, bind_some]
  cases valIs : values id (canonical key) with
  | some val => exact ⟨middle, by simp, middleHolds⟩
  | none =>
    by_cases default : id = server.defattrs
    · refine ⟨middle, ?_, middleHolds⟩
      rw [if_neg (by simp [default]), ← default, valIs]
      rfl
    obtain ⟨_, after, fallback, fallbackLoaded, _⟩ := own_val_holds server plain now middle
      server.defattrs newkey false (fun _ => escaped) (middleHolds server.defattrs)
    refine ⟨after, ?_, middleHolds.keep _ fallbackLoaded.frame fallbackLoaded.holds⟩
    rw [if_pos ⟨rfl, default⟩, fallback, same]
    rfl

/-! Writing back. -/

theorem replayed_absent (values : Text → Option Text) (key : Text)
    (outside : ∀ pair ∈ pairs, canonical pair.1 ≠ key) :
    replayed pairs values key = values key := by
  induction pairs generalizing values with
  | nil => rfl
  | cons pair rest ih =>
    have first : key ≠ canonical pair.1 := (outside pair mem_cons_self).symm
    exact (ih _ fun other member => outside other (mem_cons_of_mem _ member)).trans
      (update_of_ne first _ _)

theorem replayed_present (values : Text → Option Text)
    (distinct : (pairs.map fun pair => canonical pair.1).Nodup) (pair : Text × Text)
    (member : pair ∈ pairs) : replayed pairs values (canonical pair.1) = some pair.2 := by
  induction pairs generalizing values with
  | nil => cases member
  | cons first rest ih =>
    obtain ⟨outside, others⟩ := nodup_cons.mp distinct
    rcases mem_cons.mp member with rfl | later
    · refine (replayed_absent rest _ _ fun other otherIn same => ?_).trans
        (update_self _ _ _)
      exact outside (mem_map.mpr ⟨other, otherIn, same⟩)
    · exact ih _ others later

theorem nonNull_key {attr : Attr} {pair : Text × Text} (written : nonNull attr = some pair) :
    attr.key = some pair.1 ∧ attr.val = some pair.2 := by
  unfold nonNull at written
  split at written
  · rename_i key val keyIs valIs
    cases written
    exact ⟨keyIs, valIs⟩
  · cases written

theorem written_values (caches : Caches nodes values) (pairs : List (Text × Text))
    (written : pairs.Perm ((nodes.map snd).filterMap nonNull)) :
    replayed pairs (fun _ => none) = values := by
  have source {pair : Text × Text} (member : pair ∈ pairs) :
      ∃ node ∈ nodes, node.2.key = some pair.1 ∧ node.2.val = some pair.2 := by
    obtain ⟨attr, attrIn, attrIs⟩ := mem_filterMap.mp (written.subset member)
    obtain ⟨node, nodeIn, rfl⟩ := mem_map.mp attrIn
    exact ⟨node, nodeIn, nonNull_key attrIs⟩
  have distinct : (pairs.map fun pair => canonical pair.1).Nodup := by
    have keys := pairwise_map.mp caches.distinct
    refine (written.map _).nodup_iff.mpr ?_
    rw [Nodup, pairwise_map, pairwise_filterMap, pairwise_map]
    refine keys.imp fun differs left leftIs right rightIs same => differs ?_
    rw [(nonNull_key leftIs).1, (nonNull_key rightIs).1, map_some, map_some, same]
  funext key
  cases valIs : values key with
  | none =>
    refine replayed_absent pairs _ key fun pair member same => ?_
    obtain ⟨node, nodeIn, keyIs, nodeVal⟩ := source member
    have known := caches.present node nodeIn pair.1 keyIs
    rw [same, valIs, nodeVal] at known
    cases known
  | some val =>
    by_contra wrong
    have absent := caches.absent key fun node nodeIn keyIs => by
      obtain ⟨own, ownIs, ownSame⟩ := map_eq_some_iff.mp keyIs
      have known := caches.present node nodeIn own ownIs
      rw [ownSame, valIs] at known
      have writes : nonNull node.2 = some (own, val) := by
        simp [nonNull, ownIs, ← known]
      have member : (own, val) ∈ pairs := written.symm.subset
        (mem_filterMap.mpr ⟨node.2, mem_map_of_mem nodeIn, writes⟩)
      have reads := replayed_present pairs (fun _ => none) distinct (own, val) member
      rw [ownSame] at reads
      exact wrong reads
    rw [valIs] at absent
    cases absent

theorem Caches.clear (caches : Caches nodes values) :
    Caches (nodes.map fun node => (node.1, node.2.clearDirty)) values where
  keyed := by
    intro node member
    obtain ⟨source, sourceIn, rfl⟩ := mem_map.mp member
    exact caches.keyed source sourceIn
  distinct := by
    rw [List.map_map]
    exact caches.distinct
  present := by
    intro node member
    obtain ⟨source, sourceIn, rfl⟩ := mem_map.mp member
    exact caches.present source sourceIn
  absent := fun key outside => caches.absent key fun node member =>
    outside (node.1, node.2.clearDirty) (mem_map.mpr ⟨node, member, rfl⟩)

theorem save_holds (plain : PlainStorage server.storage) (now : Int) (world : World σ) (id : Nat)
    (force : Bool) (holds : GroupHolds server.storage (world.groups id) values) :
    ∃ code after, attrgroupSave server now world id force = some (code, after) ∧
      (∀ other, other ≠ id → after.groups other = world.groups other) ∧
      (after.groups id).loaded = (world.groups id).loaded ∧
      (force = true → (after.groups id).dirty = false) ∧
      GroupHolds server.storage (after.groups id) values := by
  have same (unmarked : force = true → (world.groups id).dirty = false) :
      ∃ code after, some ((0 : Int), world) = some (code, after) ∧
        (∀ other, other ≠ id → after.groups other = world.groups other) ∧
        (after.groups id).loaded = (world.groups id).loaded ∧
        (force = true → (after.groups id).dirty = false) ∧
        GroupHolds server.storage (after.groups id) values :=
    ⟨0, world, rfl, fun _ _ => rfl, rfl, unmarked, holds⟩
  unfold attrgroupSave
  by_cases loaded : (world.groups id).loaded = true
  · rw [if_neg (by simp [loaded])]
    by_cases dirty : (world.groups id).dirty = true
    · rw [if_neg (by simp [dirty])]
      split
      · rename_i early
        exact same fun forced => by simp [forced] at early
      obtain ⟨nodes, listHolds, caches⟩ := holds.cached loaded
      obtain ⟨list, visits, visitedHolds⟩ := visit_holds listHolds Attr.clearDirty
      obtain ⟨pairs, reads, written⟩ :=
        plain.reads_written (world.groups id).storage (nodes.map snd)
      simp only [visits, bind_eq_bind]
      refine ⟨1, _, rfl, fun other differs => ?_, ?_, fun _ => ?_, ?_⟩
      · rw [clearDirty_groups, update_of_ne differs, set_groups_other _ _ _ _ differs]
      · rw [clearDirty_groups, update_self, set_groups_same]
      · rw [clearDirty_groups, update_self]
      · rw [clearDirty_groups, update_self, set_groups_same]
        exact ⟨fun unloaded => absurd (loaded.symm.trans unloaded) (by simp),
          fun _ => ⟨_, visitedHolds, caches.clear⟩,
          fun _ => ⟨pairs, reads, written_values caches pairs written⟩⟩
    · rw [if_pos (by simp [dirty])]
      exact same fun _ => eq_false_iff.mpr dirty
  · rw [if_pos (by simp [loaded])]
    exact same fun _ => (holds.unloaded (eq_false_iff.mpr loaded)).2

theorem clearLoaded_groups (loaded : (world.groups id).loaded = true) :
    (attrgroupClearLoaded world id).groups = update world.groups id
      { world.groups id with loaded := false, accessed := false, dirty := false } := by
  unfold attrgroupClearLoaded attrgroupClearAccessed World.set
  rw [if_pos loaded]
  dsimp only
  rw [clearDirty_groups, update_self, update_idem, update_self, update_idem]

theorem flush_holds (plain : PlainStorage server.storage) (now : Int) (world : World σ) (id : Nat)
    (force : Bool) (holds : GroupHolds server.storage (world.groups id) values) :
    ∃ code after, attrgroupFlush server now world id force = some (code, after) ∧
      (∀ other, other ≠ id → after.groups other = world.groups other) ∧
      GroupHolds server.storage (after.groups id) values := by
  unfold attrgroupFlush
  by_cases loaded : (world.groups id).loaded = true
  · rw [if_neg (by simp [loaded])]
    split
    · exact ⟨0, world, rfl, fun _ _ => rfl, holds⟩
    obtain ⟨code, saved, saves, frame, stillLoaded, unmarked, savedHolds⟩ :=
      save_holds server plain now world id true holds
    have savedLoaded : (saved.groups id).loaded = true := stillLoaded.trans loaded
    obtain ⟨nodes, listHolds, _⟩ := savedHolds.cached savedLoaded
    obtain ⟨freed, frees⟩ := destroy_holds listHolds
    simp only [saves, frees, bind_eq_bind, bind_some]
    have clearable : ((saved.set id { saved.groups id with list := hlistInit freed }).groups
        id).loaded = true := by
      rw [set_groups_same]
      exact savedLoaded
    refine ⟨1, _, rfl, fun other differs => ?_, ?_⟩
    · rw [clearLoaded_groups _ _ clearable, update_of_ne differs,
        set_groups_other _ _ _ _ differs, frame other differs]
    · rw [clearLoaded_groups _ _ clearable, update_self, set_groups_same]
      exact ⟨fun _ => ⟨holds_init freed, rfl⟩, fun loaded => absurd loaded (by simp),
        fun _ => savedHolds.stored (unmarked rfl)⟩
  · rw [if_pos (by simp [loaded])]
    exact ⟨0, world, rfl, fun _ _ => rfl, holds⟩

/-! The runs. -/

/-- The calls, each with its time and its group; a load comes with the first lookup. -/
inductive Event
  | get (now : Int) (id : Nat) (key : Text)
  | set (now : Int) (id : Nat) (key : Text) (val : Option Text)
  | save (now : Int) (id : Nat) (force : Bool)
  | flush (now : Int) (id : Nat) (force : Bool)

def step (server : Server σ) (world : World σ) : Event → Option (World σ)
  | .get now id key => (attrgroupGetAttr server now world id key).map snd
  | .set now id key val => attrgroupSetAttr server now world id key val
  | .save now id force => (attrgroupSave server now world id force).map snd
  | .flush now id force => (attrgroupFlush server now world id force).map snd

def run (server : Server σ) : List Event → World σ → Option (World σ)
  | [], world => some world
  | event :: rest, world => do
    let world ← step server world event
    run server rest world

/-- The value an event sets for a key of a group. -/
def setsVal (id : Nat) (key : Text) : Event → Option (Option Text)
  | .set _ other own val => if other = id ∧ canonical own = canonical key then some val else none
  | _ => none

def initialVal (pairs : List (Text × Text)) (key : Text) : Option Text :=
  (pairs.reverse.find? fun pair => canonical pair.1 = canonical key).map snd

def latestVal (initial : Nat → List (Text × Text)) (events : List Event) (id : Nat) (key : Text) :
    Option Text :=
  (events.reverse.findSome? (setsVal id key)).getD (initialVal (initial id) key)

/-- A group before its first use: not loaded, or of a new account and loaded with nothing. -/
structure Fresh (storage : Storage σ) (group : Attrgroup σ) (pairs : List (Text × Text)) :
    Prop where
  list : group.list.next = none
  dirty : group.dirty = false
  stored : storage.readAttrs group.storage = (pairs, 0)
  born : group.loaded = true → pairs = []

def applied (values : Nat → Text → Option Text) : Event → Nat → Text → Option Text
  | .set _ id key val => Function.update values id (Function.update (values id) (canonical key) val)
  | _ => values

theorem fresh_holds (storage : Storage σ) (group : Attrgroup σ) (pairs : List (Text × Text))
    (fresh : Fresh storage group pairs) :
    GroupHolds storage group (replayed pairs fun _ => none) := by
  have empty : Holds group.list [] := ⟨fresh.list, fun _ member => absurd member not_mem_nil⟩
  refine ⟨fun _ => ⟨empty, fresh.dirty⟩, fun loaded => ?_, fun _ => ⟨pairs, fresh.stored, rfl⟩⟩
  rw [fresh.born loaded]
  exact ⟨[], empty, caches_empty⟩

theorem step_holds (plain : PlainStorage server.storage) (world : World σ)
    (values : Nat → Text → Option Text) (holds : WorldHolds server.storage world values)
    (event : Event) :
    ∃ after, step server world event = some after ∧
      WorldHolds server.storage after (applied values event) := by
  cases event with
  | get now id key =>
    obtain ⟨after, gets, afterHolds⟩ := get_attr_holds server plain now world id key holds
    exact ⟨after, by rw [step, gets, map_some], afterHolds⟩
  | set now id key val =>
    obtain ⟨after, sets, loaded⟩ := set_attr_holds server plain now world id key val (holds id)
    exact ⟨after, sets, holds.change id loaded.frame loaded.holds⟩
  | save now id force =>
    obtain ⟨code, after, saves, frame, _, _, kept⟩ :=
      save_holds server plain now world id force (holds id)
    exact ⟨after, by rw [step, saves, map_some], holds.keep id frame kept⟩
  | flush now id force =>
    obtain ⟨code, after, flushes, frame, kept⟩ :=
      flush_holds server plain now world id force (holds id)
    exact ⟨after, by rw [step, flushes, map_some], holds.keep id frame kept⟩

theorem run_holds (plain : PlainStorage server.storage) (events : List Event) (world : World σ)
    (values : Nat → Text → Option Text) (holds : WorldHolds server.storage world values) :
    ∃ after, run server events world = some after ∧
      WorldHolds server.storage after (events.foldl applied values) := by
  induction events generalizing world values with
  | nil => exact ⟨world, rfl, holds⟩
  | cons event rest ih =>
    obtain ⟨middle, steps, middleHolds⟩ := step_holds server plain world values holds event
    obtain ⟨after, runs, afterHolds⟩ := ih middle _ middleHolds
    refine ⟨after, ?_, afterHolds⟩
    simp only [run, steps]
    exact runs

theorem applied_val (values : Nat → Text → Option Text) (event : Event) (id : Nat) (key : Text) :
    applied values event id (canonical key) =
      (setsVal id key event).getD (values id (canonical key)) := by
  cases event with
  | set now other own val =>
    dsimp only [applied, setsVal]
    by_cases sameGroup : id = other
    · rw [sameGroup, update_self]
      by_cases sameKey : canonical key = canonical own
      · rw [sameKey, update_self, if_pos ⟨rfl, rfl⟩, getD_some]
      · rw [update_of_ne sameKey, if_neg fun both => sameKey both.2.symm, getD_none]
    · rw [update_of_ne sameGroup, if_neg fun both => sameGroup both.1.symm, getD_none]
  | get => rfl
  | save => rfl
  | flush => rfl

theorem applied_all_val (events : List Event) (values : Nat → Text → Option Text) (id : Nat)
    (key : Text) : events.foldl applied values id (canonical key) =
      (events.reverse.findSome? (setsVal id key)).getD (values id (canonical key)) := by
  induction events generalizing values with
  | nil => rfl
  | cons event rest ih =>
    rw [foldl_cons, ih, applied_val, reverse_cons, findSome?_append]
    cases rest.reverse.findSome? (setsVal id key) with
    | some val => rfl
    | none => cases single : setsVal id key event <;> simp [single]

theorem replayed_val (values : Text → Option Text) (key : Text) :
    replayed pairs values (canonical key) =
      ((pairs.reverse.find? fun pair => canonical pair.1 = canonical key).map snd).or
        (values (canonical key)) := by
  induction pairs generalizing values with
  | nil => rfl
  | cons pair rest ih =>
    refine (ih _).trans ?_
    rw [reverse_cons, find?_append, map_or]
    cases rest.reverse.find? fun pair => canonical pair.1 = canonical key with
    | some found => rfl
    | none =>
      by_cases same : canonical pair.1 = canonical key
      · simp [same]
      · simp [same, update_of_ne (Ne.symm same)]

/-- After any calls a lookup gives the latest value set for its key, of this group or else of the
default group. -/
theorem get_latest (server : Server σ) (plain : PlainStorage server.storage) (world : World σ)
    (initial : Nat → List (Text × Text))
    (fresh : ∀ id, Fresh server.storage (world.groups id) (initial id)) (events : List Event) :
    ∃ after, run server events world = some after ∧ ∀ now id key, ∃ last,
      attrgroupGetAttr server now after id key =
        some ((latestVal initial events id key).or (latestVal initial events server.defattrs key),
          last) := by
  have latest (id : Nat) (key : Text) :
      events.foldl applied (fun id => replayed (initial id) fun _ => none) id (canonical key) =
        latestVal initial events id key := by
    rw [applied_all_val, replayed_val, or_none]
    rfl
  obtain ⟨after, runs, holds⟩ := run_holds server plain events world _ fun id =>
    fresh_holds server.storage (world.groups id) (initial id) (fresh id)
  refine ⟨after, runs, fun now id key => ?_⟩
  obtain ⟨last, gets, _⟩ := get_attr_holds server plain now after id key holds
  rw [latest, latest] at gets
  exact ⟨last, gets⟩

/-- A storage that keeps the pairs it was given, and an allocator that goes past what is used. -/
def memoryServer : Server (List (Text × Text)) where
  storage := {
    readAttrs := fun info => (info, 0)
    readAttr := fun _ _ => none
    writeAttrs := fun _ attrs => attrs.filterMap nonNull
    escapeKey := fun key => key }
  defattrs := 0
  userSyncTimer := 300
  userFlushTimer := 1000
  malloc := fun memory => memory.keys.max?.getD 0 + 1
  malloc_unused := fun memory => by
    refine AList.lookup_eq_none.mpr fun member => ?_
    have largest := le_max?_getD_of_mem (k := 0) member
    omega

theorem memoryServer_plain : PlainStorage memoryServer.storage where
  reads_written := fun _ _ => ⟨_, rfl, Perm.refl _⟩
  readAttr_none := fun _ _ => rfl
  escapeKey_same := fun _ => rfl

def rankKey : Text := text "Record\\rank"

def samplePairs (id : Nat) : List (Text × Text) := if id = 0 then [(rankKey, text "0")] else []

def sampleWorld : World (List (Text × Text)) where
  groups := fun id => ⟨⟨none, ∅⟩, samplePairs id, false, false, false, 0, 0⟩
  loadedlist := elistInit _
  dirtylist := elistInit _

def sampleEvents : List Event :=
  [.set 10 1 (text "DynKey\\rank") (some (text "7")), .flush 20 1 true]

theorem get_latest_sample : ∃ after, run memoryServer sampleEvents sampleWorld = some after ∧
    (∃ last, attrgroupGetAttr memoryServer 30 after 1 (text "record\\RANK") =
      some (some (text "7"), last)) ∧
    ∃ last, attrgroupGetAttr memoryServer 30 after 2 (text "record\\RANK") =
      some (some (text "0"), last) := by
  obtain ⟨after, runs, gets⟩ := get_latest memoryServer memoryServer_plain sampleWorld samplePairs
    (fun id => ⟨rfl, rfl, rfl, fun loaded => by cases loaded⟩) sampleEvents
  refine ⟨after, runs, ?_, ?_⟩
  · obtain ⟨last, got⟩ := gets 30 1 (text "record\\RANK")
    exact ⟨last, got.trans (congrArg (fun val => some (val, last)) (by decide))⟩
  · obtain ⟨last, got⟩ := gets 30 2 (text "record\\RANK")
    exact ⟨last, got.trans (congrArg (fun val => some (val, last)) (by decide))⟩

end Pvpgn.AttrGroup
