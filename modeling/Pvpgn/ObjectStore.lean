import Pvpgn.ObjectList

/-!
Objects in the order of a list, with an allocator behind them. No address is given out twice, so
that a use of an object that was freed never meets a newer one.
-/

namespace Pvpgn.ObjectStore
open ObjectList List
open LinkedList (cursorBehind)

structure Store (Object : Type) where
  objects : Objects Object
  allocated : Nat
  distinct : (addresses objects).Nodup
  below : ∀ address ∈ addresses objects, address < allocated

namespace Store
variable {Object : Type}

def empty : Store Object := ⟨[], 0, nodup_nil, by simp⟩

def get (store : Store Object) (address : Nat) : Option Object := find store.objects address

theorem distinct_append (store : Store Object) (object : Object) :
    (addresses (store.objects ++ [(store.allocated, object)])).Nodup := by
  rw [addresses_append]
  apply store.distinct.append (by simp)
  intro address member last
  rw [addresses_cons, addresses_nil, mem_singleton] at last
  exact Nat.ne_of_lt (store.below address member) last

def append (store : Store Object) (object : Object) : Store Object where
  objects := store.objects ++ [(store.allocated, object)]
  allocated := store.allocated + 1
  distinct := store.distinct_append object
  below := by
    intro address member
    rcases mem_append.mp (addresses_append _ _ ▸ member) with old | new
    · exact Nat.lt_succ_of_lt (store.below address old)
    · simp at new
      omega

def edit (store : Store Object) (address : Nat) (change : Object → Object) : Store Object where
  objects := ObjectList.change store.objects address change
  allocated := store.allocated
  distinct := by
    rw [addresses_change]
    exact store.distinct
  below := by
    rw [addresses_change]
    exact store.below

def free (store : Store Object) (address : Nat) : Store Object where
  objects := without store.objects address
  allocated := store.allocated
  distinct := without_distinct address store.distinct
  below := fun other member =>
    store.below other (((without_sublist store.objects address).map Prod.fst).subset member)

variable (store : Store Object) (address other : Nat)

theorem get_mem {object : Object} :
    store.get address = some object ↔ (address, object) ∈ store.objects :=
  ⟨find_mem, mem_find store.distinct⟩

theorem get_listed : (∃ object, store.get address = some object) ↔
    address ∈ addresses store.objects := by
  constructor
  · rintro ⟨object, found⟩
    exact mem_map_of_mem (find_mem found)
  · exact find_listed

@[simp] theorem get_empty : (empty : Store Object).get address = none := rfl

@[simp] theorem get_allocated : store.get store.allocated = none :=
  find_none.mpr fun listed => Nat.lt_irrefl _ (store.below _ listed)

theorem get_append (object : Object) : (store.append object).get other =
    if other = store.allocated then some object else store.get other := by
  rw [get, append, find_append, get]
  by_cases new : other = store.allocated
  · have absent := store.get_allocated
    rw [get] at absent
    rw [new, absent, if_pos rfl, Option.none_or]
    simp [find]
  · have last : find [(store.allocated, object)] other = none := by
      simpa [find_none] using new
    rw [last, Option.or_none, if_neg new]

theorem get_edit (change : Object → Object) : (store.edit address change).get other =
    if other = address then (store.get other).map change else store.get other :=
  find_change store.objects address other change

@[simp] theorem addresses_edit (change : Object → Object) :
    addresses (store.edit address change).objects = addresses store.objects :=
  addresses_change store.objects address change

theorem get_free : (store.free address).get other =
    if other = address then none else store.get other :=
  find_without store.objects address other

@[simp] theorem append_allocated (object : Object) :
    (store.append object).allocated = store.allocated + 1 := rfl

@[simp] theorem append_objects (object : Object) :
    (store.append object).objects = store.objects ++ [(store.allocated, object)] := rfl

section Split
variable {store address} {front back : Objects Object} {object : Object}

theorem get_split (split : store.objects = front ++ (address, object) :: back) :
    store.get address = some object :=
  (store.get_mem address).mpr (by simp [split])

theorem edit_split (change : Object → Object)
    (split : store.objects = front ++ (address, object) :: back) :
    (store.edit address change).objects = front ++ (address, change object) :: back := by
  have distinct := store.distinct
  rw [split] at distinct
  have same : (store.edit address change).objects = ObjectList.change store.objects address change :=
    rfl
  rw [same, split, change_split change distinct]

theorem free_split (split : store.objects = front ++ (address, object) :: back) :
    (store.free address).objects = front ++ back := by
  have distinct := store.distinct
  rw [split] at distinct
  have same : (store.free address).objects = without store.objects address := rfl
  rw [same, split, without_split distinct]

/-- Where a traversal of the objects goes on from an object and from its removal. -/
theorem next_split (split : store.objects = front ++ (address, object) :: back) :
    next (addresses store.objects) (.elem address) = some (addresses back).head? ∧
      cursorWithout (addresses store.objects) address = cursorBehind (addresses front) ∧
      next (addresses (store.free address).objects) (cursorBehind (addresses front)) =
        some (addresses back).head? := by
  have distinct := store.distinct
  rw [split, addresses_append, addresses_cons] at distinct
  rw [free_split split, split, addresses_append, addresses_append, addresses_cons]
  exact ⟨next_elem distinct, cursor_without distinct,
    next_behind (nodup_middle.mp distinct).of_cons⟩

end Split

end Store

end Pvpgn.ObjectStore
