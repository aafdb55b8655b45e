import Pvpgn.LinkedList

/-!
Lists of allocated objects, by the address of each. A removal leaves a cursor, and a traversal goes
on from the cursor that its body leaves. To go on from an element that is no longer listed is a
fault, `none`.
-/

namespace Pvpgn.ObjectList
open List
open LinkedList (Cursor cursorBehind)

section Objects

abbrev Objects (Object : Type) := List (Nat × Object)

variable {Object : Type}

def addresses (objects : Objects Object) : List Nat := objects.map Prod.fst

def find (objects : Objects Object) (address : Nat) : Option Object :=
  (objects.find? fun entry => entry.1 = address).map Prod.snd

def change (objects : Objects Object) (address : Nat) (edit : Object → Object) : Objects Object :=
  objects.map fun entry => if entry.1 = address then (entry.1, edit entry.2) else entry

def without (objects : Objects Object) (address : Nat) : Objects Object :=
  objects.filter fun entry => entry.1 ≠ address

/-- The cursor behind a removal from a list, which is NULL if nothing is removed. -/
def cursorWithout (elems : List Nat) (address : Nat) : Cursor :=
  if address ∈ elems then cursorBehind (elems.takeWhile (· ≠ address)) else .null

def next (elems : List Nat) : Cursor → Option (Option Nat)
  | .null => some none
  | .listhead => some elems.head?
  | .elem address =>
    if address ∈ elems then some (elems.dropWhile (· ≠ address)).tail.head? else none

/-- An allocator, which never returns an address in use. -/
structure Malloc where
  pick : List Nat → Nat
  fresh : ∀ used, pick used ∉ used

@[simp] theorem addresses_nil : addresses ([] : Objects Object) = [] := rfl

@[simp] theorem addresses_cons (entry : Nat × Object) (rest : Objects Object) :
    addresses (entry :: rest) = entry.1 :: addresses rest := rfl

@[simp] theorem addresses_append (front back : Objects Object) :
    addresses (front ++ back) = addresses front ++ addresses back := map_append

@[simp] theorem addresses_change (objects : Objects Object) (address : Nat)
    (edit : Object → Object) : addresses (change objects address edit) = addresses objects := by
  rw [addresses, change, map_map]
  apply map_congr_left
  intro entry _
  rw [Function.comp_apply]
  split <;> rfl

theorem addresses_without (objects : Objects Object) (address : Nat) :
    addresses (without objects address) = (addresses objects).filter (· ≠ address) := by
  rw [addresses, without, addresses, filter_map]
  rfl

variable {address : Nat} {objects : Objects Object} {object : Object} {back : Objects Object}
  {entry : Nat × Object} {front : Objects Object}

theorem find_split (found : find objects address = some object) :
    ∃ front back, objects = front ++ (address, object) :: back ∧ address ∉ addresses front := by
  obtain ⟨entry, hit, rfl⟩ := Option.map_eq_some_iff.mp found
  obtain ⟨here, front, back, split, missed⟩ := find?_eq_some_iff_append.mp hit
  have same : entry.1 = address := by simpa using here
  refine ⟨front, back, by rw [split, ← same], ?_⟩
  intro member
  obtain ⟨other, inside, equal⟩ := mem_map.mp member
  have apart := missed other inside
  simp [equal] at apart

theorem find_mem (found : find objects address = some object) : (address, object) ∈ objects := by
  obtain ⟨front, back, rfl, _⟩ := find_split found
  simp

theorem find_none : find objects address = none ↔ address ∉ addresses objects := by
  rw [find, Option.map_eq_none_iff, find?_eq_none, addresses, mem_map]
  constructor
  · rintro missed ⟨entry, member, same⟩
    simpa [same] using missed entry member
  · intro absent entry member
    simpa using fun same => absent ⟨entry, member, same⟩

theorem find_listed (listed : address ∈ addresses objects) :
    ∃ object, find objects address = some object := by
  cases found : find objects address with
  | none => exact absurd listed (find_none.mp found)
  | some object => exact ⟨object, rfl⟩

theorem mem_find (distinct : (addresses objects).Nodup) (member : entry ∈ objects) :
    find objects entry.1 = some entry.2 := by
  induction objects with
  | nil => cases member
  | cons first rest ih =>
    obtain ⟨apart, later⟩ := nodup_cons.mp distinct
    rcases mem_cons.mp member with rfl | inside
    · simp [find]
    have other : first.1 ≠ entry.1 := fun same =>
      apart (same ▸ mem_map_of_mem inside)
    have unchanged : find (first :: rest) entry.1 = find rest entry.1 := by
      simp [find, other]
    rw [unchanged, ih later inside]

theorem find_change (objects : Objects Object) (address other : Nat) (edit : Object → Object) :
    find (change objects address edit) other =
      if other = address then (find objects other).map edit else find objects other := by
  have same : (change objects address edit).find? (fun entry => entry.1 = other) =
      (objects.find? fun entry => entry.1 = other).map
        fun entry => if entry.1 = address then (entry.1, edit entry.2) else entry := by
    rw [change, find?_map]
    congr 2
    funext entry
    rw [Function.comp_apply]
    split <;> rfl
  rw [find, same, find]
  cases found : objects.find? fun entry => entry.1 = other with
  | none => simp
  | some entry =>
    have here : entry.1 = other := by simpa using find?_some found
    by_cases hit : other = address
    · simp [here, hit]
    · simp [here, hit]

theorem find_without (objects : Objects Object) (address other : Nat) :
    find (without objects address) other =
      if other = address then none else find objects other := by
  by_cases same : other = address
  · rw [if_pos same, find_none, addresses_without, same]
    simp
  rw [if_neg same, find, find, without, find?_filter]
  congr 2
  funext entry
  by_cases hit : entry.1 = other
  · simp [hit, same]
  · simp [hit]

theorem find_append (front back : Objects Object) (address : Nat) :
    find (front ++ back) address = (find front address).or (find back address) := by
  cases hit : front.find? fun entry => entry.1 = address <;> simp [find, hit]

theorem change_unlisted (edit : Object → Object) (absent : address ∉ addresses objects) :
    change objects address edit = objects := by
  conv_rhs => rw [← map_id objects]
  apply map_congr_left
  intro entry member
  have other : entry.1 ≠ address := fun same => absent (same ▸ mem_map_of_mem member)
  rw [if_neg other, id]

theorem without_unlisted (absent : address ∉ addresses objects) :
    without objects address = objects := by
  apply filter_eq_self.mpr
  intro entry member
  have other : entry.1 ≠ address := fun same => absent (same ▸ mem_map_of_mem member)
  simpa using other

theorem split_apart (distinct : (addresses (front ++ (address, object) :: back)).Nodup) :
    address ∉ addresses front ∧ address ∉ addresses back := by
  simp only [addresses_append, addresses_cons, nodup_middle, nodup_cons,
    mem_append, not_or] at distinct
  exact distinct.1

theorem change_split (edit : Object → Object)
    (distinct : (addresses (front ++ (address, object) :: back)).Nodup) :
    change (front ++ (address, object) :: back) address edit =
      front ++ (address, edit object) :: back := by
  obtain ⟨before, behind⟩ := split_apart distinct
  have parts : change (front ++ (address, object) :: back) address edit =
      change front address edit ++ (address, edit object) :: change back address edit := by
    simp [change]
  rw [parts, change_unlisted edit before, change_unlisted edit behind]

theorem without_split (distinct : (addresses (front ++ (address, object) :: back)).Nodup) :
    without (front ++ (address, object) :: back) address = front ++ back := by
  obtain ⟨before, behind⟩ := split_apart distinct
  have parts : without (front ++ (address, object) :: back) address =
      without front address ++ without back address := by
    simp [without, filter_append]
  rw [parts, without_unlisted before, without_unlisted behind]

theorem mem_change {edit : Object → Object} (distinct : (addresses objects).Nodup)
    (member : entry ∈ change objects address edit) :
    (∃ object, find objects address = some object ∧ entry = (address, edit object)) ∨
      (entry.1 ≠ address ∧ entry ∈ objects) := by
  obtain ⟨old, inside, same⟩ := mem_map.mp member
  by_cases hit : old.1 = address
  · rw [if_pos hit] at same
    exact Or.inl ⟨old.2, hit ▸ mem_find distinct inside, by rw [← same, hit]⟩
  · rw [if_neg hit] at same
    exact Or.inr ⟨same ▸ hit, same ▸ inside⟩

theorem mem_change_other {edit : Object → Object} (member : entry ∈ objects)
    (other : entry.1 ≠ address) : entry ∈ change objects address edit :=
  mem_map.mpr ⟨entry, member, if_neg other⟩

theorem without_sublist (objects : Objects Object) (address : Nat) :
    (without objects address).Sublist objects := filter_sublist

theorem without_distinct (address : Nat) (distinct : (addresses objects).Nodup) :
    (addresses (without objects address)).Nodup :=
  ((without_sublist objects address).map Prod.fst).nodup distinct

end Objects

section Cursors

variable {back front : List Nat} {address : Nat}

theorem next_behind (distinct : (front ++ back).Nodup) :
    next (front ++ back) (cursorBehind front) = some back.head? := by
  rcases eq_nil_or_concat front with rfl | ⟨before, last, rfl⟩
  · rfl
  rw [concat_eq_append] at distinct ⊢
  have absent : last ∉ before := by
    intro member
    have twice := (nodup_append.mp distinct).1
    exact (nodup_append.mp twice).2.2 last member last (by simp) rfl
  have skip : (before ++ [last] ++ back).dropWhile (· ≠ last) = last :: back := by
    rw [append_assoc, dropWhile_append_of_pos]
    · simp
    · intro other member
      simpa using ne_of_mem_of_not_mem member absent
  have here : last ∈ before ++ [last] ++ back := by simp
  have cursor : cursorBehind (before ++ [last]) = .elem last := by simp [cursorBehind]
  rw [cursor, next, if_pos here, skip]
  rfl

section
variable (distinct : (front ++ address :: back).Nodup)
include distinct

theorem next_elem :
    next (front ++ address :: back) (.elem address) = some back.head? := by
  have behind : next ((front ++ [address]) ++ back) (cursorBehind (front ++ [address])) =
      some back.head? := next_behind (by simpa using distinct)
  simpa [cursorBehind] using behind

theorem cursor_without :
    cursorWithout (front ++ address :: back) address = cursorBehind front := by
  have absent : address ∉ front := by
    intro member
    exact (nodup_append.mp distinct).2.2 address member address (by simp) rfl
  have taken : (front ++ address :: back).takeWhile (· ≠ address) = front := by
    rw [takeWhile_append_of_pos]
    · simp
    · intro other member
      simpa using ne_of_mem_of_not_mem member absent
  rw [cursorWithout, if_pos (by simp), taken]

theorem filter_split :
    (front ++ address :: back).filter (· ≠ address) = front ++ back := by
  simp only [nodup_middle, nodup_cons, mem_append, not_or] at distinct
  have still (part : List Nat) (absent : address ∉ part) : part.filter (· ≠ address) = part := by
    apply filter_eq_self.mpr
    intro other member
    simpa using ne_of_mem_of_not_mem member absent
  rw [filter_append, filter_cons_of_neg (by simp), still _ distinct.1.1, still _ distinct.1.2]

end

/-- A traversal goes on behind a removal, also when other elements are gone before it. -/
theorem next_without {later : List Nat} (distinct : (front ++ address :: back).Nodup)
    (fewer : later.Sublist (front ++ address :: back)) :
    ∃ before rest, later.filter (· ≠ address) = before ++ rest ∧
      next (later.filter (· ≠ address)) (cursorWithout later address) = some rest.head? ∧
      rest.length ≤ back.length := by
  by_cases listed : address ∈ later
  · obtain ⟨before, rest, rfl⟩ := append_of_mem listed
    have laterDistinct := fewer.nodup distinct
    have kept := filter_split laterDistinct
    refine ⟨before, rest, kept, ?_, ?_⟩
    · rw [kept, cursor_without laterDistinct, next_behind]
      exact (nodup_middle.mp laterDistinct).of_cons
    have absent : address ∉ front := by
      simp only [nodup_middle, nodup_cons, mem_append, not_or] at distinct
      exact distinct.1.1
    obtain ⟨first, second, parts, inFront, behind⟩ := sublist_append_iff.mp fewer
    have short := behind.length_le
    rcases append_eq_append_iff.mp parts with ⟨extra, split, tail⟩ | ⟨extra, _, tail⟩
    · cases extra with
      | nil =>
        rw [nil_append] at tail
        rw [← tail] at short
        simpa using short
      | cons other extra =>
        cases tail
        exact absurd (inFront.subset (by rw [split]; simp)) absent
    · rw [tail] at short
      simp at short
      omega
  · have kept : later.filter (· ≠ address) = later := by
      apply filter_eq_self.mpr
      intro other member
      simpa using ne_of_mem_of_not_mem member listed
    refine ⟨later, [], by rw [kept, append_nil], ?_, Nat.zero_le _⟩
    rw [cursorWithout, if_neg listed]
    rfl

end Cursors

section Walks
variable {State : Type} (elems : State → List Nat)
  (body : Nat → State → Option (State × Option Cursor))

/-- A traversal. The body gives where it leaves the cursor, or nothing if it breaks the loop. -/
def walk : Nat → State → Option Nat → Option State
  | _, state, none => some state
  | 0, _, some _ => none
  | rounds + 1, state, some curr => do
    let (state, cursor) ← body curr state
    match cursor with
    | none => some state
    | some cursor => do
      let following ← next (elems state) cursor
      walk rounds state following

/-- What a round of a traversal does: it breaks the loop, or it moves on in a list that it may have
changed. `left` bounds the rounds that are left. -/
def Round (inv : State → List Nat → List Nat → Prop) (done : State → Prop)
    (left : State → List Nat → Nat) (state : State) (curr : Nat) (back : List Nat) : Prop :=
  ∃ after cursor, body curr state = some (after, cursor) ∧
    match cursor with
    | none => done after
    | some cursor => ∃ front rest, next (elems after) cursor = some rest.head? ∧
        inv after front rest ∧ left after rest < left state (curr :: back)

/-- The invariant of a traversal is about the elements before the cursor and the ones behind it. -/
theorem walk_rule (inv : State → List Nat → List Nat → Prop) (done : State → Prop)
    (left : State → List Nat → Nat) (finish : ∀ state front, inv state front [] → done state)
    (round : ∀ state front curr back, inv state front (curr :: back) →
      Round elems body inv done left state curr back) (rounds : Nat) (state : State)
    (front back : List Nat) (start : inv state front back) (enough : left state back < rounds) :
    ∃ last, walk elems body rounds state back.head? = some last ∧ done last := by
  induction rounds generalizing state front back with
  | zero => omega
  | succ rounds ih =>
    cases back with
    | nil => exact ⟨state, rfl, finish state front start⟩
    | cons curr back =>
      obtain ⟨after, cursor, run, outcome⟩ := round state front curr back start
      cases cursor with
      | none => exact ⟨after, by simp [walk, run], outcome⟩
      | some cursor =>
        obtain ⟨before, rest, moved, kept, fewer⟩ := outcome
        obtain ⟨last, walked, ended⟩ := ih after before rest kept (by omega)
        exact ⟨last, by simp [walk, run, moved, walked], ended⟩

end Walks

end Pvpgn.ObjectList
