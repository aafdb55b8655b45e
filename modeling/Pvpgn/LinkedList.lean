import Pvpgn.LinkedMemory

/-!
The doubly linked lists of common/list.cpp. A list and the heap its elements lie
in form one state. `list_remove_elem` moves the caller's cursor to the element
before the removed one, or to the static `listhead` where there is none, and
`elem_get_next` resumes from either.
-/

namespace Pvpgn.LinkedList
open LinkedMemory List Option Prod

variable {Data : Type}

structure Elem (Data : Type) where
  data : Data
  prev : Option Nat
  next : Option Nat

structure ListState (Data : Type) where
  memory : Memory (Elem Data)
  len : Nat
  head : Option Nat
  tail : Option Nat

inductive Cursor where
  | null
  | listhead
  | elem (address : Nat)

def cursorOf : Option Nat → Cursor
  | none => .null
  | some address => .elem address

def listCreate : ListState Data := ⟨∅, 0, none, none⟩

-- `if (pointer) pointer->next = target` and its mirror image.
def setNext (memory : Memory (Elem Data)) (pointer target : Option Nat) :
    Option (Memory (Elem Data)) :=
  match pointer with
  | none => some memory
  | some address => update memory address fun elem => { elem with next := target }

def setPrev (memory : Memory (Elem Data)) (pointer target : Option Nat) :
    Option (Memory (Elem Data)) :=
  match pointer with
  | none => some memory
  | some address => update memory address fun elem => { elem with prev := target }

-- xmalloc hands out `address` with whatever `raw` contents it holds.
def listPrependData (list : ListState Data) (address : Nat) (raw : Elem Data) (data : Data) :
    Option (ListState Data) := do
  let memory ← allocate list.memory address { raw with data := data }
  let memory ← setPrev memory list.head (some address)
  let memory ← update memory address fun elem => { elem with next := list.head, prev := none }
  some {
    memory := memory
    len := list.len + 1
    head := some address
    tail := if list.tail.isNone then some address else list.tail }

/-- The writes of list_append_data to `elem->prev`, one per NULL test. -/
def setBehind (list : ListState Data) (memory : Memory (Elem Data)) (address : Nat) :
    Option (Memory (Elem Data)) := do
  let memory ← if list.head.isNone then update memory address fun elem => { elem with prev := none }
    else some memory
  if list.tail.isNone then some memory
  else update memory address fun elem => { elem with prev := list.tail }

def listAppendData (list : ListState Data) (address : Nat) (raw : Elem Data) (data : Data) :
    Option (ListState Data) := do
  let memory ← allocate list.memory address { raw with data := data, next := none }
  let memory ← setBehind list memory address
  let memory ← setNext memory list.tail (some address)
  some {
    memory := memory
    len := list.len + 1
    head := if list.head.isNone then some address else list.head
    tail := some address }

def listGetElemByData [DecidableEq Data] (list : ListState Data) (data : Data) :
    Option (Option Nat) :=
  seek Elem.next list.memory (fun elem => decide (elem.data = data)) list.head

/-- Removing through the NULL cursor or the static `listhead` is a fault. -/
def listRemoveElem (list : ListState Data) (cursor : Cursor) :
    Option (ListState Data × Cursor) :=
  match cursor with
  | .null => none
  | .listhead => none
  | .elem target => do
    let elem ← load list.memory target
    let memory ← setNext list.memory elem.prev elem.next
    let elem ← load memory target
    let memory ← setPrev memory elem.next elem.prev
    let elem ← load memory target
    let tail := if list.tail = some target then elem.prev else list.tail
    let head := if list.head = some target then elem.next else list.head
    let cursor := if list.head = some target then .listhead else cursorOf elem.prev
    let memory ← update memory target fun elem => { elem with next := none, prev := none }
    let memory ← release memory target
    some (⟨memory, list.len - 1, head, tail⟩, cursor)

def listRemoveData [DecidableEq Data] (list : ListState Data) (data : Data) :
    Option (ListState Data × Cursor × Int) := do
  match ← listGetElemByData list data with
  | none => some (list, .null, -1)
  | some address => do
    let (list, cursor) ← listRemoveElem list (.elem address)
    some (list, cursor, 0)

def elemGetNext (list : ListState Data) : Cursor → Option (Option Nat)
  | .null => some none
  | .listhead => some list.head
  | .elem address => (load list.memory address).map Elem.next

-- LIST_TRAVERSE whose body removes the current element when `doomed` says so.
-- The result names the elements the body saw, in order.
def listTraverse (doomed : Nat → Data → Bool) :
    Nat → ListState Data → Option Nat → Option (ListState Data × List Nat)
  | _, list, none => some (list, [])
  | 0, _, some _ => none
  | rounds + 1, list, some address => do
    let elem ← load list.memory address
    let (after, cursor) ← if doomed address elem.data then listRemoveElem list (.elem address)
      else some (list, .elem address)
    let next ← elemGetNext after cursor
    let (last, seen) ← listTraverse doomed rounds after next
    some (last, address :: seen)

def dataAt (list : ListState Data) (address : Nat) : Option Data :=
  (load list.memory address).map Elem.data

/-- The list's elements are linked both ways in this order, between the head and
the tail pointer, and `len` counts them. -/
structure WellFormed (list : ListState Data) (elems : List Nat) : Prop where
  linked : Run Elem.prev Elem.next list.memory none elems none
  headFirst : list.head = elems.head?
  tailLast : list.tail = elems.getLast?
  counted : list.len = elems.length
  distinct : elems.Nodup

/-- Where a removal leaves the cursor when the elements of `front` are behind it. -/
def cursorBehind (front : List Nat) : Cursor :=
  match front.getLast? with
  | none => .listhead
  | some last => .elem last

theorem create_wellformed : WellFormed (listCreate : ListState Data) [] :=
  ⟨trivial, rfl, rfl, rfl, nodup_nil⟩

variable (list : ListState Data) (front : List Nat) (memory : Memory (Elem Data))
  (elems back : List Nat) (before : Option Nat) (items : List (Nat × Data)) (target : Nat)
  (after : Option Nat)

theorem set_next_run (target : Option Nat) (elems : List Nat)
    (linked : Run Elem.prev Elem.next memory before elems after) (distinct : elems.Nodup) :
    ∃ changed, setNext memory elems.getLast? target = some changed ∧
      Run Elem.prev Elem.next changed before elems target ∧
      (∀ address, address ∉ elems → load changed address = load memory address) ∧
      ∀ address, (load changed address).map Elem.data = (load memory address).map Elem.data := by
  rcases eq_nil_or_concat elems with empty | ⟨front, last, split⟩
  · subst empty
    exact ⟨memory, rfl, trivial, fun _ _ => rfl, fun _ => rfl⟩
  rw [concat_eq_append] at split
  subst split
  obtain ⟨cell, present⟩ := run_allocated _ _ memory _ _ _ linked last (by simp)
  have outside : last ∉ front := by
    intro member
    exact (nodup_append.mp distinct).2.2 last member last (by simp) rfl
  refine ⟨_, ?_, run_redirect_last _ _ memory before after target front last
    { cell with next := target } linked outside ?_ rfl, ?_, ?_⟩
  · rw [getLast?_append, getLast?_singleton]
    exact update_allocated memory last cell _ present
  · intro old same
    rw [some.inj (present.symm.trans same)]
  · intro address apart
    rw [load_insert, if_neg (fun same => apart (by simp [same]))]
  · intro address
    rw [load_insert]
    split
    · next same => rw [same, present]; rfl
    · rfl

theorem set_prev_run (target : Option Nat) (elems : List Nat)
    (linked : Run Elem.prev Elem.next memory before elems after) (distinct : elems.Nodup) :
    ∃ changed, setPrev memory elems.head? target = some changed ∧
      Run Elem.prev Elem.next changed target elems after ∧
      (∀ address, address ∉ elems → load changed address = load memory address) ∧
      ∀ address, (load changed address).map Elem.data = (load memory address).map Elem.data := by
  cases elems with
  | nil => exact ⟨memory, rfl, trivial, fun _ _ => rfl, fun _ => rfl⟩
  | cons first rest =>
    obtain ⟨cell, present⟩ := run_allocated _ _ memory _ _ _ linked first mem_cons_self
    refine ⟨_, update_allocated memory first cell _ present,
      run_redirect_first _ _ memory before after target rest first
        { cell with prev := target } linked (nodup_cons.mp distinct).1 rfl ?_, ?_, ?_⟩
    · intro old same
      rw [some.inj (present.symm.trans same)]
    · intro address apart
      rw [load_insert, if_neg (fun same => apart (by simp [same]))]
    · intro address
      rw [load_insert]
      split
      · next same => rw [same, present]; rfl
      · rfl

theorem fresh_not_listed (elems : List Nat)
    (linked : Run Elem.prev Elem.next memory before elems after) (address : Nat)
    (fresh : load memory address = none) : address ∉ elems := by
  intro member
  obtain ⟨cell, present⟩ := run_allocated _ _ memory _ _ _ linked address member
  rw [fresh] at present
  cases present

variable (address : Nat) (raw : Elem Data) (data : Data)

theorem prepend_links (valid : WellFormed list elems) (fresh : load list.memory address = none) :
    ∃ after, listPrependData list address raw data = some after ∧
      WellFormed after (address :: elems) ∧ dataAt after address = some data ∧
      ∀ other, other ≠ address → dataAt after other = dataAt list other := by
  have outside := fresh_not_listed _ _ _ _ valid.linked address fresh
  have inserted : Run Elem.prev Elem.next
      (list.memory.insert address { raw with data := data }) none elems none := by
    apply run_frame _ _ list.memory _ _ _ _ valid.linked
    intro other member
    rw [load_insert, if_neg (ne_of_mem_of_not_mem member outside)]
  obtain ⟨linked, relinked, run, frame, kept⟩ :=
    set_prev_run _ none none (some address) elems inserted valid.distinct
  have present : load linked address = some { raw with data := data } := by
    rw [frame address outside, load_insert, if_pos rfl]
  refine ⟨⟨linked.insert address ⟨data, none, list.head⟩, list.len + 1, some address,
    if list.tail.isNone then some address else list.tail⟩, ?_,
    ⟨?_, rfl, ?_, ?_, nodup_cons.mpr ⟨outside, valid.distinct⟩⟩, ?_, ?_⟩
  · rw [← valid.headFirst] at relinked
    simp only [listPrependData, allocate_fresh _ _ _ fresh, relinked,
      update_allocated _ _ _ _ present, bind_eq_bind, bind_some]
  · refine ⟨_, by rw [load_insert, if_pos rfl], rfl, by simp [valid.headFirst], ?_⟩
    apply run_frame _ _ linked _ _ _ _ run
    intro other member
    rw [load_insert, if_neg (ne_of_mem_of_not_mem member outside)]
  · rw [valid.tailLast, getLast?_cons]
    cases elems.getLast? <;> rfl
  · rw [valid.counted, length_cons]
  · simp [dataAt, load_insert]
  · intro other apart
    have same := kept other
    simpa [dataAt, load_insert, apart] using same

theorem behind_tail (memory : Memory (Elem Data)) (address : Nat) (raw : Elem Data)
    (valid : WellFormed list elems) (present : load memory address = some raw) :
    ∃ changed, setBehind list memory address = some changed ∧
      ∀ other, load changed other =
        if other = address then some { raw with prev := list.tail } else load memory other := by
  cases elems with
  | nil =>
    have noHead : list.head = none := valid.headFirst
    have noTail : list.tail = none := valid.tailLast
    refine ⟨memory.insert address { raw with prev := none }, ?_, ?_⟩
    · simp [setBehind, noHead, noTail, update_allocated _ _ _ _ present]
    · intro other
      rw [load_insert, noTail]
  | cons first rest =>
    have someHead : list.head.isNone = false := by simp [valid.headFirst]
    have someTail : list.tail.isNone = false := by simp [valid.tailLast, getLast?_cons]
    refine ⟨memory.insert address { raw with prev := list.tail }, ?_, ?_⟩
    · simp [setBehind, someHead, someTail, update_allocated _ _ _ _ present]
    · intro other
      rw [load_insert]

theorem append_links (valid : WellFormed list elems) (fresh : load list.memory address = none) :
    ∃ after, listAppendData list address raw data = some after ∧
      WellFormed after (elems ++ [address]) ∧ dataAt after address = some data ∧
      ∀ other, other ≠ address → dataAt after other = dataAt list other := by
  have outside := fresh_not_listed _ _ _ _ valid.linked address fresh
  obtain ⟨memory, behind, cells⟩ := behind_tail list elems
    (list.memory.insert address { raw with data := data, next := none }) address
    { raw with data := data, next := none } valid (by rw [load_insert, if_pos rfl])
  have inserted : Run Elem.prev Elem.next memory none elems none := by
    apply run_frame _ _ list.memory _ _ _ _ valid.linked
    intro other member
    have apart := ne_of_mem_of_not_mem member outside
    rw [cells, if_neg apart, load_insert, if_neg apart]
  obtain ⟨linked, relinked, run, frame, kept⟩ :=
    set_next_run _ none none (some address) elems inserted valid.distinct
  have present : load linked address = some ⟨data, list.tail, none⟩ := by
    rw [frame address outside, cells, if_pos rfl]
  refine ⟨⟨linked, list.len + 1, if list.head.isNone then some address else list.head,
    some address⟩, ?_, ⟨?_, ?_, ?_, ?_, ?_⟩, ?_, ?_⟩
  · rw [← valid.tailLast] at relinked
    simp only [listAppendData, allocate_fresh _ _ _ fresh, behind, relinked,
      bind_eq_bind, bind_some]
  · rw [run_append]
    refine ⟨run, _, present, ?_, rfl, trivial⟩
    simp [valid.tailLast]
  · rw [valid.headFirst]
    cases elems <;> rfl
  · simp
  · simp [valid.counted]
  · exact nodup_append.mpr ⟨valid.distinct, nodup_singleton _, by
      intro left member right single
      rw [mem_singleton.mp single]
      exact ne_of_mem_of_not_mem member outside⟩
  · simp [dataAt, present]
  · intro other apart
    have same := kept other
    rw [cells, if_neg apart, load_insert, if_neg apart] at same
    exact same

theorem head_is_removed (notFront : target ∉ front) :
    (front ++ target :: back).head? = some target ↔ front = [] := by
  cases front with
  | nil => simp
  | cons start rest =>
    have different : start ≠ target := fun same => notFront (by simp [same])
    simp [different]

theorem head_after_removal (notFront : target ∉ front) :
    (if (front ++ target :: back).head? = some target then back.head?
      else (front ++ target :: back).head?) = (front ++ back).head? := by
  rw [if_congr (head_is_removed front back target notFront) rfl rfl]
  cases front <;> simp

theorem tail_after_removal (notBack : target ∉ back) :
    (if (front ++ target :: back).getLast? = some target then front.getLast?
      else (front ++ target :: back).getLast?) = (front ++ back).getLast? := by
  rcases eq_nil_or_concat back with empty | ⟨rest, last, split⟩
  · simp [empty]
  have different : last ≠ target := by
    rintro rfl
    exact notBack (by simp [split])
  rw [split, concat_eq_append]
  have tailLast : (front ++ target :: (rest ++ [last])).getLast? = some last := by
    rw [← cons_append, ← append_assoc, getLast?_concat]
  rw [tailLast, if_neg (fun same => different (some.inj same)), ← append_assoc,
    getLast?_concat]

theorem cursor_behind_front :
    (if front = [] then Cursor.listhead else cursorOf front.getLast?) = cursorBehind front := by
  rcases eq_nil_or_concat front with empty | ⟨before, last, split⟩
  · simp [empty, cursorBehind]
  · simp [split, cursorBehind, cursorOf]

theorem remove_links (valid : WellFormed list (front ++ target :: back)) :
    ∃ after, listRemoveElem list (.elem target) = some (after, cursorBehind front) ∧
      WellFormed after (front ++ back) ∧ load after.memory target = none ∧
      ∀ other, other ≠ target → dataAt after other = dataAt list other := by
  obtain ⟨frontDistinct, restDistinct, apart⟩ := nodup_append.mp valid.distinct
  obtain ⟨notBack, backDistinct⟩ := nodup_cons.mp restDistinct
  have notFront : target ∉ front := fun member => apart target member target (by simp) rfl
  have frontNotBack : ∀ other ∈ front, other ∉ back :=
    fun other member again => apart other member other (by simp [again]) rfl
  have linked := valid.linked
  rw [run_append] at linked
  obtain ⟨frontRun, elem, present, prevFront, nextBack, backRun⟩ := linked
  rw [or_none] at prevFront nextBack
  obtain ⟨first, firstWrite, frontMoved, firstFrame, firstKept⟩ :=
    set_next_run list.memory none _ back.head? front frontRun frontDistinct
  have presentFirst : load first target = some elem := by rw [firstFrame target notFront, present]
  have backFirst : Run Elem.prev Elem.next first (some target) back none := by
    apply run_frame _ _ list.memory _ _ _ _ backRun
    intro other member
    exact firstFrame other (fun again => frontNotBack other again member)
  obtain ⟨second, secondWrite, backMoved, secondFrame, secondKept⟩ :=
    set_prev_run first (some target) none front.getLast? back backFirst backDistinct
  have presentSecond : load second target = some elem := by
    rw [secondFrame target notBack, presentFirst]
  have frontSecond : Run Elem.prev Elem.next second none front back.head? := by
    apply run_frame _ _ first _ _ _ _ frontMoved
    intro other member
    exact secondFrame other (frontNotBack other member)
  let final := (second.insert target ⟨elem.data, none, none⟩).erase target
  have released : release (second.insert target ⟨elem.data, none, none⟩) target = some final :=
    release_allocated _ _ ⟨elem.data, none, none⟩ (by rw [load_insert, if_pos rfl])
  have cells : ∀ other, other ≠ target → load final other = load second other := by
    intro other different
    rw [load_erase, if_neg different, load_insert, if_neg different]
  let tail := if list.tail = some target then elem.prev else list.tail
  let head := if list.head = some target then elem.next else list.head
  refine ⟨⟨final, list.len - 1, head, tail⟩, ?_, ⟨?_, ?_, ?_, ?_, ?_⟩, ?_, ?_⟩
  · rw [← prevFront, ← nextBack] at firstWrite
    rw [← nextBack, ← prevFront] at secondWrite
    simp only [listRemoveElem, present, firstWrite, presentFirst, secondWrite, presentSecond,
      update_allocated _ _ _ _ presentSecond, released, bind_eq_bind, bind_some]
    have atHead : list.head = some target ↔ front = [] := by
      rw [valid.headFirst]
      exact head_is_removed front back target notFront
    have cursor : (if front = [] then Cursor.listhead else cursorOf elem.prev) =
        cursorBehind front := by
      rw [prevFront]
      exact cursor_behind_front front
    simp only [head, tail, atHead, cursor]
  · apply run_frame _ _ second
    · rw [run_append]
      simpa using ⟨frontSecond, backMoved⟩
    intro other member
    apply cells
    rintro rfl
    rcases mem_append.mp member with inFront | inBack
    · exact notFront inFront
    · exact notBack inBack
  · change (if list.head = some target then elem.next else list.head) = _
    rw [valid.headFirst, nextBack]
    exact head_after_removal front back target notFront
  · change (if list.tail = some target then elem.prev else list.tail) = _
    rw [valid.tailLast, prevFront]
    exact tail_after_removal front back target notBack
  · rw [valid.counted]
    simp only [length_append, length_cons]
    omega
  · apply nodup_append.mpr
    exact ⟨frontDistinct, backDistinct, fun left inFront right inBack same =>
      frontNotBack left inFront (same ▸ inBack)⟩
  · rw [load_erase, if_pos rfl]
  · intro other different
    have kept := secondKept other
    rw [firstKept other] at kept
    simpa only [dataAt, cells other different] using kept

/-! The list as a sequence of elements with their data, and what the calls do to it. -/

def Holds (list : ListState Data) (items : List (Nat × Data)) : Prop :=
  WellFormed list (items.map fst) ∧ ∀ item ∈ items, dataAt list item.1 = some item.2

theorem create_holds : Holds (listCreate : ListState Data) [] := ⟨create_wellformed, by simp⟩

theorem holds_chain (holds : Holds list items) :
    Chain Elem.next list.memory list.head (items.map fst) none := by
  have chain := run_chain _ _ _ _ _ _ holds.1.linked
  rwa [or_none, ← holds.1.headFirst] at chain

theorem remove_holds (front back : List (Nat × Data)) (target : Nat × Data)
    (holds : Holds list (front ++ target :: back)) :
    ∃ after, listRemoveElem list (.elem target.1) = some (after, cursorBehind (front.map fst)) ∧
      Holds after (front ++ back) := by
  obtain ⟨valid, contents⟩ := holds
  rw [map_append, map_cons] at valid
  obtain ⟨after, removed, afterValid, _, kept⟩ := remove_links list _ _ target.1 valid
  refine ⟨after, removed, by rwa [map_append], ?_⟩
  intro item member
  have apart : item.1 ≠ target.1 := by
    obtain ⟨_, tailDistinct, split⟩ := nodup_append.mp valid.distinct
    rcases mem_append.mp member with inFront | inBack
    · exact split item.1 (mem_map_of_mem inFront) target.1 mem_cons_self
    intro same
    apply (nodup_cons.mp tailDistinct).1
    rw [← same]
    exact mem_map_of_mem inBack
  rw [kept item.1 apart]
  apply contents
  rcases mem_append.mp member with inFront | inBack
  · exact mem_append_left _ inFront
  · exact mem_append_right _ (mem_cons_of_mem _ inBack)

theorem get_elem_finds [DecidableEq Data] (holds : Holds list items) :
    listGetElemByData list data =
      some ((items.find? fun item => decide (item.2 = data)).map fst) := by
  rw [listGetElemByData, seek_chain _ _ _ _ _ (holds_chain list items holds), find?_map]
  have same : ∀ item ∈ items, (hits list.memory (fun elem => decide (elem.data = data)) ∘ fst) item =
      decide (item.2 = data) := by
    intro item member
    have found := holds.2 item member
    rw [dataAt, map_eq_some_iff] at found
    obtain ⟨elem, present, content⟩ := found
    simp [hits, present, content]
  have agree : items.find? (hits list.memory (fun elem => decide (elem.data = data)) ∘ fst) =
      items.find? fun item => decide (item.2 = data) := by
    clear holds
    induction items with
    | nil => rfl
    | cons item rest ih =>
      rw [find?_cons, find?_cons, same item mem_cons_self,
        ih (fun other member => same other (mem_cons_of_mem item member))]
  rw [agree]

inductive Call (Data : Type) where
  | prepend (address : Nat) (raw : Elem Data) (data : Data)
  | append (address : Nat) (raw : Elem Data) (data : Data)
  | removeElem (target : Nat)
  | removeData (data : Data)

def perform [DecidableEq Data] (list : ListState Data) : Call Data → Option (ListState Data)
  | .prepend address raw data => listPrependData list address raw data
  | .append address raw data => listAppendData list address raw data
  | .removeElem target => (listRemoveElem list (.elem target)).map fst
  | .removeData data => (listRemoveData list data).map fst

/-- The allocator returns free memory and a caller removes an element of the list. -/
def Admissible (list : ListState Data) : Call Data → Prop
  | .prepend address _ _ => load list.memory address = none
  | .append address _ _ => load list.memory address = none
  | .removeElem target =>
    ∃ elems, Chain Elem.next list.memory list.head elems none ∧ target ∈ elems
  | .removeData _ => True

def edit [DecidableEq Data] (items : List (Nat × Data)) : Call Data → List (Nat × Data)
  | .prepend address _ data => (address, data) :: items
  | .append address _ data => items ++ [(address, data)]
  | .removeElem target => items.eraseP fun item => decide (item.1 = target)
  | .removeData data => items.eraseP fun item => decide (item.2 = data)

theorem erase_split (hit : Nat × Data → Bool) (target : Nat × Data)
    (found : items.find? hit = some target) :
    ∃ front back, items = front ++ target :: back ∧ items.eraseP hit = front ++ back := by
  obtain ⟨here, front, back, split, missed⟩ := find?_eq_some_iff_append.mp found
  refine ⟨front, back, split, ?_⟩
  rw [split, eraseP_append_right _ (fun item member => by simpa using missed item member),
    eraseP_cons_of_pos here]

theorem perform_edits [DecidableEq Data] (call : Call Data) (holds : Holds list items)
    (admissible : Admissible list call) :
    ∃ after, perform list call = some after ∧ Holds after (edit items call) := by
  obtain ⟨valid, contents⟩ := holds
  have listed : ∀ address, load list.memory address = none → ∀ item ∈ items, item.1 ≠ address := by
    intro address fresh item member
    have outside := fresh_not_listed _ _ _ _ valid.linked address fresh
    exact ne_of_mem_of_not_mem (mem_map_of_mem member) outside
  cases call with
  | prepend address raw data =>
    obtain ⟨after, done, afterValid, new, kept⟩ :=
      prepend_links list _ address raw data valid admissible
    refine ⟨after, done, afterValid, ?_⟩
    intro item member
    rcases mem_cons.mp member with same | old
    · rw [same, new]
    · rw [kept _ (listed address admissible item old), contents item old]
  | append address raw data =>
    obtain ⟨after, done, afterValid, new, kept⟩ :=
      append_links list _ address raw data valid admissible
    refine ⟨after, done, by simpa [edit] using afterValid, ?_⟩
    intro item member
    rcases mem_append.mp member with old | same
    · rw [kept _ (listed address admissible item old), contents item old]
    · rw [mem_singleton.mp same, new]
  | removeElem target =>
    obtain ⟨elems, chain, member⟩ := admissible
    rw [chain_unique _ _ _ _ _ chain (holds_chain list items ⟨valid, contents⟩)] at member
    obtain ⟨item, itemMember, same⟩ := mem_map.mp member
    have present : (items.find? fun item => decide (item.1 = target)).isSome := by
      rw [find?_isSome]
      exact ⟨item, itemMember, by simp [same]⟩
    obtain ⟨found, hit⟩ := isSome_iff_exists.mp present
    have address : found.1 = target := by simpa using find?_some hit
    obtain ⟨front, back, split, erased⟩ := erase_split items _ found hit
    rw [split] at valid contents
    obtain ⟨after, done, afterHolds⟩ := remove_holds list front back found ⟨valid, contents⟩
    rw [address] at done
    exact ⟨after, by simp [perform, done], by rwa [edit, erased]⟩
  | removeData data =>
    have search := get_elem_finds list items data ⟨valid, contents⟩
    cases hit : items.find? fun item => decide (item.2 = data) with
    | none =>
      rw [hit] at search
      refine ⟨list, by simp [perform, listRemoveData, search], ?_⟩
      have unchanged : items.eraseP (fun item => decide (item.2 = data)) = items := by
        apply eraseP_of_forall_not
        simpa using hit
      rw [edit, unchanged]
      exact ⟨valid, contents⟩
    | some found =>
      rw [hit] at search
      obtain ⟨front, back, split, erased⟩ := erase_split items _ found hit
      rw [split] at valid contents
      obtain ⟨after, done, afterHolds⟩ := remove_holds list front back found ⟨valid, contents⟩
      exact ⟨after, by simp [perform, listRemoveData, search, done], by rwa [edit, erased]⟩

/-- The cursor left by a removal, and the element just passed, both resume at the
first element after `front`. -/
theorem next_resumes (rest : List Nat) (valid : WellFormed list (front ++ rest)) :
    elemGetNext list (cursorBehind front) = some rest.head? := by
  rcases eq_nil_or_concat front with empty | ⟨before, last, split⟩
  · subst empty
    simp [cursorBehind, elemGetNext, valid.headFirst]
  rw [concat_eq_append] at split
  subst split
  have linked := valid.linked
  rw [run_append, run_append] at linked
  obtain ⟨⟨_, cell, present, _, forth, _⟩, _⟩ := linked
  have ahead : cell.next = rest.head? := by simpa using forth
  simp [cursorBehind, elemGetNext, present, ahead]

-- Induction on the elements still ahead of the cursor; those in `front` have been
-- seen and kept.
theorem traverse_filters (doomed : Nat → Data → Bool) (rounds : Nat) (list : ListState Data)
    (front rest : List (Nat × Data)) (holds : Holds list (front ++ rest))
    (enough : rest.length ≤ rounds) :
    ∃ after, listTraverse doomed rounds list (rest.map fst).head? = some (after, rest.map fst) ∧
      Holds after (front ++ rest.filter fun item => !doomed item.1 item.2) := by
  induction rest generalizing front list rounds with
  | nil =>
    refine ⟨list, ?_, holds⟩
    cases rounds <;> rfl
  | cons item rest ih =>
    cases rounds with
    | zero => simp at enough
    | succ rounds =>
      have short : rest.length ≤ rounds := by simpa using enough
      have found := holds.2 item (by simp)
      rw [dataAt, map_eq_some_iff] at found
      obtain ⟨elem, present, content⟩ := found
      by_cases remove : doomed item.1 item.2 = true
      · obtain ⟨next, removed, nextHolds⟩ := remove_holds list front rest item holds
        obtain ⟨after, loop, afterHolds⟩ := ih rounds next front nextHolds short
        have nextValid := nextHolds.1
        rw [map_append] at nextValid
        have resumed := next_resumes next _ _ nextValid
        refine ⟨after, ?_, by simpa [remove] using afterHolds⟩
        simp only [map_cons, head?_cons, listTraverse, present, content, remove,
          if_true, removed, resumed, loop, bind_eq_bind, bind_some]
      · have passed : Holds list ((front ++ [item]) ++ rest) := by simpa using holds
        obtain ⟨after, loop, afterHolds⟩ := ih rounds list (front ++ [item]) passed short
        have passedValid := passed.1
        rw [map_append] at passedValid
        have resumed := next_resumes list _ _ passedValid
        refine ⟨after, ?_, by simpa [remove] using afterHolds⟩
        have here : elemGetNext list (.elem item.1) = some (rest.map fst).head? := by
          simpa [cursorBehind] using resumed
        simp only [map_cons, head?_cons, listTraverse, present, content, remove,
          Bool.false_eq_true, if_false, here, loop, bind_eq_bind, bind_some]

inductive Built [DecidableEq Data] : ListState Data → Prop where
  | create : Built listCreate
  | call (list after : ListState Data) (call : Call Data) :
      Built list → Admissible list call → perform list call = some after → Built after

theorem built_holds [DecidableEq Data] (built : Built list) : ∃ items, Holds list items := by
  induction built with
  | create => exact ⟨[], create_holds⟩
  | call list after call _ admissible done ih =>
    obtain ⟨items, holds⟩ := ih
    obtain ⟨next, performed, nextHolds⟩ := perform_edits list items call holds admissible
    rw [some.inj (done.symm.trans performed)]
    exact ⟨_, nextHolds⟩

/-- Every list built by the calls is a well-formed doubly linked list, the next
call on it cannot fault, and a traversal that removes the elements a predicate
names sees every element once, in order, and leaves exactly the others. -/
theorem list_traversal_exact [DecidableEq Data] (list : ListState Data) (built : Built list) :
    ∃ items, Holds list items ∧
      (∀ call, Admissible list call →
        ∃ after, perform list call = some after ∧ Holds after (edit items call)) ∧
      ∀ doomed rounds, items.length ≤ rounds →
        ∃ after, listTraverse doomed rounds list list.head = some (after, items.map fst) ∧
          Holds after (items.filter fun item => !doomed item.1 item.2) := by
  obtain ⟨items, holds⟩ := built_holds list built
  refine ⟨items, holds, fun call admissible => perform_edits list items call holds admissible, ?_⟩
  intro doomed rounds enough
  obtain ⟨after, loop, afterHolds⟩ := traverse_filters doomed rounds list [] items holds enough
  rw [← holds.1.headFirst] at loop
  exact ⟨after, loop, afterHolds⟩

theorem list_traversal_exact_sample :
    ∃ list after : ListState Nat, ∃ seen,
      listTraverse (fun _ data => data == 7) 3 list list.head = some (after, seen) ∧
        seen.length = 3 ∧ ∃ items, Holds after items := by
  have first := Built.call listCreate _ (.append 1 ⟨0, none, none⟩ 7) Built.create rfl rfl
  have second := Built.call _ _ (.append 2 ⟨0, none, none⟩ 8) first rfl rfl
  have third := Built.call _ _ (.prepend 3 ⟨0, none, none⟩ 7) second rfl rfl
  obtain ⟨items, holds, _, loops⟩ := list_traversal_exact _ third
  have counted : items.length = 3 := by
    have length := holds.1.counted
    rw [length_map] at length
    exact length.symm
  obtain ⟨after, loop, afterHolds⟩ := loops (fun _ data => data == 7) 3 (by omega)
  exact ⟨_, after, _, loop, by simpa using counted, _, afterHolds⟩

end Pvpgn.LinkedList
