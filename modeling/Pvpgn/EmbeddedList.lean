import Pvpgn.LinkedMemory

/-!
The lists of `elist.h`. An elist is linked both ways; a hlist only forwards, and its last node
points back to the head. The pointer `none` is the address of the head of a hlist.
-/

namespace Pvpgn.EmbeddedList
open LinkedMemory List Option Function Prod

/-- What every node and the head point at. -/
structure Elist (Node : Type) where
  next : Node → Node
  prev : Node → Node

def elistInit (Node : Type) : Elist Node := ⟨id, id⟩

section Elists
variable {Node : Type} [DecidableEq Node]

def Elist.setNext (list : Elist Node) (node target : Node) : Elist Node :=
  { list with next := Function.update list.next node target }

def Elist.setPrev (list : Elist Node) (node target : Node) : Elist Node :=
  { list with prev := Function.update list.prev node target }

def elistAddTail (list : Elist Node) (where_ what : Node) : Elist Node :=
  let list := list.setPrev what (list.prev where_)
  let list := list.setNext (list.prev where_) what
  let list := list.setNext what where_
  list.setPrev where_ what

def elistDel (list : Elist Node) (what : Node) : Elist Node :=
  let list := list.setPrev (list.next what) (list.prev what)
  list.setNext (list.prev what) (list.next what)

def Path (next : Option Node → Option Node) : Option Node → List Node → Option Node → Prop
  | start, [], stop => next start = stop
  | start, node :: rest, stop => next start = some node ∧ Path next (some node) rest stop

structure Ring (list : Elist (Option Node)) (nodes : List Node) : Prop where
  nodup : nodes.Nodup
  forward : Path list.next none nodes none
  backward : Path list.prev none nodes.reverse none

omit [DecidableEq Node] in
theorem path_append (next : Option Node → Option Node) (before after : List Node) (node : Node)
    (start stop : Option Node) : Path next start (before ++ node :: after) stop ↔
      Path next start before (some node) ∧ Path next (some node) after stop := by
  induction before generalizing start with
  | nil => rfl
  | cons first rest ih => simp only [cons_append, Path, ih, and_assoc]

omit [DecidableEq Node] in
theorem path_first (next : Option Node → Option Node) (nodes : List Node) (start : Option Node)
    (path : Path next start nodes none) : next start = nodes.head? := by
  cases nodes with
  | nil => exact path
  | cons node rest => exact path.1

omit [DecidableEq Node] in
theorem path_frame (next changed : Option Node → Option Node) (nodes : List Node)
    (start other stop : Option Node) (path : Path next start nodes stop)
    (begins : changed other = next start)
    (same : ∀ node ∈ nodes, changed (some node) = next (some node)) :
    Path changed other nodes stop := by
  induction nodes generalizing start other with
  | nil => exact begins.trans path
  | cons node rest ih =>
    exact ⟨begins.trans path.1, ih (some node) (some node) path.2 (same node mem_cons_self)
      fun later member => same later (mem_cons_of_mem _ member)⟩

theorem path_redirect_end (next : Option Node → Option Node) (nodes : List Node)
    (stop target : Option Node) (nodup : nodes.Nodup) (path : Path next none nodes stop) :
    Path (update next nodes.getLast? target) none nodes target := by
  rcases eq_nil_or_concat nodes with empty | ⟨front, last, split⟩
  · subst empty
    exact update_self _ _ _
  rw [concat_eq_append] at split
  subst split
  rw [getLast?_concat]
  have outside : last ∉ front := fun member =>
    disjoint_of_nodup_append nodup member (mem_singleton_self last)
  obtain ⟨way, _⟩ := (path_append next front [] last none stop).mp path
  refine (path_append _ front [] last none target).mpr ⟨?_, update_self _ _ _⟩
  refine path_frame next _ front none none (some last) way
    (update_of_ne (by simp) _ _) fun node member => ?_
  refine update_of_ne (fun same => outside ?_) _ _
  rwa [← some.inj same]

omit [DecidableEq Node] in
theorem ring_init : Ring (elistInit (Option Node)) [] := ⟨nodup_nil, rfl, rfl⟩

section Members
variable {list : Elist (Option Node)} {nodes before after : List Node} {node : Node}

omit [DecidableEq Node] in
theorem Ring.first (ring : Ring list nodes) : list.next none = nodes.head? :=
  path_first list.next nodes none ring.forward

omit [DecidableEq Node] in
theorem Ring.next (ring : Ring list (before ++ node :: after)) :
    list.next (some node) = after.head? :=
  path_first list.next after (some node)
    ((path_append list.next before after node none none).mp ring.forward).2

omit [DecidableEq Node] in
theorem Ring.second (ring : Ring list (node :: after)) : list.next (some node) = after.head? := by
  have whole : Ring list ([] ++ node :: after) := ring
  exact whole.next

omit [DecidableEq Node] in
theorem Ring.last (ring : Ring list nodes) : list.prev none = nodes.getLast? := by
  rw [path_first list.prev nodes.reverse none ring.backward, head?_reverse]

omit [DecidableEq Node] in
theorem Ring.prev (ring : Ring list (before ++ node :: after)) :
    list.prev (some node) = before.getLast? := by
  have backward := ring.backward
  rw [reverse_append, reverse_cons, append_assoc, singleton_append] at backward
  rw [path_first list.prev before.reverse (some node)
    ((path_append list.prev after.reverse before.reverse node none none).mp backward).2,
    head?_reverse]

theorem path_skip (next : Option Node → Option Node) (nodup : (before ++ node :: after).Nodup)
    (path : Path next none (before ++ node :: after) none) :
    Path (update next before.getLast? after.head?) none (before ++ after) none := by
  obtain ⟨front, back⟩ := (path_append next before after node none none).mp path
  have parts := nodup_append'.mp nodup
  have redirected := path_redirect_end next before (some node) after.head? parts.1 front
  cases after with
  | nil => simpa using redirected
  | cons first rest =>
    refine (path_append _ before rest first none none).mpr ⟨redirected, ?_⟩
    have apart : ∀ later ∈ first :: rest, some later ≠ before.getLast? := fun later member same =>
      parts.2.2 (mem_of_getLast? same.symm) (mem_cons_of_mem _ member)
    refine path_frame next _ rest (some first) (some first) none back.2
      (update_of_ne (apart first mem_cons_self) _ _) fun later member => ?_
    exact update_of_ne (apart later (mem_cons_of_mem _ member)) _ _

theorem Ring.del (ring : Ring list (before ++ node :: after)) :
    Ring (elistDel list (some node)) (before ++ after) := by
  have nextIs := ring.next
  have prevIs := ring.prev
  have apart : some node ≠ list.next (some node) := by
    rw [nextIs]
    intro same
    have later := nodup_middle.mp ring.nodup
    exact (nodup_cons.mp later).1
      (mem_append_right _ (mem_of_head? same.symm))
  have nextChanged : (elistDel list (some node)).next =
      update list.next (list.prev (some node)) (list.next (some node)) := by
    simp [elistDel, Elist.setNext, Elist.setPrev, apart]
  refine ⟨?_, ?_, ?_⟩
  · exact (nodup_middle.mp ring.nodup).of_cons
  · have skipped := path_skip list.next ring.nodup ring.forward
    rwa [← nextIs, ← prevIs, ← nextChanged] at skipped
  have backward := ring.backward
  have nodup := nodup_reverse.mpr ring.nodup
  rw [reverse_append, reverse_cons, append_assoc, singleton_append]
    at backward nodup
  have skipped := path_skip list.prev nodup backward
  rw [getLast?_reverse, head?_reverse, ← nextIs, ← prevIs, ← reverse_append]
    at skipped
  exact skipped

theorem Ring.erase (ring : Ring list nodes) (member : node ∈ nodes) :
    Ring (elistDel list (some node)) (nodes.erase node) := by
  obtain ⟨before, after, rfl⟩ := append_of_mem member
  have outside : node ∉ before := fun inside =>
    disjoint_of_nodup_append ring.nodup inside mem_cons_self
  rw [erase_append_right _ outside, erase_cons_head]
  exact ring.del

theorem path_splice (next : Option Node → Option Node) (nodup : (before ++ after).Nodup)
    (fresh : node ∉ before ++ after) (path : Path next none (before ++ after) none) :
    Path (update (update next before.getLast? (some node)) (some node) after.head?)
      none (before ++ node :: after) none := by
  have parts := nodup_append'.mp nodup
  have apart : ∀ other ∈ before ++ after, some other ≠ some node := fun other member same =>
    fresh (some.inj same ▸ member)
  have front : Path next none before after.head? := by
    cases after with
    | nil => rwa [append_nil] at path
    | cons first rest => exact ((path_append next before rest first none none).mp path).1
  refine (path_append _ before after node none none).mpr ⟨?_, ?_⟩
  · refine path_frame _ _ before none none (some node)
      (path_redirect_end next before after.head? (some node) parts.1 front) ?_ fun other member => ?_
    · exact update_of_ne (by simp) _ _
    · exact update_of_ne (apart other (mem_append_left _ member)) _ _
  cases after with
  | nil => exact update_self _ _ _
  | cons first rest =>
    have back := ((path_append next before rest first none none).mp path).2
    have outside : ∀ later ∈ first :: rest, some later ≠ before.getLast? :=
      fun later member same => parts.2.2 (mem_of_getLast? same.symm) member
    have kept : ∀ later ∈ first :: rest, update
        (update next before.getLast? (some node)) (some node) (some first)
          (some later) = next (some later) := by
      intro later member
      rw [update_of_ne (apart later (mem_append_right _ member)),
        update_of_ne (outside later member)]
    exact ⟨update_self _ _ _, path_frame next _ rest (some first) (some first) none back
      (kept first mem_cons_self) fun later member =>
        kept later (mem_cons_of_mem _ member)⟩

theorem Ring.insert (ring : Ring list (before ++ after)) (fresh : node ∉ before ++ after) :
    Ring (elistAddTail list after.head? (some node)) (before ++ node :: after) := by
  have prevIs : list.prev after.head? = before.getLast? := by
    cases after with
    | nil =>
      rw [append_nil] at ring
      exact ring.last
    | cons first rest => exact ring.prev
  have apart : after.head? ≠ some node := fun same =>
    fresh (mem_append_right _ (mem_of_head? same))
  refine ⟨nodup_middle.mpr (nodup_cons.mpr ⟨fresh, ring.nodup⟩), ?_, ?_⟩
  · have spliced := path_splice list.next ring.nodup fresh ring.forward
    simpa [elistAddTail, Elist.setNext, Elist.setPrev, prevIs, apart] using spliced
  have nodup := nodup_reverse.mpr ring.nodup
  have backward := ring.backward
  have outside : node ∉ (before ++ after).reverse := fun member =>
    fresh (mem_reverse.mp member)
  rw [reverse_append] at nodup backward outside
  have spliced := path_splice list.prev nodup outside backward
  simpa [elistAddTail, Elist.setNext, Elist.setPrev, prevIs, update_comm apart] using spliced

theorem Ring.add_tail (ring : Ring list nodes) (fresh : node ∉ nodes) :
    Ring (elistAddTail list none (some node)) (nodes ++ [node]) := by
  rw [← append_nil nodes] at ring fresh
  exact ring.insert fresh

end Members

end Elists

/-- The container of a node: `hlist_entry` is the node's own address. -/
structure Link (Item : Type) where
  item : Item
  next : Option Nat

structure Hlist (Item : Type) where
  next : Option Nat
  memory : Memory (Link Item)

variable {last2 : Option (Option Nat)}

section Hlists
variable {Item : Type}

def Hlist.item (list : Hlist Item) (address : Nat) : Option Item :=
  (load list.memory address).map Link.item

def getNext (list : Hlist Item) : Option Nat → Option (Option Nat)
  | none => some list.next
  | some address => (load list.memory address).map Link.next

def setNext (list : Hlist Item) (where_ target : Option Nat) : Option (Hlist Item) :=
  match where_ with
  | none => some { list with next := target }
  | some address => do
    let memory ← update list.memory address fun node => { node with next := target }
    some { list with memory }

def hlistInit (list : Hlist Item) : Hlist Item := { list with next := none }

def hlistAdd (list : Hlist Item) (where_ : Option Nat) (what : Nat) : Option (Hlist Item) := do
  let next ← getNext list where_
  let list ← setNext list (some what) next
  setNext list where_ (some what)

/-- `prev2` is `NULL` when `what` is first. -/
def hlistPromote (list : Hlist Item) (what : Nat) (prev : Option Nat)
    (prev2 : Option (Option Nat)) : Option (Hlist Item) :=
  match prev2 with
  | none => some list
  | some prev2 => do
    let next ← getNext list (some what)
    let list ← setNext list prev next
    let list ← setNext list prev2 (some what)
    setNext list (some what) prev

/-- A new node outside any list: `hlist_init` points it at itself. -/
def createNode (list : Hlist Item) (address : Nat) (item : Item) : Option (Hlist Item) := do
  let memory ← allocate list.memory address ⟨item, some address⟩
  some { list with memory }

def setItem (list : Hlist Item) (address : Nat) (change : Item → Item) : Option (Hlist Item) := do
  let memory ← update list.memory address fun node => { node with item := change node.item }
  some { list with memory }

/-- `hlist_for_each` up to the first container that hits, which is promoted. A loop over more nodes
than are allocated would not end. -/
def searchWithin (hit : Item → Option Bool) (list : Hlist Item) :
    Nat → Option Nat → Option Nat → Option (Option Nat) → Option (Option Nat × Hlist Item)
  | _, none, _, _ => some (none, list)
  | 0, some _, _, _ => none
  | budget + 1, some curr, last, last2 => do
    let node ← load list.memory curr
    if ← hit node.item then
      let list ← hlistPromote list curr last last2
      some (some curr, list)
    else searchWithin hit list budget node.next (some curr) (some last)

def search (hit : Item → Option Bool) (list : Hlist Item) : Option (Option Nat × Hlist Item) :=
  searchWithin hit list list.memory.keys.length list.next none none

/-- `hlist_for_each` over all containers, which may be changed on the way. -/
def visitWithin (change : Item → Item) :
    Nat → Option Nat → Memory (Link Item) → Option (List Item × Memory (Link Item))
  | _, none, memory => some ([], memory)
  | 0, some _, _ => none
  | budget + 1, some curr, memory => do
    let node ← load memory curr
    let memory ← store memory curr { node with item := change node.item }
    let (items, memory) ← visitWithin change budget node.next memory
    some (node.item :: items, memory)

def visit (change : Item → Item) (list : Hlist Item) : Option (List Item × Hlist Item) := do
  let (items, memory) ← visitWithin change list.memory.keys.length list.next list.memory
  some (items, { list with memory })

/-- `hlist_for_each_safe`, releasing every container. -/
def destroyWithin : Nat → Option Nat → Memory (Link Item) → Option (Memory (Link Item))
  | _, none, memory => some memory
  | 0, some _, _ => none
  | budget + 1, some curr, memory => do
    let node ← load memory curr
    let memory ← release memory curr
    destroyWithin budget node.next memory

def destroyAll (list : Hlist Item) : Option (Hlist Item) := do
  let memory ← destroyWithin list.memory.keys.length list.next list.memory
  some { list with memory }

def Holds (list : Hlist Item) (nodes : List (Nat × Item)) : Prop :=
  Chain Link.next list.memory list.next (nodes.map fst) none ∧
    ∀ node ∈ nodes, list.item node.1 = some node.2

variable {list : Hlist Item}

theorem holds_init (list : Hlist Item) : Holds (hlistInit list) [] :=
  ⟨rfl, fun _ member => absurd member not_mem_nil⟩

theorem holds_nodup {nodes : List (Nat × Item)} (holds : Holds list nodes) :
    (nodes.map fst).Nodup :=
  chain_nodup Link.next list.memory list.next _ holds.1

theorem holds_load {nodes : List (Nat × Item)} (holds : Holds list nodes) {node : Nat × Item}
    (member : node ∈ nodes) : ∃ next, load list.memory node.1 = some ⟨node.2, next⟩ := by
  obtain ⟨cell, present, same⟩ := map_eq_some_iff.mp (holds.2 node member)
  exact ⟨cell.next, by rw [present, ← same]⟩

theorem set_next_node (address : Nat) (node : Link Item) (target : Option Nat)
    (present : load list.memory address = some node) :
    setNext list (some address) target =
      some { list with memory := list.memory.insert address { node with next := target } } := by
  simp [setNext, update_allocated list.memory address node _ present]

theorem item_insert (address other : Nat) (node : Link Item) (target : Option Nat)
    (present : load list.memory address = some node) :
    Hlist.item { list with memory := list.memory.insert address { node with next := target } }
      other = list.item other := by
  rw [Hlist.item, load_insert, Hlist.item]
  by_cases same : other = address
  · rw [if_pos same, same, present]
    rfl
  · rw [if_neg same]

theorem set_next_front (before : List Nat) (old target : Option Nat)
    (chain : Chain Link.next list.memory list.next before old) (distinct : before.Nodup) :
    ∃ changed, setNext list before.getLast? target = some changed ∧
      Chain Link.next changed.memory changed.next before target ∧
      (∀ address, address ∉ before → load changed.memory address = load list.memory address) ∧
      ∀ address, changed.item address = list.item address := by
  rcases eq_nil_or_concat before with empty | ⟨front, last, split⟩
  · subst empty
    exact ⟨{ list with next := target }, rfl, rfl, fun _ _ => rfl, fun _ => rfl⟩
  rw [split, concat_eq_append] at chain distinct ⊢
  have ends := (chain_append Link.next list.memory list.next old front [last]).mp chain
  obtain ⟨_, _, _, node, present, _⟩ := ends
  have apart : last ∉ front := by
    intro member
    exact (disjoint_of_nodup_append distinct) member (mem_singleton_self last)
  refine ⟨{ list with memory := list.memory.insert last { node with next := target } }, ?_,
    chain_redirect_last Link.next list.memory list.next old target front last
    { node with next := target } chain apart rfl, ?_, ?_⟩
  · rw [getLast?_concat, set_next_node last node target present]
  · intro address outside
    have other : address ≠ last := fun same =>
      outside (by simp [same])
    rw [load_insert, if_neg other]
  · intro address
    exact item_insert last address node target present

theorem create_add_holds {nodes : List (Nat × Item)} (holds : Holds list nodes) (address : Nat)
    (item : Item) (unused : load list.memory address = none) :
    ∃ created added, createNode list address item = some created ∧
      hlistAdd created none address = some added ∧ Holds added ((address, item) :: nodes) := by
  obtain ⟨chain, items⟩ := holds
  let created : Hlist Item :=
    { list with memory := list.memory.insert address ⟨item, some address⟩ }
  have present : load created.memory address = some ⟨item, some address⟩ := by
    rw [load_insert, if_pos rfl]
  have outside : ∀ node ∈ nodes, node.1 ≠ address := by
    rintro node member rfl
    have found := items node member
    simp [Hlist.item, unused] at found
  refine ⟨created, { list with next := some address
                               memory := created.memory.insert address ⟨item, list.next⟩ },
    ?_, ?_, ⟨⟨rfl, ⟨item, list.next⟩, ?_, ?_⟩, ?_⟩⟩
  · simp [createNode, allocate_fresh list.memory address _ unused, created]
  · have linked : setNext created (some address) created.next = some
        { created with memory := created.memory.insert address ⟨item, list.next⟩ } :=
      set_next_node address _ list.next present
    simp only [hlistAdd, getNext, bind_eq_bind, bind_some, linked]
    rfl
  · rw [load_insert, if_pos rfl]
  · apply chain_frame Link.next list.memory _ _ _ _ chain
    intro other member
    obtain ⟨node, listed, rfl⟩ := mem_map.mp member
    rw [load_insert, if_neg (outside node listed), load_insert, if_neg (outside node listed)]
  · intro node member
    rcases mem_cons.mp member with rfl | listed
    · rw [Hlist.item, load_insert, if_pos rfl]
      rfl
    · rw [Hlist.item, load_insert, if_neg (outside node listed), load_insert,
        if_neg (outside node listed)]
      exact items node listed

theorem set_item_holds {nodes : List (Nat × Item)} (holds : Holds list nodes) {node : Nat × Item}
    (member : node ∈ nodes) (change : Item → Item) :
    ∃ changed, setItem list node.1 change = some changed ∧
      Holds changed (nodes.map fun other =>
        if other.1 = node.1 then (other.1, change other.2) else other) := by
  obtain ⟨next, present⟩ := holds_load holds member
  obtain ⟨chain, items⟩ := holds
  refine ⟨{ list with memory := list.memory.insert node.1 ⟨change node.2, next⟩ }, ?_, ?_, ?_⟩
  · simp [setItem, update_allocated list.memory node.1 _ _ present]
  · have names : (nodes.map fun other =>
        if other.1 = node.1 then (other.1, change other.2) else other).map fst = nodes.map fst := by
      rw [List.map_map]
      apply map_congr_left
      intro other _
      simp only [comp_apply]
      split <;> rfl
    rw [names]
    apply chain_frame Link.next list.memory _ _ _ _ chain
    intro address _
    rw [load_insert]
    by_cases same : address = node.1
    · rw [if_pos same, same, present]
      rfl
    · rw [if_neg same]
  · intro changed listed
    obtain ⟨other, inside, rfl⟩ := mem_map.mp listed
    have found := items other inside
    by_cases same : other.1 = node.1
    · simp only [same, if_true, Hlist.item, load_insert]
      rw [Hlist.item, same, present] at found
      rw [← some.inj found]
      rfl
    · simp only [same, if_false, Hlist.item, load_insert]
      exact found

theorem visit_within_nodes (change : Item → Item) (nodes : List (Nat × Item)) (budget : Nat)
    (first : Option Nat) (memory : Memory (Link Item))
    (chain : Chain Link.next memory first (nodes.map fst) none)
    (items : ∀ node ∈ nodes, (load memory node.1).map Link.item = some node.2)
    (enough : nodes.length ≤ budget) :
    ∃ changed, visitWithin change budget first memory = some (nodes.map snd, changed) ∧
      ∀ address, load changed address =
        if address ∈ nodes.map fst then
          (load memory address).map fun node => { node with item := change node.item }
        else load memory address := by
  have distinct := chain_nodup Link.next memory first _ chain
  induction nodes generalizing first budget memory with
  | nil =>
    have ends : first = none := chain
    subst ends
    exact ⟨memory, by cases budget <;> rfl, fun _ => by simp⟩
  | cons node rest ih =>
    obtain ⟨start, cell, present, tail⟩ := chain
    subst start
    obtain ⟨outside, others⟩ := nodup_cons.mp distinct
    have item : cell.item = node.2 := by
      have here := items node mem_cons_self
      rw [present] at here
      exact some.inj here
    cases budget with
    | zero => simp at enough
    | succ budget =>
      have untouched : ∀ address ∈ rest.map fst,
          load (memory.insert node.1 { cell with item := change cell.item }) address =
            load memory address := by
        intro address member
        rw [load_insert, if_neg (ne_of_mem_of_not_mem member outside)]
      obtain ⟨changed, visited, loads⟩ := ih budget cell.next
        (memory.insert node.1 { cell with item := change cell.item })
        (chain_frame Link.next memory _ _ _ _ tail fun address member => by
          rw [untouched address member])
        (fun other member => by
          rw [untouched other.1 (mem_map_of_mem member)]
          exact items other (mem_cons_of_mem _ member))
        (by simpa using enough) others
      refine ⟨changed, ?_, ?_⟩
      · simp only [visitWithin, present, store_allocated memory node.1 _ _ present, visited,
          bind_eq_bind, bind_some]
        rw [map_cons, item]
      intro address
      rw [loads address, load_insert]
      by_cases same : address = node.1
      · subst same
        simp [outside, present]
      · simp only [same, if_false, map_cons, mem_cons, false_or]

theorem visit_holds {nodes : List (Nat × Item)} (holds : Holds list nodes) (change : Item → Item) :
    ∃ changed, visit change list = some (nodes.map snd, changed) ∧
      Holds changed (nodes.map fun node => (node.1, change node.2)) := by
  obtain ⟨chain, items⟩ := holds
  have fits := chain_fits Link.next list.memory list.next _ chain
  rw [length_map] at fits
  obtain ⟨changed, visited, loads⟩ :=
    visit_within_nodes change nodes _ list.next list.memory chain items fits
  refine ⟨{ list with memory := changed }, ?_, ?_, ?_⟩
  · simp [visit, visited]
  · rw [List.map_map]
    apply chain_frame Link.next list.memory _ _ _ _ chain
    intro address member
    have loaded := loads address
    rw [if_pos (by simpa using member)] at loaded
    rw [loaded]
    cases load list.memory address <;> rfl
  · intro node member
    obtain ⟨source, listed, rfl⟩ := mem_map.mp member
    have present := items source listed
    rw [Hlist.item, loads source.1, if_pos (mem_map_of_mem listed), Option.map_map]
    obtain ⟨cell, loaded, same⟩ := map_eq_some_iff.mp present
    rw [loaded, map_some, comp_apply, same]

theorem destroy_within_nodes (addresses : List Nat) (budget : Nat) (first : Option Nat)
    (memory : Memory (Link Item)) (chain : Chain Link.next memory first addresses none)
    (enough : addresses.length ≤ budget) :
    ∃ freed, destroyWithin budget first memory = some freed := by
  have distinct := chain_nodup Link.next memory first _ chain
  induction addresses generalizing first budget memory with
  | nil =>
    have ends : first = none := chain
    subst ends
    exact ⟨memory, by cases budget <;> rfl⟩
  | cons address rest ih =>
    obtain ⟨start, cell, present, tail⟩ := chain
    subst start
    obtain ⟨outside, others⟩ := nodup_cons.mp distinct
    cases budget with
    | zero => simp at enough
    | succ budget =>
      obtain ⟨freed, destroyed⟩ := ih budget cell.next (memory.erase address)
        (chain_frame Link.next memory _ _ _ _ tail fun other member => by
          rw [load_erase, if_neg (ne_of_mem_of_not_mem member outside)])
        (by simpa using enough) others
      exact ⟨freed, by simp [destroyWithin, present, release_allocated memory address _ present,
        destroyed]⟩

theorem destroy_holds {nodes : List (Nat × Item)} (holds : Holds list nodes) :
    ∃ freed, destroyAll list = some freed := by
  obtain ⟨freed, destroyed⟩ := destroy_within_nodes _ _ list.next list.memory holds.1
    (chain_fits Link.next list.memory list.next _ holds.1)
  exact ⟨{ list with memory := freed }, by simp [destroyAll, destroyed]⟩

theorem promote_holds (before after : List (Nat × Item)) (prev what : Nat × Item)
    (holds : Holds list (before ++ prev :: what :: after)) :
    ∃ changed, hlistPromote list what.1 (some prev.1) (some (before.map fst).getLast?) =
        some changed ∧ Holds changed (before ++ what :: prev :: after) := by
  have distinct := holds_nodup holds
  obtain ⟨chain, items⟩ := holds
  rw [map_append, map_cons, map_cons] at chain distinct
  obtain ⟨_, front, rfl, prevNode, prevLoad, _, whatNode, whatLoad, tail⟩ :=
    (chain_append Link.next list.memory list.next none _ _).mp chain
  have apart : prev.1 ≠ what.1 := by
    have later := (nodup_append'.mp distinct).2.1
    exact fun same => (nodup_cons.mp later).1 (same ▸ mem_cons_self)
  have outside := disjoint_of_nodup_append distinct
  have prevOutside : prev.1 ∉ before.map fst := fun member =>
    outside member mem_cons_self
  have whatOutside : what.1 ∉ before.map fst := fun member =>
    outside member (mem_cons_of_mem _ mem_cons_self)
  -- `prev->next = what->next`
  let first : Hlist Item :=
    { list with memory := list.memory.insert prev.1 { prevNode with next := whatNode.next } }
  have firstStep : setNext list (some prev.1) whatNode.next = some first :=
    set_next_node prev.1 prevNode whatNode.next prevLoad
  have firstFront : Chain Link.next first.memory first.next (before.map fst)
      (some prev.1) := by
    apply chain_frame Link.next list.memory _ _ _ _ front
    intro address member
    rw [load_insert, if_neg (ne_of_mem_of_not_mem member prevOutside)]
  -- `prev2->next = what`
  obtain ⟨second, secondStep, secondFront, kept, secondItems⟩ :=
    set_next_front _ _ (some what.1) firstFront (nodup_append'.mp distinct).1
  have whatKept : load second.memory what.1 = some whatNode := by
    rw [kept _ whatOutside, load_insert, if_neg apart.symm, whatLoad]
  -- `what->next = prev`
  let third : Hlist Item :=
    { second with memory := second.memory.insert what.1 { whatNode with next := some prev.1 } }
  have thirdStep : setNext second (some what.1) (some prev.1) = some third :=
    set_next_node what.1 whatNode (some prev.1) whatKept
  refine ⟨third, ?_, ?_, ?_⟩
  · have read : getNext list (some what.1) = some whatNode.next := by simp [getNext, whatLoad]
    simp only [hlistPromote, read, firstStep, secondStep, thirdStep, bind_eq_bind, bind_some]
  · rw [map_append, map_cons, map_cons, chain_append]
    refine ⟨some what.1, ?_, rfl, { whatNode with next := some prev.1 }, ?_, rfl,
      { prevNode with next := whatNode.next }, ?_, ?_⟩
    · apply chain_frame Link.next second.memory _ _ _ _ secondFront
      intro address member
      rw [load_insert, if_neg (ne_of_mem_of_not_mem member whatOutside)]
    · rw [load_insert, if_pos rfl]
    · rw [load_insert, if_neg apart, kept _ prevOutside, load_insert, if_pos rfl]
    apply chain_frame Link.next list.memory _ _ _ _ tail
    intro address member
    have later := nodup_cons.mp (nodup_append'.mp distinct).2.1
    have notPrev : address ≠ prev.1 := fun same =>
      later.1 (same ▸ mem_cons_of_mem _ member)
    have notWhat : address ≠ what.1 := fun same =>
      (nodup_cons.mp later.2).1 (same ▸ member)
    have notBefore : address ∉ before.map fst := fun inside =>
      outside inside (mem_cons_of_mem _ (mem_cons_of_mem _ member))
    rw [load_insert, if_neg notWhat, kept _ notBefore, load_insert, if_neg notPrev]
  · intro node member
    have listed : node ∈ before ++ prev :: what :: after := by
      simp only [mem_append, mem_cons] at member ⊢
      tauto
    rw [item_insert what.1 node.1 whatNode (some prev.1) whatKept, secondItems,
      item_insert prev.1 node.1 prevNode whatNode.next prevLoad, items node listed]

theorem chain_head {memory : Memory (Link Item)} {first : Option Nat} {addresses : List Nat}
    (chain : Chain Link.next memory first addresses none) : first = addresses.head? := by
  cases addresses with
  | nil => exact chain
  | cons address rest => exact chain.1

def Behind (before : List (Nat × Item)) (last : Option Nat) (last2 : Option (Option Nat)) : Prop :=
  last = (before.map fst).getLast? ∧
    (before = [] ∧ last2 = none ∨ ∃ front prev, before = front ++ [prev] ∧
      last2 = some (front.map fst).getLast?)

theorem behind_step {before : List (Nat × Item)} {last : Option Nat}
    (behind : Behind before last last2) (node : Nat × Item) :
    Behind (before ++ [node]) (some node.1) (some last) :=
  ⟨by simp, Or.inr ⟨before, node, rfl, by rw [behind.1]⟩⟩

variable {hit : Item → Option Bool}

theorem search_within_step {budget address : Nat} {last : Option Nat} {cell : Link Item}
    {result : Bool} (present : load list.memory address = some cell)
    (tested : hit cell.item = some result) :
    searchWithin hit list (budget + 1) (some address) last last2 =
      if result then
        (hlistPromote list address last last2).map fun changed => (some address, changed)
      else searchWithin hit list budget cell.next (some address) (some last) := by
  rw [searchWithin, present]
  cases result with
  | false => simp [tested]
  | true => cases hlistPromote list address last last2 <;> simp [tested]

theorem search_within_nodes (check : Item → Bool) (rest before : List (Nat × Item)) (budget : Nat)
    (last : Option Nat) (last2 : Option (Option Nat)) (holds : Holds list (before ++ rest))
    (behind : Behind before last last2) (known : ∀ node ∈ rest, hit node.2 = some (check node.2))
    (enough : rest.length ≤ budget) :
    ∃ changed nodes, searchWithin hit list budget (rest.map fst).head? last last2 =
        some ((rest.find? fun node => check node.2).map fst, changed) ∧
      Holds changed nodes ∧ nodes.Perm (before ++ rest) := by
  induction rest generalizing before budget last last2 with
  | nil => exact ⟨list, before ++ [], by cases budget <;> rfl, holds, Perm.refl _⟩
  | cons node rest ih =>
    cases budget with
    | zero => simp at enough
    | succ budget =>
      have whole := holds.1
      rw [map_append, map_cons, chain_append] at whole
      obtain ⟨_, _, _, cell, present, tail⟩ := whole
      have item : cell.item = node.2 := by
        have here := holds.2 node (by simp)
        rw [Hlist.item, present] at here
        exact some.inj here
      have tested : hit cell.item = some (check node.2) := by
        rw [item]
        exact known node mem_cons_self
      have head : ((node :: rest).map fst).head? = some node.1 := rfl
      rw [head, search_within_step present tested]
      by_cases found : check node.2 = true
      · rw [if_pos found, find?_cons_of_pos
          (p := fun node : Nat × Item => check node.2) found]
        rcases behind.2 with ⟨_, noPrev⟩ | ⟨front, prev, split, prev2⟩
        · exact ⟨list, before ++ node :: rest, by simp [noPrev, hlistPromote], holds, Perm.refl _⟩
        have lastPrev : last = some prev.1 := by rw [behind.1, split]; simp
        rw [split, append_assoc, singleton_append] at holds ⊢
        obtain ⟨changed, promoted, result⟩ := promote_holds front rest prev node holds
        refine ⟨changed, front ++ node :: prev :: rest, ?_, result,
          Perm.append_left front (Perm.swap prev node rest)⟩
        rw [lastPrev, prev2, promoted]
        rfl
      · rw [if_neg found, find?_cons_of_neg
          (p := fun node : Nat × Item => check node.2) found, chain_head tail]
        have passed : before ++ node :: rest = (before ++ [node]) ++ rest := by simp
        rw [passed] at holds ⊢
        exact ih (before ++ [node]) budget (some node.1) (some last) holds
          (behind_step behind node)
          (fun other member => known other (mem_cons_of_mem _ member))
          (by simpa using enough)

theorem search_holds (check : Item → Bool) {nodes : List (Nat × Item)} (holds : Holds list nodes)
    (known : ∀ node ∈ nodes, hit node.2 = some (check node.2)) :
    ∃ changed after, search hit list =
        some ((nodes.find? fun node => check node.2).map fst, changed) ∧
      Holds changed after ∧ after.Perm nodes := by
  have fits := chain_fits Link.next list.memory list.next _ holds.1
  rw [length_map] at fits
  rw [search, chain_head holds.1]
  exact search_within_nodes check nodes [] _ none none holds ⟨rfl, Or.inl ⟨rfl, rfl⟩⟩ known fits

end Hlists

end Pvpgn.EmbeddedList
