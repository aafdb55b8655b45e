import Mathlib.Data.List.AList
import Mathlib.Data.List.Perm.Subperm

/-!
A heap of cells at addresses, and the linked structures that lie in it. Every
access names an allocated address or is `none`: a read or write through a freed
or never allocated pointer is a fault, not a value. A pointer is an optional
address, `none` for NULL.
-/

namespace Pvpgn.LinkedMemory
open List Option

variable {Cell : Type}

abbrev Memory (Cell : Type) := AList (fun _ : Nat => Cell)

def load (memory : Memory Cell) (address : Nat) : Option Cell := memory.lookup address

def store (memory : Memory Cell) (address : Nat) (cell : Cell) : Option (Memory Cell) :=
  if (load memory address).isSome then some (memory.insert address cell) else none

/-- The allocator chooses the address; it may reuse one that was released. -/
def allocate (memory : Memory Cell) (address : Nat) (cell : Cell) : Option (Memory Cell) :=
  if (load memory address).isSome then none else some (memory.insert address cell)

def release (memory : Memory Cell) (address : Nat) : Option (Memory Cell) :=
  if (load memory address).isSome then some (memory.erase address) else none

def update (memory : Memory Cell) (address : Nat) (change : Cell → Cell) :
    Option (Memory Cell) := do
  let cell ← load memory address
  store memory address (change cell)

/-- A write through a pointer that may be NULL, which is then left out. -/
def redirect (memory : Memory Cell) (pointer : Option Nat) (change : Cell → Cell) :
    Option (Memory Cell) :=
  match pointer with
  | none => some memory
  | some address => update memory address change

def Allocated (memory : Memory Cell) (address : Nat) : Prop :=
    ∃ cell, load memory address = some cell

section
variable (memory : Memory Cell)
include memory

theorem load_insert (address other : Nat) (cell : Cell) :
    load (memory.insert address cell) other =
      if other = address then some cell else load memory other := by
  by_cases same : other = address
  · subst same
    simp [load]
  · rw [if_neg same]
    exact AList.lookup_insert_ne same

theorem load_erase (address other : Nat) :
    load (memory.erase address) other = if other = address then none else load memory other := by
  by_cases same : other = address
  · subst same
    simp [load]
  · rw [if_neg same]
    exact AList.lookup_erase_ne same

theorem store_allocated (address : Nat) (old cell : Cell)
    (present : load memory address = some old) :
    store memory address cell = some (memory.insert address cell) := by
  simp [store, present]

theorem update_allocated (address : Nat) (old : Cell) (change : Cell → Cell)
    (present : load memory address = some old) :
    update memory address change = some (memory.insert address (change old)) := by
  simp [update, present, store_allocated memory address old]

theorem allocate_fresh (address : Nat) (cell : Cell) (fresh : load memory address = none) :
    allocate memory address cell = some (memory.insert address cell) := by
  simp [allocate, fresh]

theorem release_allocated (address : Nat) (old : Cell) (present : load memory address = some old) :
    release memory address = some (memory.erase address) := by
  simp [release, present]

theorem redirect_load (pointer : Option Nat) (change : Cell → Cell)
    (valid : ∀ address ∈ pointer, Allocated memory address) :
    ∃ changed, redirect memory pointer change = some changed ∧ ∀ other, load changed other =
      if pointer = some other then (load memory other).map change else load memory other := by
  cases pointer with
  | none => exact ⟨memory, rfl, fun other => by simp⟩
  | some address =>
    obtain ⟨cell, present⟩ := valid address rfl
    refine ⟨_, update_allocated memory address cell change present, fun other => ?_⟩
    rw [load_insert]
    by_cases same : other = address
    · simp [same, present]
    · simp [same, Ne.symm same]

end

theorem redirect_keeps {Value : Type} {memory changed : Memory Cell} {pointer : Option Nat}
    (change : Cell → Cell) (kept : Cell → Value) (same : ∀ cell, kept (change cell) = kept cell)
    (loads : ∀ other, load changed other =
      if pointer = some other then (load memory other).map change else load memory other)
    (other : Nat) : (load changed other).map kept = (load memory other).map kept := by
  rw [loads]
  split
  · rw [Option.map_map]
    congr 1
    funext cell
    exact same cell
  · rfl

theorem allocated_key (memory : Memory Cell) (address : Nat) (cell : Cell)
    (present : load memory address = some cell) : address ∈ memory.keys := by
  apply AList.mem_keys.mp
  apply AList.lookup_isSome.mp
  rw [load] at present
  simp [present]

/-! Singly linked chains. `Chain memory first addresses last` follows `link` from
the pointer `first` through exactly `addresses` to the pointer `last`. -/
section Chains
variable (link : Cell → Option Nat)

def Chain (memory : Memory Cell) : Option Nat → List Nat → Option Nat → Prop
  | first, [], last => first = last
  | first, address :: rest, last =>
    first = some address ∧
      ∃ cell, load memory address = some cell ∧ Chain memory (link cell) rest last

theorem chain_append (memory : Memory Cell) (first last : Option Nat) (left right : List Nat) :
    Chain link memory first (left ++ right) last ↔
      ∃ middle, Chain link memory first left middle ∧ Chain link memory middle right last := by
  induction left generalizing first with
  | nil => simp [Chain]
  | cons address rest ih =>
    simp only [cons_append, Chain, ih]
    constructor
    · rintro ⟨start, cell, present, middle, before, after⟩
      exact ⟨middle, ⟨start, cell, present, before⟩, after⟩
    · rintro ⟨middle, ⟨start, cell, present, before⟩, after⟩
      exact ⟨start, cell, present, middle, before, after⟩

theorem chain_allocated (memory : Memory Cell) (first last : Option Nat) (addresses : List Nat)
    (chain : Chain link memory first addresses last) :
    ∀ address ∈ addresses, Allocated memory address := by
  induction addresses generalizing first with
  | nil => simp
  | cons address rest ih =>
    obtain ⟨_, cell, present, tail⟩ := chain
    intro other member
    rcases mem_cons.mp member with same | later
    · subst same
      exact ⟨cell, present⟩
    · exact ih _ tail other later

theorem chain_frame (memory other : Memory Cell) (first last : Option Nat) (addresses : List Nat)
    (chain : Chain link memory first addresses last)
    (same : ∀ address ∈ addresses, (load other address).map link = (load memory address).map link) :
    Chain link other first addresses last := by
  induction addresses generalizing first with
  | nil => exact chain
  | cons address rest ih =>
    obtain ⟨start, cell, present, tail⟩ := chain
    have here := same address mem_cons_self
    rw [present, map_some, map_eq_some_iff] at here
    obtain ⟨copy, copied, linked⟩ := here
    refine ⟨start, copy, copied, ?_⟩
    rw [linked]
    exact ih _ tail (fun a member => same a (mem_cons_of_mem address member))

theorem chain_redirect_last (memory : Memory Cell) (first after target : Option Nat)
    (rest : List Nat) (last : Nat) (cell : Cell)
    (chain : Chain link memory first (rest ++ [last]) after) (distinct : last ∉ rest)
    (linked : link cell = target) :
    Chain link (memory.insert last cell) first (rest ++ [last]) target := by
  rw [chain_append] at chain ⊢
  obtain ⟨middle, front, start, _⟩ := chain
  refine ⟨middle, ?_, start, cell, by rw [load_insert, if_pos rfl], linked⟩
  apply chain_frame link memory _ _ _ _ front
  intro address member
  rw [load_insert, if_neg (ne_of_mem_of_not_mem member distinct)]

theorem split_last {addresses : List Nat} (nonempty : addresses ≠ [])
    (distinct : addresses.Nodup) :
    ∃ front last, addresses = front ++ [last] ∧ ∀ other ∈ front, last ≠ other := by
  obtain ⟨front, last, split⟩ := (eq_nil_or_concat addresses).resolve_left nonempty
  rw [concat_eq_append] at split
  subst split
  exact ⟨front, last, rfl, fun other member same =>
    (nodup_append.mp distinct).2.2 other member last (by simp) same.symm⟩

theorem chain_redirect_end {memory changed : Memory Cell} {change : Cell → Cell}
    {first after target : Option Nat} {addresses : List Nat} (nonempty : addresses ≠ [])
    (chain : Chain link memory first addresses after) (distinct : addresses.Nodup)
    (linked : ∀ cell, link (change cell) = target) (loads : ∀ other, load changed other =
      if addresses.getLast? = some other then (load memory other).map change
      else load memory other) : Chain link changed first addresses target := by
  obtain ⟨front, last, rfl, outside⟩ := split_last nonempty distinct
  rw [chain_append] at chain ⊢
  obtain ⟨middle, before, start, cell, present, -⟩ := chain
  refine ⟨middle, chain_frame link memory changed first middle front before ?_, start, change cell,
    ?_, linked cell⟩
  · intro other member
    rw [loads, if_neg (by simpa using outside other member)]
  · rw [loads, if_pos (by simp), present]
    rfl

theorem chain_unique (memory : Memory Cell) (first : Option Nat) (left right : List Nat)
    (leftChain : Chain link memory first left none)
    (rightChain : Chain link memory first right none) : left = right := by
  induction left generalizing first right with
  | nil =>
    cases right with
    | nil => rfl
    | cons address rest =>
      have ends : first = none := leftChain
      simp [ends, Chain] at rightChain
  | cons address rest ih =>
    obtain ⟨start, cell, present, tail⟩ := leftChain
    cases right with
    | nil =>
      have ends : first = none := rightChain
      simp [ends] at start
    | cons other others =>
      obtain ⟨otherStart, otherCell, otherPresent, otherTail⟩ := rightChain
      have same : address = other := Option.some.inj (start.symm.trans otherStart)
      subst same
      have sameCell : cell = otherCell := Option.some.inj (present.symm.trans otherPresent)
      subst sameCell
      rw [ih _ _ tail otherTail]

/-- A chain that ends never meets an address twice: both visits would be followed
by the same remaining chain, of two different lengths. -/
theorem chain_nodup (memory : Memory Cell) (first : Option Nat) (addresses : List Nat)
    (chain : Chain link memory first addresses none) : addresses.Nodup := by
  induction addresses generalizing first with
  | nil => exact nodup_nil
  | cons address rest ih =>
    have whole := chain
    obtain ⟨start, cell, present, tail⟩ := chain
    refine nodup_cons.mpr ⟨?_, ih _ tail⟩
    intro again
    obtain ⟨before, after, split⟩ := append_of_mem again
    rw [split, chain_append] at tail
    obtain ⟨middle, _, second⟩ := tail
    have returns : middle = some address := second.1
    rw [returns, ← start] at second
    have same := chain_unique link memory first _ _ whole second
    have lengths := congrArg length same
    rw [split] at lengths
    simp at lengths
    omega

theorem chain_skip {memory changed : Memory Cell} {change : Cell → Cell} {first : Option Nat}
    {front back : List Nat} {target : Nat} {cell : Cell}
    (chain : Chain link memory first (front ++ target :: back) none)
    (present : load memory target = some cell) (linked : ∀ other, link (change other) = link cell)
    (loads : ∀ other, load changed other =
      if front.getLast? = some other then (load memory other).map change
      else load memory other) :
    Chain link changed (if front = [] then link cell else first) (front ++ back) none := by
  have distinct := chain_nodup link memory first _ chain
  obtain ⟨frontDistinct, -, across⟩ := nodup_append.mp distinct
  rw [chain_append] at chain
  obtain ⟨middle, before, start, found, there, tail⟩ := chain
  obtain rfl := Option.some.inj (present.symm.trans there)
  have kept : Chain link changed (link cell) back none := by
    refine chain_frame link memory changed _ _ _ tail fun other member => ?_
    have apart : front.getLast? ≠ some other := fun last =>
      across other (mem_of_getLast? last) other (mem_cons_of_mem target member) rfl
    rw [loads, if_neg apart]
  by_cases empty : front = []
  · rw [if_pos empty, empty]
    exact kept
  · rw [if_neg empty, chain_append]
    exact ⟨link cell, chain_redirect_end link empty before frontDistinct linked loads, kept⟩

theorem chain_extend {memory changed : Memory Cell} {first : Option Nat} {addresses : List Nat}
    {address : Nat} (chain : Chain link memory first addresses none)
    (here : (load changed address).map link = some none)
    (links : ∀ other ∈ addresses, (load changed other).map link =
      if addresses.getLast? = some other then some (some address)
      else (load memory other).map link) :
    Chain link changed (if addresses = [] then some address else first)
      (addresses ++ [address]) none := by
  obtain ⟨added, present, ends⟩ := map_eq_some_iff.mp here
  have distinct := chain_nodup link memory first addresses chain
  by_cases nonempty : addresses = []
  · subst nonempty
    exact ⟨rfl, added, present, ends⟩
  obtain ⟨front, last, rfl, outside⟩ := split_last nonempty distinct
  rw [if_neg (by simp), append_assoc, chain_append]
  obtain ⟨middle, before, start, cell, there, -⟩ :=
    (chain_append link memory first none _ _).mp chain
  have relinked := links last (by simp)
  rw [if_pos (by simp), map_eq_some_iff] at relinked
  obtain ⟨copy, copied, target⟩ := relinked
  refine ⟨middle, chain_frame link memory changed first middle front before ?_, start, copy, copied,
    target, added, present, ends⟩
  intro other member
  rw [links other (by simp [member]), if_neg (by simpa using outside other member)]

theorem chain_fits (memory : Memory Cell) (first : Option Nat) (addresses : List Nat)
    (chain : Chain link memory first addresses none) : addresses.length ≤ memory.keys.length := by
  have distinct := chain_nodup link memory first addresses chain
  apply (subperm_of_subset distinct _).length_le
  intro address member
  obtain ⟨cell, present⟩ := chain_allocated link memory first none addresses chain address member
  exact allocated_key memory address cell present

/-- Follow the links to the first cell that hits. A walk over more cells than
are allocated goes round a cycle and never ends. -/
def seekWithin (memory : Memory Cell) (hit : Cell → Bool) : Nat → Option Nat → Option (Option Nat)
  | _, none => some none
  | 0, some _ => none
  | budget + 1, some address => do
    let cell ← load memory address
    if hit cell then some (some address) else seekWithin memory hit budget (link cell)

def seek (memory : Memory Cell) (hit : Cell → Bool) (first : Option Nat) : Option (Option Nat) :=
  seekWithin link memory hit memory.keys.length first

def hits (memory : Memory Cell) (hit : Cell → Bool) (address : Nat) : Bool :=
  (load memory address).any hit

theorem seek_within_chain (memory : Memory Cell) (hit : Cell → Bool) (budget : Nat)
    (first : Option Nat) (addresses : List Nat)
    (chain : Chain link memory first addresses none) (enough : addresses.length ≤ budget) :
    seekWithin link memory hit budget first = some (addresses.find? (hits memory hit)) := by
  induction addresses generalizing first budget with
  | nil =>
    have ends : first = none := chain
    subst ends
    cases budget <;> rfl
  | cons address rest ih =>
    obtain ⟨start, cell, present, tail⟩ := chain
    subst start
    cases budget with
    | zero => simp at enough
    | succ budget =>
      have next := ih budget (link cell) tail (by simpa using enough)
      by_cases here : hit cell = true
      · simp [seekWithin, present, here, hits]
      · simp [seekWithin, present, here, hits, next]

theorem seek_chain (memory : Memory Cell) (hit : Cell → Bool) (first : Option Nat)
    (addresses : List Nat) (chain : Chain link memory first addresses none) :
    seek link memory hit first = some (addresses.find? (hits memory hit)) :=
  seek_within_chain link memory hit _ first addresses chain
    (chain_fits link memory first addresses chain)

/-- As `seek`, with the cell before the hit, or the last cell when nothing hits. -/
def trailWithin (memory : Memory Cell) (hit : Cell → Bool) :
    Nat → Option Nat → Option Nat → Option (Option Nat × Option Nat)
  | _, before, none => some (before, none)
  | 0, _, some _ => none
  | budget + 1, before, some address => do
    let cell ← load memory address
    if hit cell then some (before, some address)
    else trailWithin memory hit budget (some address) (link cell)

def trail (memory : Memory Cell) (hit : Cell → Bool) (first : Option Nat) :
    Option (Option Nat × Option Nat) :=
  trailWithin link memory hit memory.keys.length none first

theorem trail_within_chain (memory : Memory Cell) (hit : Cell → Bool) (budget : Nat)
    (before first : Option Nat) (addresses : List Nat)
    (chain : Chain link memory first addresses none) (enough : addresses.length ≤ budget) :
    (∃ front target back cell, addresses = front ++ target :: back ∧
      load memory target = some cell ∧ hit cell = true ∧
      (∀ other ∈ front, hits memory hit other = false) ∧
      trailWithin link memory hit budget before first =
        some (front.getLast?.or before, some target)) ∨
    ((∀ other ∈ addresses, hits memory hit other = false) ∧
      trailWithin link memory hit budget before first =
        some (addresses.getLast?.or before, none)) := by
  induction addresses generalizing before first budget with
  | nil =>
    have ends : first = none := chain
    subst ends
    right
    cases budget <;> simp [trailWithin]
  | cons address rest ih =>
    obtain ⟨start, cell, present, tail⟩ := chain
    subst start
    cases budget with
    | zero => simp at enough
    | succ budget =>
      by_cases here : hit cell = true
      · left
        exact ⟨[], address, rest, cell, rfl, present, here, by simp,
          by simp [trailWithin, present, here]⟩
      have missed : hits memory hit address = false := by
        simpa [hits, present] using here
      have behind : ∀ front : List Nat, (address :: front).getLast?.or before =
          front.getLast?.or (some address) := by
        intro front
        rw [getLast?_cons]
        cases front.getLast? <;> rfl
      have step : trailWithin link memory hit (budget + 1) before (some address) =
          trailWithin link memory hit budget (some address) (link cell) := by
        simp [trailWithin, present, here]
      rw [step]
      rcases ih budget (some address) (link cell) tail (by simpa using enough) with
        ⟨front, target, back, found, split, there, matched, others, walk⟩ | ⟨others, walk⟩
      · left
        refine ⟨address :: front, target, back, found, by rw [split]; rfl, there, matched, ?_,
          by rw [walk, behind]⟩
        intro other member
        rcases mem_cons.mp member with rfl | later
        · exact missed
        · exact others other later
      · right
        refine ⟨?_, by rw [walk, behind]⟩
        intro other member
        rcases mem_cons.mp member with rfl | later
        · exact missed
        · exact others other later

theorem trail_chain (memory : Memory Cell) (hit : Cell → Bool) (first : Option Nat)
    (addresses : List Nat) (chain : Chain link memory first addresses none) :
    (∃ front target back cell, addresses = front ++ target :: back ∧
      load memory target = some cell ∧ hit cell = true ∧
      (∀ other ∈ front, hits memory hit other = false) ∧
      trail link memory hit first = some (front.getLast?, some target)) ∨
    ((∀ other ∈ addresses, hits memory hit other = false) ∧
      trail link memory hit first = some (addresses.getLast?, none)) := by
  have walk := trail_within_chain link memory hit memory.keys.length none first addresses chain
    (chain_fits link memory first addresses chain)
  simp only [or_none] at walk
  exact walk
end Chains

/-! Doubly linked runs. `Run memory before addresses after` has the cells of
`addresses` linked both ways, with `before` behind the first and `after` ahead of
the last. -/
section Runs
variable (prev next : Cell → Option Nat)

def Run (memory : Memory Cell) : Option Nat → List Nat → Option Nat → Prop
  | _, [], _ => True
  | before, address :: rest, after =>
    ∃ cell, load memory address = some cell ∧ prev cell = before ∧
      next cell = rest.head?.or after ∧ Run memory (some address) rest after

theorem run_append (memory : Memory Cell) (before after : Option Nat) (left right : List Nat) :
    Run prev next memory before (left ++ right) after ↔
      Run prev next memory before left (right.head?.or after) ∧
        Run prev next memory (left.getLast?.or before) right after := by
  induction left generalizing before with
  | nil => simp [Run]
  | cons address rest ih =>
    simp only [cons_append, Run, ih]
    have ahead : (rest ++ right).head?.or after = rest.head?.or (right.head?.or after) := by
      cases rest <;> simp
    have behind : (address :: rest).getLast?.or before = rest.getLast?.or (some address) := by
      rw [getLast?_cons]
      cases rest.getLast? <;> rfl
    rw [ahead, behind]
    constructor
    · rintro ⟨cell, present, back, forth, inner, outer⟩
      exact ⟨⟨cell, present, back, forth, inner⟩, outer⟩
    · rintro ⟨⟨cell, present, back, forth, inner⟩, outer⟩
      exact ⟨cell, present, back, forth, inner, outer⟩

section
variable (memory other : Memory Cell) (before after : Option Nat) (addresses : List Nat)
  (run : Run prev next memory before addresses after)
include memory other before after addresses run

theorem run_frame (same : ∀ address ∈ addresses, load other address = load memory address) :
    Run prev next other before addresses after := by
  induction addresses generalizing before with
  | nil => trivial
  | cons address rest ih =>
    obtain ⟨cell, present, back, forth, tail⟩ := run
    exact ⟨cell, (same address mem_cons_self).trans present, back, forth,
      ih _ tail (fun a member => same a (mem_cons_of_mem address member))⟩

theorem run_frame_links (same : ∀ address ∈ addresses, (load other address).map (fun cell => (prev cell, next cell)) =
      (load memory address).map fun cell => (prev cell, next cell)) :
    Run prev next other before addresses after := by
  induction addresses generalizing before with
  | nil => trivial
  | cons address rest ih =>
    obtain ⟨cell, present, back, forth, tail⟩ := run
    have here := same address mem_cons_self
    rw [present, map_some, map_eq_some_iff] at here
    obtain ⟨copy, copied, linked⟩ := here
    obtain ⟨samePrev, sameNext⟩ := Prod.mk.inj linked
    exact ⟨copy, copied, samePrev.trans back, sameNext.trans forth,
      ih _ tail (fun a member => same a (mem_cons_of_mem address member))⟩

end

section
variable (memory : Memory Cell) (before after : Option Nat) (addresses : List Nat)
  (run : Run prev next memory before addresses after)
include memory before after addresses run

theorem run_allocated :
    ∀ address ∈ addresses, Allocated memory address := by
  induction addresses generalizing before with
  | nil => simp
  | cons address rest ih =>
    obtain ⟨cell, present, _, _, tail⟩ := run
    intro other member
    rcases mem_cons.mp member with same | later
    · subst same
      exact ⟨cell, present⟩
    · exact ih _ tail other later

theorem run_chain :
    Chain next memory (addresses.head?.or after) addresses after := by
  induction addresses generalizing before with
  | nil => simp [Chain]
  | cons address rest ih =>
    obtain ⟨cell, present, _, forth, tail⟩ := run
    refine ⟨by simp, cell, present, ?_⟩
    rw [forth]
    exact ih _ tail

end

theorem run_redirect_last (memory : Memory Cell) (before after target : Option Nat)
    (rest : List Nat) (last : Nat) (cell : Cell)
    (run : Run prev next memory before (rest ++ [last]) after) (distinct : last ∉ rest)
    (back : ∀ old, load memory last = some old → prev cell = prev old)
    (forth : next cell = target) :
    Run prev next (memory.insert last cell) before (rest ++ [last]) target := by
  rw [run_append] at run ⊢
  obtain ⟨front, old, present, oldBack, _, _⟩ := run
  constructor
  · apply run_frame prev next memory _ _ _ _ (by simpa using front)
    intro address member
    rw [load_insert, if_neg (ne_of_mem_of_not_mem member distinct)]
  · refine ⟨cell, by rw [load_insert, if_pos rfl], ?_, by simpa using forth, trivial⟩
    rw [back old present, oldBack]

theorem run_redirect_first (memory : Memory Cell) (before after target : Option Nat)
    (rest : List Nat) (first : Nat) (cell : Cell)
    (run : Run prev next memory before (first :: rest) after) (distinct : first ∉ rest)
    (back : prev cell = target)
    (forth : ∀ old, load memory first = some old → next cell = next old) :
    Run prev next (memory.insert first cell) target (first :: rest) after := by
  obtain ⟨old, present, _, oldForth, tail⟩ := run
  refine ⟨cell, by rw [load_insert, if_pos rfl], back, ?_, ?_⟩
  · rw [forth old present, oldForth]
  · apply run_frame prev next memory _ _ _ _ tail
    intro address member
    rw [load_insert, if_neg (ne_of_mem_of_not_mem member distinct)]

variable {memory changed : Memory Cell} {change : Cell → Cell} {before after target : Option Nat}
  {addresses : List Nat}

section
variable (run : Run prev next memory before addresses after) (distinct : addresses.Nodup)
include run distinct

theorem run_redirect_end (back : ∀ cell, prev (change cell) = prev cell)
    (forth : ∀ cell, next (change cell) = target) (loads : ∀ other, load changed other =
      if addresses.getLast? = some other then (load memory other).map change
      else load memory other) : Run prev next changed before addresses target := by
  by_cases nonempty : addresses = []
  · subst nonempty
    trivial
  obtain ⟨front, last, rfl, outside⟩ := split_last nonempty distinct
  rw [run_append] at run ⊢
  obtain ⟨first, cell, present, cellBack, -, -⟩ := run
  refine ⟨run_frame prev next memory changed _ _ _ (by simpa using first) ?_, change cell, ?_,
    (back cell).trans cellBack, by simpa using forth cell, trivial⟩
  · intro other member
    rw [loads, if_neg (by simpa using outside other member)]
  · rw [loads, if_pos (by simp), present]
    rfl

theorem run_redirect_start (back : ∀ cell, prev (change cell) = target)
    (forth : ∀ cell, next (change cell) = next cell)
    (loads : ∀ other ∈ addresses, load changed other =
      if addresses.head? = some other then (load memory other).map change
      else load memory other) : Run prev next changed target addresses after := by
  cases addresses with
  | nil => trivial
  | cons first rest =>
    obtain ⟨cell, present, -, cellForth, tail⟩ := run
    refine ⟨change cell, ?_, back cell, (forth cell).trans cellForth,
      run_frame prev next memory changed _ _ _ tail ?_⟩
    · rw [loads first mem_cons_self, head?_cons, if_pos rfl, present]
      rfl
    intro other member
    have apart : first ≠ other := by
      rintro rfl
      exact (nodup_cons.mp distinct).1 member
    rw [loads other (mem_cons_of_mem first member), head?_cons, if_neg (by simpa using apart)]

end

theorem run_skip {linked : Memory Cell} {forward backward : Cell → Cell} {front back : List Nat}
    {target : Nat} {cell : Cell} (run : Run prev next memory before (front ++ target :: back) after)
    (distinct : (front ++ target :: back).Nodup) (present : load memory target = some cell)
    (forwardPrev : ∀ other, prev (forward other) = prev other)
    (forwardNext : ∀ other, next (forward other) = next cell)
    (backwardPrev : ∀ other, prev (backward other) = prev cell)
    (backwardNext : ∀ other, next (backward other) = next other)
    (firstLoads : ∀ other, load changed other =
      if front.getLast? = some other then (load memory other).map forward else load memory other)
    (secondLoads : ∀ other, load linked other =
      if back.head? = some other then (load changed other).map backward else load changed other) :
    Run prev next linked before (front ++ back) after := by
  obtain ⟨frontDistinct, restDistinct, across⟩ := nodup_append.mp distinct
  obtain ⟨-, backDistinct⟩ := nodup_cons.mp restDistinct
  rw [run_append] at run ⊢
  obtain ⟨frontRun, found, there, cellPrev, cellNext, backRun⟩ := run
  obtain rfl := Option.some.inj (present.symm.trans there)
  have inBack : ∀ other, back.head? = some other → other ∈ back := fun other first =>
    mem_of_mem_head? first
  constructor
  · rw [← cellNext]
    refine run_frame prev next changed linked _ _ _
      (run_redirect_end prev next frontRun frontDistinct forwardPrev forwardNext firstLoads) ?_
    intro other member
    have apart : back.head? ≠ some other := fun first =>
      across other member other (mem_cons_of_mem target (inBack other first)) rfl
    rw [secondLoads, if_neg apart]
  · rw [← cellPrev]
    refine run_redirect_start prev next (run_frame prev next memory changed _ _ _ backRun ?_)
      backDistinct backwardPrev backwardNext (fun other _ => secondLoads other)
    intro other member
    have apart : front.getLast? ≠ some other := fun last =>
      across other (mem_of_getLast? last) other (mem_cons_of_mem target member) rfl
    rw [firstLoads, if_neg apart]
end Runs

end Pvpgn.LinkedMemory
