import Pvpgn.EmbeddedList

/-!
The timers of `timer.cpp`. A timer is in two lists: the global one, which is kept in the order of
the due times, and the one of its owner. Callbacks run while one of the lists is walked, and they
may add timers.
-/

namespace Pvpgn.Timers
open LinkedMemory EmbeddedList List Option Function Prod

structure Timer where
  owner : Nat
  when : Int
  cb : Option Nat
  data : UInt64

/-- The arguments of `timerlist_add_timer`, and where `xmalloc` puts the timer when some addresses
are in use. -/
structure Request where
  owner : Option Nat
  when : Int
  cb : Option Nat
  data : UInt64
  place : List Nat → Nat

/-- `timerlist_head` and the lists of `conn_get_timer`, with the timers by their addresses. -/
structure State where
  timers : Elist (Option Nat)
  owners : Nat → Elist (Option Nat)
  memory : Memory Timer

/-- What runs: a check, a deletion for one owner, or none of both. -/
inductive Phase
  | idle
  | checking (when : Int)
  | deleting (owner : Nat)

/-- What happens to timers, in order. A timer fires when its turn comes to have its callback
called, with the time that the callback gets. -/
inductive Entry
  | added (address : Nat) (timer : Timer)
  | fired (address : Nat) (timer : Timer) (time : Int)
  | began (phase : Phase)

/-- The loop of `timerlist_add_timer`. A loop over more nodes than are allocated would not end. -/
def findLater (timers : Elist (Option Nat)) (memory : Memory Timer) (when : Int) :
    Nat → Option Nat → Option (Option Nat)
  | _, none => some none
  | 0, some _ => none
  | budget + 1, some curr => do
    let ctimer ← load memory curr
    if ctimer.when > when then some (some curr)
    else findLater timers memory when budget (timers.next (some curr))

def timerlistAddTimer (state : State) (request : Request) : Option (Int × State × List Entry) :=
  match request.owner with
  | none => some (-1, state, [])
  | some owner => do
    let address := request.place state.memory.keys
    let timer : Timer := ⟨owner, request.when, request.cb, request.data⟩
    let memory ← allocate state.memory address timer
    let curr ← findLater state.timers memory request.when memory.keys.length
      (state.timers.next none)
    some (0,
      { timers := elistAddTail state.timers curr (some address)
        owners := Function.update state.owners owner
          (elistAddTail (state.owners owner) none (some address))
        memory },
      [.added address timer])

def addTimers : State → List Request → Option (State × List Entry)
  | state, [] => some (state, [])
  | state, request :: rest => do
    let (_, state, entries) ← timerlistAddTimer state request
    let (state, later) ← addTimers state rest
    some (state, entries ++ later)

/-- The timers that a callback adds, by what has happened in this operation up to its call. -/
abbrev Callbacks := List Entry → List Request

def callBack (respond : Callbacks) (state : State) (log : List Entry) (address : Nat)
    (timer : Timer) (time : Int) : Option (State × List Entry) := do
  let log := log ++ [.fired address timer time]
  let (state, entries) ← addTimers state (if timer.cb.isSome then respond log else [])
  some (state, log ++ entries)

/-- Both `elist_del` and `xfree` of a timer. -/
def unlink (state : State) (address : Nat) (timer : Timer) : Option State := do
  let memory ← release state.memory address
  some {
    timers := elistDel state.timers (some address)
    owners := Function.update state.owners timer.owner
      (elistDel (state.owners timer.owner) (some address))
    memory }

/-- `pos->next` -/
def follow (list : Elist (Option Nat)) (memory : Memory Timer) : Option Nat → Option (Option Nat)
  | none => some (list.next none)
  | some address => do
    let _ ← load memory address
    some (list.next (some address))

/-- The loop of `timerlist_del_all_timers`; it does not end within `budget` rounds if it is
`none`. -/
def deleteLoop (respond : Callbacks) (owner : Nat) :
    Nat → Option Nat → Option Nat → State → List Entry → Option (State × List Entry)
  | _, none, _, state, log => some (state, log)
  | 0, some _, _, _, _ => none
  | budget + 1, some curr, save, state, log => do
    let timer ← load state.memory curr
    let (state, log) ← callBack respond state log curr timer 0
    let state ← unlink state curr timer
    let next ← follow (state.owners owner) state.memory save
    deleteLoop respond owner budget save next state log

def timerlistDelAllTimers (budget : Nat) (respond : Callbacks) (state : State)
    (owner : Option Nat) : Option (Int × State × List Entry) :=
  match owner with
  | none => some (-1, state, [])
  | some owner => do
    let curr := (state.owners owner).next none
    let save ← follow (state.owners owner) state.memory curr
    let (state, log) ← deleteLoop respond owner budget curr save state
      [.began (.deleting owner)]
    some (0, state, log ++ [.began .idle])

/-- The loop of `timerlist_check_timers`. -/
def checkLoop (respond : Callbacks) (when : Int) :
    Nat → Option Nat → Option Nat → State → List Entry → Option (State × List Entry)
  | _, none, _, state, log => some (state, log)
  | 0, some _, _, _, _ => none
  | budget + 1, some curr, save, state, log => do
    let timer ← load state.memory curr
    if timer.when < when then
      let (state, log) ← callBack respond state log curr timer timer.when
      let state ← unlink state curr timer
      let next ← follow state.timers state.memory save
      checkLoop respond when budget save next state log
    else some (state, log)

def timerlistCheckTimers (budget : Nat) (respond : Callbacks) (state : State) (when : Int) :
    Option (Int × State × List Entry) := do
  let curr := state.timers.next none
  let save ← follow state.timers state.memory curr
  let (state, log) ← checkLoop respond when budget curr save state [.began (.checking when)]
  some (0, state, log ++ [.began .idle])

inductive Event
  | add (request : Request)
  | delAll (owner : Option Nat) (respond : Callbacks)
  | check (when : Int) (respond : Callbacks)

def step (budget : Nat) (state : State) : Event → Option (Int × State × List Entry)
  | .add request => timerlistAddTimer state request
  | .delAll owner respond => timerlistDelAllTimers budget respond state owner
  | .check when respond => timerlistCheckTimers budget respond state when

def Request.Fresh (request : Request) : Prop := ∀ used : List Nat, request.place used ∉ used

/-- Callbacks add timers that are due no earlier than the time being checked, and none when they
are called with time 0. -/
def Permitted : Event → Prop
  | .add request => request.Fresh
  | .delAll _ respond => ∀ log, respond log = []
  | .check when respond => ∀ log, ∀ request ∈ respond log, request.Fresh ∧ when ≤ request.when

def created : State := ⟨elistInit _, fun _ => elistInit _, ∅⟩

/-- The states of all runs, each with everything that has happened. -/
inductive Reached : State → List Entry → Prop
  | start : Reached created []
  | step {state after : State} {log entries : List Entry} {event : Event} {budget : Nat}
      {code : Int} (before : Reached state log) (permitted : Permitted event)
      (ran : step budget state event = some (code, after, entries)) :
      Reached after (log ++ entries)

/-! What a timer service is for, by what is pending at each address. -/
section Service

abbrev Pending := Nat → Option Timer

/-- The time with which a timer is called in a phase, if it is due. -/
def Phase.due (phase : Phase) (timer : Timer) : Option Int :=
  match phase with
  | .idle => none
  | .checking when => if timer.when < when then some timer.when else none
  | .deleting owner => if timer.owner = owner then some 0 else none

def Phase.Over (phase : Phase) (pending : Pending) : Prop :=
  ∀ address timer, pending address = some timer → phase.due timer = none

/-- A phase fires only timers that are due in it, and it does not end before all of them have
fired. -/
inductive Follows : Phase → Pending → List Entry → Phase → Pending → Prop
  | nil {phase : Phase} {pending : Pending} : Follows phase pending [] phase pending
  | added {phase last : Phase} {pending left : Pending} {address : Nat} {timer : Timer}
      {log : List Entry} (absent : pending address = none) (later : phase.due timer = none)
      (rest : Follows phase (Function.update pending address (some timer)) log last left) :
      Follows phase pending (.added address timer :: log) last left
  | fired {phase last : Phase} {pending left : Pending} {address : Nat} {timer : Timer}
      {time : Int} {log : List Entry} (present : pending address = some timer)
      (due : phase.due timer = some time)
      (rest : Follows phase (Function.update pending address none) log last left) :
      Follows phase pending (.fired address timer time :: log) last left
  | began {phase next last : Phase} {pending left : Pending} {log : List Entry}
      (past : phase.Over pending) (rest : Follows next pending log last left) :
      Follows phase pending (.began next :: log) last left

theorem follows_append {phase middle last : Phase} {pending between left : Pending}
    {log later : List Entry} (first : Follows phase pending log middle between)
    (second : Follows middle between later last left) :
    Follows phase pending (log ++ later) last left := by
  induction first with
  | nil => exact second
  | added absent due _ ih => exact .added absent due (ih second)
  | fired present due _ ih => exact .fired present due (ih second)
  | began past _ ih => exact .began past (ih second)

def Entry.address : Entry → Option Nat
  | .added address _ => some address
  | .fired address _ _ => some address
  | .began _ => none

/-- Not about this address, and no phase begins in which the timer is due. -/
def Quiet (address : Nat) (timer : Timer) (entry : Entry) : Prop :=
  entry.address ≠ some address ∧ ∀ phase, entry = .began phase → phase.due timer = none

/-- Not about this address, and no phase begins. -/
def Inside (address : Nat) (entry : Entry) : Prop :=
  entry.address ≠ some address ∧ ∀ phase, entry ≠ .began phase

/-- A timer fires in the first phase in which it is due, before that phase ends. -/
def Fires (address : Nat) (timer : Timer) (log : List Entry) : Prop :=
  ∃ waiting phase others time rest,
    log = waiting ++ .began phase :: (others ++ .fired address timer time :: rest) ∧
    phase.due timer = some time ∧ (∀ entry ∈ waiting, Quiet address timer entry) ∧
    ∀ entry ∈ others, Inside address entry

/-- It fires, or nothing has happened to it and it is still pending. -/
def Served (left : Pending) (address : Nat) (timer : Timer) (log : List Entry) : Prop :=
  (left address = some timer ∧ ∀ entry ∈ log, Quiet address timer entry) ∨ Fires address timer log

section Logs
variable {phase last : Phase} {pending left : Pending} {log : List Entry} {address : Nat}
  {timer : Timer} {time : Int}

theorem served_cons {entry : Entry} (quiet : Quiet address timer entry)
    (served : Served left address timer log) : Served left address timer (entry :: log) := by
  rcases served with ⟨kept, silent⟩ | ⟨waiting, phase, others, time, rest, rfl, due, silent, inside⟩
  · exact .inl ⟨kept, forall_mem_cons.mpr ⟨quiet, silent⟩⟩
  · exact .inr ⟨entry :: waiting, phase, others, time, rest, rfl, due,
      forall_mem_cons.mpr ⟨quiet, silent⟩, inside⟩

section
variable (follows : Follows phase pending log last left) (past : last.Over left)
  (present : pending address = some timer)
include follows past present

theorem due_fires (due : phase.due timer = some time) :
    ∃ others rest, log = others ++ .fired address timer time :: rest ∧
      ∀ entry ∈ others, Inside address entry := by
  induction follows with
  | nil =>
    rw [past address timer present] at due
    cases due
  | @added phase last pending left other later_ log absent later rest ih =>
    have apart : other ≠ address := by
      rintro rfl
      rw [present] at absent
      cases absent
    obtain ⟨others, behind, rfl, inside⟩ := ih past (by rwa [update_of_ne apart.symm]) due
    refine ⟨.added other later_ :: others, behind, rfl, ?_⟩
    exact forall_mem_cons.mpr ⟨⟨by simpa [Entry.address] using apart, by simp⟩, inside⟩
  | @fired phase last pending left other fired_ when_ log held now_ rest ih =>
    by_cases same : other = address
    · subst same
      obtain rfl : timer = fired_ := some.inj (present.symm.trans held)
      obtain rfl : time = when_ := some.inj (due.symm.trans now_)
      exact ⟨[], log, rfl, by simp⟩
    · obtain ⟨others, behind, rfl, inside⟩ := ih past (by rwa [update_of_ne (Ne.symm same)]) due
      refine ⟨.fired other fired_ when_ :: others, behind, rfl, ?_⟩
      exact forall_mem_cons.mpr ⟨⟨by simpa [Entry.address] using same, by simp⟩, inside⟩
  | began ended _ _ =>
    rw [ended address timer present] at due
    cases due

theorem pending_served (early : phase.due timer = none) :
    Served left address timer log := by
  induction follows with
  | nil => exact .inl ⟨present, by simp⟩
  | @added phase last pending left other later_ log absent later rest ih =>
    have apart : other ≠ address := by
      rintro rfl
      rw [present] at absent
      cases absent
    refine served_cons ⟨by simpa [Entry.address] using apart, by simp⟩ ?_
    exact ih past (by rwa [update_of_ne apart.symm]) early
  | @fired phase last pending left other fired_ when_ log held now_ rest ih =>
    have apart : other ≠ address := by
      rintro rfl
      obtain rfl : timer = fired_ := some.inj (present.symm.trans held)
      rw [now_] at early
      cases early
    refine served_cons ⟨by simpa [Entry.address] using apart, by simp⟩ ?_
    exact ih past (by rwa [update_of_ne apart.symm]) early
  | @began phase next last pending left log ended rest ih =>
    cases due : next.due timer with
    | none =>
      refine served_cons ⟨by simp [Entry.address], ?_⟩ (ih past present due)
      rintro _ ⟨⟩
      exact due
    | some time =>
      obtain ⟨others, later, rfl, inside⟩ := due_fires rest past present due
      exact .inr ⟨[], next, others, time, later, rfl, due, by simp, inside⟩

end

variable {after before : List Entry}

theorem added_served
    (follows : Follows phase pending (before ++ .added address timer :: after) last left)
    (past : last.Over left) : Served left address timer after := by
  generalize whole : before ++ .added address timer :: after = log at follows
  induction follows generalizing before with
  | nil => simp at whole
  | added absent later rest ih =>
    cases before with
    | nil =>
      cases whole
      exact pending_served rest past (update_self _ _ _) later
    | cons entry before =>
      cases whole
      exact ih past rfl
  | fired present due rest ih =>
    cases before with
    | nil => cases whole
    | cons entry before =>
      cases whole
      exact ih past rfl
  | began ended rest ih =>
    cases before with
    | nil => cases whole
    | cons entry before =>
      cases whole
      exact ih past rfl

theorem fired_added
    (follows : Follows phase pending (before ++ .fired address timer time :: after) last left) :
    (pending address = some timer ∧ ∀ entry ∈ before, entry.address ≠ some address) ∨
      ∃ earlier since, before = earlier ++ .added address timer :: since ∧
        ∀ entry ∈ since, entry.address ≠ some address := by
  generalize whole : before ++ .fired address timer time :: after = log at follows
  induction follows generalizing before with
  | nil => simp at whole
  | @added phase last pending left other later_ log absent later rest ih =>
    cases before with
    | nil => cases whole
    | cons entry before =>
      cases whole
      rcases ih rfl with ⟨held, silent⟩ | ⟨earlier, since, rfl, silent⟩
      · by_cases same : address = other
        · subst same
          rw [update_self, some.injEq] at held
          subst held
          exact .inr ⟨[], before, rfl, silent⟩
        · rw [update_of_ne same] at held
          exact .inl ⟨held, forall_mem_cons.mpr
            ⟨by simpa [Entry.address] using Ne.symm same, silent⟩⟩
      · exact .inr ⟨.added other later_ :: earlier, since, rfl, silent⟩
  | @fired phase last pending left other fired_ when_ log present due rest ih =>
    cases before with
    | nil =>
      cases whole
      exact .inl ⟨present, by simp⟩
    | cons entry before =>
      cases whole
      rcases ih rfl with ⟨held, silent⟩ | ⟨earlier, since, rfl, silent⟩
      · have apart : address ≠ other := by
          rintro rfl
          rw [update_self] at held
          cases held
        rw [update_of_ne apart] at held
        exact .inl ⟨held, forall_mem_cons.mpr
          ⟨by simpa [Entry.address] using apart.symm, silent⟩⟩
      · exact .inr ⟨.fired other fired_ when_ :: earlier, since, rfl, silent⟩
  | @began phase next last pending left log past rest ih =>
    cases before with
    | nil => cases whole
    | cons entry before =>
      cases whole
      rcases ih rfl with ⟨held, silent⟩ | ⟨earlier, since, rfl, silent⟩
      · exact .inl ⟨held, forall_mem_cons.mpr ⟨by simp [Entry.address], silent⟩⟩
      · exact .inr ⟨.began next :: earlier, since, rfl, silent⟩

end Logs

end Service

/-- The timers of a state in the order of the global list: sorted by due time, each in the list of
its owner and in no other. -/
structure Listed (state : State) (timers : List (Nat × Timer)) : Prop where
  ring : Ring state.timers (timers.map fst)
  sorted : timers.Pairwise fun first second => first.2.when ≤ second.2.when
  cells : ∀ address timer, load state.memory address = some timer ↔ (address, timer) ∈ timers
  owners : ∀ owner, ∃ nodes, Ring (state.owners owner) nodes ∧
    ∀ address, address ∈ nodes ↔ ∃ timer, (address, timer) ∈ timers ∧ timer.owner = owner

variable {address : Nat} {log : List Entry}

section Lists
variable {state : State} {timers : List (Nat × Timer)}

theorem created_listed : Listed created [] := by
  refine ⟨ring_init, .nil, by simp [created, load], fun owner => ⟨[], ring_init, by simp⟩⟩

variable {limit : Int} {curr : Option Nat} {respond : Callbacks} {high low : List (Nat × Timer)}
  {entry : Nat × Timer} {save : Option Nat} (memory : Memory Timer)

theorem load_inserted (address : Nat) (timer : Timer) :
    load (memory.insert address timer) = update (load memory) address (some timer) := by
  funext other
  rw [load_insert, update_apply]

theorem load_erased (address : Nat) :
    load (memory.erase address) = update (load memory) address none := by
  funext other
  rw [load_erase, update_apply]

theorem load_unused (address : Nat) (unused : address ∉ memory.keys) :
    load memory address = none := by
  cases present : load memory address with
  | none => rfl
  | some timer => exact absurd (allocated_key memory address timer present) unused

theorem listed_addresses (listed : Listed state timers) : (timers.map fst).Nodup :=
  listed.ring.nodup

theorem find_later_spec {list : Elist (Option Nat)} {memory : Memory Timer} (when : Int)
    (front rest : List (Nat × Timer)) (budget : Nat)
    (ring : Ring list ((front ++ rest).map fst))
    (cells : ∀ entry ∈ rest, load memory entry.1 = some entry.2) (enough : rest.length ≤ budget) :
    ∃ low high, rest = low ++ high ∧
      findLater list memory when budget (rest.head?.map fst) = some (high.head?.map fst) ∧
      (∀ entry ∈ low, entry.2.when ≤ when) ∧ ∀ entry ∈ high.head?, when < entry.2.when := by
  induction rest generalizing front budget with
  | nil => exact ⟨[], [], rfl, by cases budget <;> rfl, by simp, by simp⟩
  | cons entry rest ih =>
    cases budget with
    | zero => simp at enough
    | succ budget =>
      have here := cells entry mem_cons_self
      by_cases later : entry.2.when > when
      · refine ⟨[], entry :: rest, rfl, ?_, by simp, by simpa using later⟩
        simp [findLater, here, later]
      rw [append_cons] at ring
      have next : list.next (some entry.1) = rest.head?.map fst := by
        have after : Ring list (front.map fst ++ entry.1 :: rest.map fst) := by
          simpa using ring
        rw [after.next, head?_map]
      obtain ⟨low, high, split, found, before, behind⟩ := ih (front ++ [entry]) budget ring
        (fun other member => cells other (mem_cons_of_mem _ member))
        (by simpa using enough)
      refine ⟨entry :: low, high, by rw [split]; rfl, ?_, ?_, behind⟩
      · simp [findLater, here, later, next, found]
      · exact forall_mem_cons.mpr ⟨Int.not_lt.mp later, before⟩

theorem sorted_insert
    (sorted : (low ++ high).Pairwise fun first second => first.2.when ≤ second.2.when)
    (before : ∀ other ∈ low, other.2.when ≤ entry.2.when)
    (behind : ∀ other ∈ high.head?, entry.2.when < other.2.when) :
    (low ++ entry :: high).Pairwise fun first second => first.2.when ≤ second.2.when := by
  obtain ⟨lowSorted, highSorted, across⟩ := pairwise_append.mp sorted
  have above : ∀ other ∈ high, entry.2.when ≤ other.2.when := by
    cases high with
    | nil => simp
    | cons first rest =>
      have least := behind first rfl
      refine forall_mem_cons.mpr ⟨Int.le_of_lt least, fun other member => ?_⟩
      exact Int.le_trans (Int.le_of_lt least) (rel_of_pairwise_cons highSorted member)
  refine pairwise_append.mpr ⟨lowSorted, pairwise_cons.mpr ⟨above, highSorted⟩, ?_⟩
  intro first firstIn second secondIn
  rcases mem_cons.mp secondIn with rfl | inside
  · exact before first firstIn
  · exact across first firstIn second inside

def Request.timer (request : Request) (owner : Nat) : Timer :=
  ⟨owner, request.when, request.cb, request.data⟩

variable {event : Event} {first : Nat × Timer} {later : List (Nat × Timer)} {other : Nat × Timer}
  {owner : Nat} {request : Request}

theorem mem_inserted : other ∈ low ++ entry :: high ↔ other = entry ∨ other ∈ low ++ high := by
  simp [or_left_comm]

theorem insert_listed (listed : Listed state (low ++ high)) (timer : Timer)
    (unused : load state.memory address = none)
    (before : ∀ other ∈ low, other.2.when ≤ timer.when)
    (behind : ∀ other ∈ high.head?, timer.when < other.2.when) :
    Listed
      ⟨elistAddTail state.timers (high.head?.map fst) (some address),
        update state.owners timer.owner
          (elistAddTail (state.owners timer.owner) none (some address)),
        state.memory.insert address timer⟩
      (low ++ (address, timer) :: high) := by
  have outside : ∀ other, (address, other) ∉ low ++ high := by
    intro other member
    rw [(listed.cells address other).mpr member] at unused
    cases unused
  constructor
  · have ring : Ring state.timers (low.map fst ++ high.map fst) := by
      simpa using listed.ring
    have free : address ∉ low.map fst ++ high.map fst := by
      rw [← map_append]
      intro member
      obtain ⟨entry, inside, same⟩ := mem_map.mp member
      exact outside entry.2 (same ▸ inside)
    simpa using ring.insert free
  · exact sorted_insert listed.sorted before behind
  · intro other cell
    rw [load_insert, mem_inserted, mk.injEq]
    by_cases same : other = address
    · subst same
      have absent : (other, cell) ∉ low ++ high := outside cell
      simp [absent, eq_comm]
    · simp only [same, if_false, false_and, false_or]
      exact listed.cells other cell
  intro owner
  obtain ⟨nodes, ring, exact_⟩ := listed.owners owner
  by_cases same : timer.owner = owner
  · subst same
    have free : address ∉ nodes := by
      intro member
      obtain ⟨other, inside, _⟩ := (exact_ address).mp member
      exact outside other inside
    refine ⟨nodes ++ [address], by simpa using ring.add_tail free, fun other => ?_⟩
    rw [mem_append, mem_singleton, exact_ other]
    constructor
    · rintro (⟨cell, inside, owned⟩ | rfl)
      · exact ⟨cell, mem_inserted.mpr (.inr inside), owned⟩
      · exact ⟨timer, mem_inserted.mpr (.inl rfl), rfl⟩
    · rintro ⟨cell, inside, owned⟩
      rcases mem_inserted.mp inside with here | old
      · exact .inr (mk.inj here).1
      · exact .inl ⟨cell, old, owned⟩
  · refine ⟨nodes, by simpa [update_of_ne (Ne.symm same)] using ring, fun other => ?_⟩
    rw [exact_ other]
    constructor
    · rintro ⟨cell, inside, owned⟩
      exact ⟨cell, mem_inserted.mpr (.inr inside), owned⟩
    rintro ⟨cell, inside, owned⟩
    rcases mem_inserted.mp inside with here | old
    · rw [(mk.inj here).2] at owned
      exact absurd owned same
    · exact ⟨cell, old, owned⟩

theorem add_timer_spec (listed : Listed state timers) (owned : request.owner = some owner)
    (fresh : request.Fresh) :
    ∃ after address low high, timerlistAddTimer state request =
        some (0, after, [.added address (request.timer owner)]) ∧
      timers = low ++ high ∧ Listed after (low ++ (address, request.timer owner) :: high) ∧
      load state.memory address = none ∧ load after.memory =
        update (load state.memory) address (some (request.timer owner)) := by
  let address := request.place state.memory.keys
  let memory := state.memory.insert address (request.timer owner)
  have unused : load state.memory address = none :=
    load_unused state.memory address (fresh state.memory.keys)
  have loads : load memory = update (load state.memory) address
      (some (request.timer owner)) := load_inserted state.memory address _
  have outside : ∀ timer, (address, timer) ∉ timers := by
    intro timer member
    rw [(listed.cells address timer).mpr member] at unused
    cases unused
  have cells : ∀ entry ∈ timers, load memory entry.1 = some entry.2 := by
    intro entry member
    have apart : entry.1 ≠ address := fun same => outside entry.2 (same ▸ member)
    rw [loads, update_of_ne apart]
    exact (listed.cells entry.1 entry.2).mpr member
  have enough : timers.length ≤ memory.keys.length := by
    have inside : timers.map fst ⊆ memory.keys := by
      intro other member
      obtain ⟨entry, listedIn, rfl⟩ := mem_map.mp member
      exact allocated_key memory entry.1 entry.2 (cells entry listedIn)
    have shorter := ((listed_addresses listed).subperm inside).length_le
    rwa [length_map] at shorter
  obtain ⟨low, high, rfl, found, before, behind⟩ := find_later_spec request.when []
    timers memory.keys.length listed.ring cells enough
  refine ⟨⟨elistAddTail state.timers (high.head?.map fst) (some address),
    update state.owners owner (elistAddTail (state.owners owner) none (some address)),
    memory⟩, address, low, high, ?_, rfl, ?_, unused, loads⟩
  · have first : state.timers.next none = (low ++ high).head?.map fst := by
      rw [listed.ring.first, head?_map]
    simp only [timerlistAddTimer, owned, first]
    rw [allocate_fresh state.memory address _ unused]
    simp only [bind_eq_bind, bind_some]
    rw [show (⟨owner, request.when, request.cb, request.data⟩ : Timer) = request.timer owner
      from rfl, found]
    rfl
  · exact insert_listed listed (request.timer owner) unused before behind

def unlinked (state : State) (address : Nat) (timer : Timer) : State where
  timers := elistDel state.timers (some address)
  owners := Function.update state.owners timer.owner
    (elistDel (state.owners timer.owner) (some address))
  memory := state.memory.erase address

theorem mem_removed (nodup : ((low ++ entry :: high).map fst).Nodup) :
    other ∈ low ++ high ↔ other ∈ low ++ entry :: high ∧ other.1 ≠ entry.1 := by
  have apart : ∀ cell ∈ low ++ high, cell.1 ≠ entry.1 := by
    intro cell inside same
    rw [map_append, map_cons, nodup_middle, nodup_cons, ← map_append]
      at nodup
    exact nodup.1 (mem_map.mpr ⟨cell, inside, same⟩)
  rw [mem_inserted]
  constructor
  · intro inside
    exact ⟨.inr inside, apart other inside⟩
  · rintro ⟨rfl | inside, distinct⟩
    · exact absurd rfl distinct
    · exact inside

theorem unlink_spec {timer : Timer} (listed : Listed state (low ++ (address, timer) :: high)) :
    unlink state address timer = some (unlinked state address timer) ∧
      Listed (unlinked state address timer) (low ++ high) := by
  have nodup := listed_addresses listed
  have present : load state.memory address = some timer :=
    (listed.cells address timer).mpr (by simp)
  refine ⟨by simp [unlink, release_allocated state.memory address timer present, unlinked], ?_⟩
  constructor
  · have ring : Ring state.timers (low.map fst ++ address :: high.map fst) := by
      simpa using listed.ring
    simpa [unlinked] using ring.del
  · refine listed.sorted.sublist ?_
    exact (Sublist.refl low).append (sublist_cons_self _ _)
  · intro other cell
    rw [mem_removed nodup, ← listed.cells other cell]
    simp only [unlinked, load_erase]
    by_cases same : other = address <;> simp [same]
  intro owner
  obtain ⟨nodes, ring, exact_⟩ := listed.owners owner
  by_cases same : timer.owner = owner
  · subst same
    have member : address ∈ nodes := (exact_ address).mpr ⟨timer, by simp, rfl⟩
    refine ⟨nodes.erase address, by simpa [unlinked] using ring.erase member, fun other => ?_⟩
    rw [ring.nodup.mem_erase_iff, exact_ other]
    constructor
    · rintro ⟨apart, cell, inside, owned⟩
      exact ⟨cell, (mem_removed nodup).mpr ⟨inside, apart⟩, owned⟩
    · rintro ⟨cell, inside, owned⟩
      have kept := (mem_removed nodup).mp inside
      exact ⟨kept.2, cell, kept.1, owned⟩
  · refine ⟨nodes, by simpa [unlinked, update_of_ne (Ne.symm same)] using ring, ?_⟩
    intro other
    rw [exact_ other]
    constructor
    · rintro ⟨cell, inside, owned⟩
      refine ⟨cell, (mem_removed nodup).mpr ⟨inside, ?_⟩, owned⟩
      rintro rfl
      have here := (listed.cells other cell).mpr inside
      rw [present, some.injEq] at here
      exact same (here ▸ owned)
    · rintro ⟨cell, inside, owned⟩
      exact ⟨cell, ((mem_removed nodup).mp inside).1, owned⟩

def dueBefore (limit : Int) (timers : List (Nat × Timer)) : List (Nat × Timer) :=
  timers.filter fun entry => entry.2.when < limit

structure Grown (limit : Int) (timers later : List (Nat × Timer)) : Prop where
  kept : timers ⊆ later
  due : dueBefore limit later = dueBefore limit timers

theorem grown_refl (limit : Int) (timers : List (Nat × Timer)) : Grown limit timers timers :=
  ⟨fun _ member => member, rfl⟩

theorem grown_trans {first second third : List (Nat × Timer)} (before : Grown limit first second)
    (after : Grown limit second third) : Grown limit first third :=
  ⟨fun _ member => after.kept (before.kept member), after.due.trans before.due⟩

theorem insert_grown (later : limit ≤ entry.2.when) :
    Grown limit (low ++ high) (low ++ entry :: high) := by
  constructor
  · intro other member
    exact mem_inserted.mpr (.inr member)
  · have notDue : ¬entry.2.when < limit := Int.not_lt.mpr later
    simp [dueBefore, filter_append, notDue]

theorem add_timers_spec (listed : Listed state timers) (limit : Int) (requests : List Request)
    (permitted : ∀ request ∈ requests, request.Fresh ∧ limit ≤ request.when) :
    ∃ after later entries, addTimers state requests = some (after, entries) ∧
      Listed after later ∧ Grown limit timers later ∧
      ∀ address, load state.memory address ≠ none →
        Follows (.checking limit) (update (load state.memory) address none) entries
          (.checking limit) (update (load after.memory) address none) := by
  induction requests generalizing state timers with
  | nil => exact ⟨state, timers, [], rfl, listed, grown_refl limit timers, fun _ _ => .nil⟩
  | cons request rest ih =>
    obtain ⟨⟨fresh, notDue⟩, others⟩ := forall_mem_cons.mp permitted
    cases owned : request.owner with
    | none =>
      obtain ⟨after, later, entries, ran, laterListed, grown, follows⟩ := ih listed others
      refine ⟨after, later, entries, ?_, laterListed, grown, follows⟩
      simp [addTimers, timerlistAddTimer, owned, ran]
    | some owner =>
      obtain ⟨added, place, low, high, ran, rfl, addedListed, absent, loads⟩ :=
        add_timer_spec listed owned fresh
      obtain ⟨after, later, entries, restRan, laterListed, grown, follows⟩ := ih addedListed others
      refine ⟨after, later, .added place (request.timer owner) :: entries, ?_, laterListed,
        grown_trans (insert_grown notDue) grown, fun address present => ?_⟩
      · simp [addTimers, ran, restRan]
      have apart : place ≠ address := by
        rintro rfl
        exact present absent
      have present' : load added.memory address ≠ none := by
        rwa [loads, update_of_ne apart.symm]
      have next := follows address present'
      rw [loads, update_comm apart] at next
      refine .added ?_ ?_ next
      · rwa [update_of_ne apart]
      · exact if_neg (Int.not_lt.mpr notDue)

theorem due_first {more : List (Nat × Timer)}
    (sorted : timers.Pairwise fun first second => first.2.when ≤ second.2.when)
    (due : dueBefore limit timers = first :: more) :
    ∃ rest, timers = first :: rest ∧ dueBefore limit rest = more := by
  cases timers with
  | nil => cases due
  | cons entry rest =>
    by_cases early : entry.2.when < limit
    · rw [dueBefore, filter_cons_of_pos (by simpa using early), cons.injEq] at due
      exact ⟨rest, by rw [due.1], due.2⟩
    have member : first ∈ dueBefore limit (entry :: rest) := by simp [due]
    obtain ⟨inside, firstEarly⟩ := mem_filter.mp member
    have least : entry.2.when ≤ first.2.when := by
      rcases mem_cons.mp inside with rfl | later
      · exact Int.le_refl _
      · exact rel_of_pairwise_cons sorted later
    exact absurd (Int.lt_of_le_of_lt least (of_decide_eq_true firstEarly)) early

variable {rest : List (Nat × Timer)}

theorem turn_spec {timer : Timer} (listed : Listed state ((address, timer) :: rest))
    (permitted : ∀ log, ∀ request ∈ respond log, request.Fresh ∧ limit ≤ request.when)
    (due : timer.when < limit) (log : List Entry) :
    ∃ after later entries, callBack respond state log address timer timer.when =
        some (after, log ++ entries) ∧ Listed after ((address, timer) :: later) ∧
      Grown limit rest later ∧ unlink after address timer = some (unlinked after address timer) ∧
      Listed (unlinked after address timer) later ∧
      Follows (.checking limit) (load state.memory) entries (.checking limit)
        (load (unlinked after address timer).memory) := by
  have present : load state.memory address = some timer :=
    (listed.cells address timer).mpr mem_cons_self
  let requests := if timer.cb.isSome then respond (log ++ [.fired address timer timer.when]) else []
  have fit : ∀ request ∈ requests, request.Fresh ∧ limit ≤ request.when := by
    intro request member
    by_cases called : timer.cb.isSome
    · rw [show requests = respond _ from if_pos called] at member
      exact permitted _ request member
    · rw [show requests = [] from if_neg called] at member
      cases member
  obtain ⟨after, whole, entries, ran, wholeListed, grown, follows⟩ :=
    add_timers_spec listed limit requests fit
  -- the timer itself stays first
  obtain ⟨later, rfl, same⟩ : ∃ later, whole = (address, timer) :: later ∧
      dueBefore limit later = dueBefore limit rest := by
    refine due_first wholeListed.sorted (grown.due.trans ?_)
    simp [dueBefore, due]
  have kept : rest ⊆ later := by
    intro entry member
    rcases mem_cons.mp (grown.kept (mem_cons_of_mem _ member)) with rfl | inside
    · have nodup := listed_addresses listed
      rw [map_cons, nodup_cons] at nodup
      exact absurd (mem_map.mpr ⟨_, member, rfl⟩) nodup.1
    · exact inside
  have split : Listed after ([] ++ (address, timer) :: later) := wholeListed
  obtain ⟨unlinks, unlinkedListed⟩ := unlink_spec split
  refine ⟨after, later, .fired address timer timer.when :: entries, ?_, wholeListed,
    ⟨kept, same⟩, unlinks, unlinkedListed, ?_⟩
  · have called : callBack respond state log address timer timer.when =
        (addTimers state requests).bind fun result =>
          some (result.1, log ++ [.fired address timer timer.when] ++ result.2) := rfl
    rw [called, ran, bind_some, append_assoc, singleton_append]
  · refine .fired present (if_pos due) ?_
    rw [unlinked, load_erased]
    exact follows address (by simp [present])

/-- The next node of the walk of a check: the first timer that is due, or else any timer. -/
def Points (limit : Int) (curr : Option Nat) (timers : List (Nat × Timer)) : Prop :=
  match dueBefore limit timers with
  | first :: _ => curr = some first.1
  | [] => ∀ address ∈ curr, ∃ timer, (address, timer) ∈ timers

theorem points_first (limit : Int)
    (sorted : timers.Pairwise fun first second => first.2.when ≤ second.2.when) :
    Points limit (timers.head?.map fst) timers := by
  unfold Points
  split
  · rename_i first more due
    obtain ⟨rest, rfl, _⟩ := due_first sorted due
    rfl
  · intro address hit
    obtain ⟨entry, head, rfl⟩ := map_eq_some_iff.mp hit
    exact ⟨entry.2, mem_of_head? head⟩

theorem points_grown (points : Points limit curr timers) (grown : Grown limit timers later) :
    Points limit curr later := by
  unfold Points at points ⊢
  rw [grown.due]
  split at points
  · rename_i first more due
    simpa using points
  · intro address hit
    obtain ⟨timer, member⟩ := points address hit
    exact ⟨timer, grown.kept member⟩

theorem points_listed (points : Points limit curr timers) :
    ∀ address ∈ curr, ∃ timer, (address, timer) ∈ timers := by
  unfold Points at points
  split at points
  · rename_i first more due
    subst points
    rintro address ⟨⟩
    have member : first ∈ dueBefore limit timers := by simp [due]
    exact ⟨first.2, (mem_filter.mp member).1⟩
  · exact points

theorem points_next (listed : Listed state (first :: rest)) (early : first.2.when < limit)
    (points : Points limit curr (first :: rest)) : Points limit (state.timers.next curr) rest := by
  have due : dueBefore limit (first :: rest) = first :: dueBefore limit rest :=
    filter_cons_of_pos (by simpa using early)
  obtain rfl : curr = some first.1 := by
    unfold Points at points
    rwa [due] at points
  have ring : Ring state.timers (first.1 :: rest.map fst) := by simpa using listed.ring
  rw [ring.second, head?_map]
  exact points_first limit (pairwise_cons.mp listed.sorted).2

theorem follow_spec (list : Elist (Option Nat)) (listed : Listed state timers)
    (points : ∀ address ∈ curr, ∃ timer, (address, timer) ∈ timers) :
    follow list state.memory curr = some (list.next curr) := by
  cases curr with
  | none => rfl
  | some address =>
    obtain ⟨timer, member⟩ := points address rfl
    simp [follow, (listed.cells address timer).mpr member]

theorem check_loop_spec
    (permitted : ∀ log, ∀ request ∈ respond log, request.Fresh ∧ limit ≤ request.when) (due : Nat)
    (count : (dueBefore limit timers).length = due) (listed : Listed state timers)
    (points : Points limit curr timers)
    (saved : ∀ first rest, timers = first :: rest → first.2.when < limit → Points limit save rest)
    (budget : Nat) (enough : due < budget) (log : List Entry) :
    ∃ after later entries, checkLoop respond limit budget curr save state log =
        some (after, log ++ entries) ∧ Listed after later ∧ dueBefore limit later = [] ∧
      Follows (.checking limit) (load state.memory) entries (.checking limit)
        (load after.memory) := by
  induction due generalizing state timers curr save budget log with
  | zero =>
    have none_ : dueBefore limit timers = [] := eq_nil_of_length_eq_zero count
    refine ⟨state, timers, [], ?_, listed, none_, .nil⟩
    rw [append_nil]
    cases curr with
    | none => cases budget <;> rfl
    | some address =>
      obtain ⟨timer, member⟩ := points_listed points address rfl
      have notDue : ¬timer.when < limit := by
        intro early
        have inside : (address, timer) ∈ dueBefore limit timers :=
          mem_filter.mpr ⟨member, by simpa using early⟩
        rw [none_] at inside
        cases inside
      cases budget with
      | zero => omega
      | succ budget =>
        simp [checkLoop, (listed.cells address timer).mpr member, notDue]
  | succ due ih =>
    cases budget with
    | zero => omega
    | succ budget =>
      obtain ⟨⟨address, timer⟩, more, split⟩ := exists_cons_of_length_eq_add_one count
      obtain ⟨rest, rfl, restDue⟩ := due_first listed.sorted split
      have early : timer.when < limit := by
        have member : (address, timer) ∈ dueBefore limit ((address, timer) :: rest) := by
          simp [split]
        simpa using (mem_filter.mp member).2
      obtain ⟨after, later, entries, ran, wholeListed, grown, unlinks, laterListed, follows⟩ :=
        turn_spec listed permitted early log
      obtain rfl : curr = some address := by
        unfold Points at points
        rwa [split] at points
      have laterPoints := points_grown (saved _ rest rfl early) grown
      have followed := follow_spec (unlinked after address timer).timers laterListed
        (points_listed laterPoints)
      have fewer : (dueBefore limit later).length = due := by
        rw [grown.due, restDue]
        rw [split] at count
        simpa using count
      have nextSaved : ∀ first behind, later = first :: behind → first.2.when < limit →
          Points limit ((unlinked after address timer).timers.next save) behind := by
        rintro first behind rfl firstEarly
        exact points_next laterListed firstEarly laterPoints
      obtain ⟨last, left, others, loop, lastListed, past, otherFollows⟩ :=
        ih fewer laterListed laterPoints nextSaved budget (by omega) (log ++ entries)
      refine ⟨last, left, entries ++ others, ?_, lastListed, past,
        follows_append follows otherFollows⟩
      rw [checkLoop]
      simp only [(listed.cells address timer).mpr mem_cons_self, bind_eq_bind,
        bind_some, if_pos early, ran, unlinks, followed, loop, append_assoc]

theorem due_over (listed : Listed state timers) (past : dueBefore limit timers = []) :
    (Phase.checking limit).Over (load state.memory) := by
  intro address timer present
  refine if_neg fun early => ?_
  have inside : (address, timer) ∈ dueBefore limit timers :=
    mem_filter.mpr ⟨(listed.cells address timer).mp present, by simpa using early⟩
  rw [past] at inside
  cases inside

theorem idle_over (pending : Pending) : Phase.idle.Over pending := fun _ _ _ => rfl

theorem first_listed (listed : Listed state timers) :
    ∀ address ∈ state.timers.next none, ∃ timer, (address, timer) ∈ timers := by
  rw [listed.ring.first, head?_map]
  intro address hit
  obtain ⟨entry, head, rfl⟩ := map_eq_some_iff.mp hit
  exact ⟨entry.2, mem_of_head? head⟩

/-- An operation succeeds, keeps the lists in order and does what a timer service is for. -/
structure Done (state : State) (result : Option (Int × State × List Entry)) : Prop where
  ran : ∃ code after entries, result = some (code, after, entries)
  listed : ∀ code after entries, result = some (code, after, entries) → ∃ later, Listed after later
  follows : ∀ code after entries, result = some (code, after, entries) →
    Follows .idle (load state.memory) entries .idle (load after.memory)

theorem done_of {result : Option (Int × State × List Entry)} (code : Int) {after : State}
    {entries : List Entry} (ran : result = some (code, after, entries))
    (listed : Listed after later)
    (follows : Follows .idle (load state.memory) entries .idle (load after.memory)) :
    Done state result := by
  subst ran
  refine ⟨⟨code, after, entries, rfl⟩, ?_, ?_⟩
  · rintro _ _ _ ⟨⟩
    exact ⟨later, listed⟩
  · rintro _ _ _ ⟨⟩
    exact follows

theorem check_done (listed : Listed state timers) (permitted : Permitted (.check limit respond))
    (budget : Nat) (enough : timers.length < budget) :
    Done state (timerlistCheckTimers budget respond state limit) := by
  have points : Points limit (state.timers.next none) timers := by
    rw [listed.ring.first, head?_map]
    exact points_first limit listed.sorted
  have few : (dueBefore limit timers).length < budget :=
    lt_of_le_of_lt (length_filter_le _ timers) enough
  have saved : ∀ first rest, timers = first :: rest → first.2.when < limit →
      Points limit (state.timers.next (state.timers.next none)) rest := by
    rintro first rest rfl early
    exact points_next listed early points
  obtain ⟨after, later, entries, ran, laterListed, past, follows⟩ := check_loop_spec permitted _ rfl
    listed points saved budget few [.began (.checking limit)]
  have whole : Follows .idle (load state.memory)
      (.began (.checking limit) :: (entries ++ [.began .idle])) .idle (load after.memory) :=
    .began (idle_over _) (follows_append follows (.began (due_over laterListed past) .nil))
  refine done_of 0 ?_ laterListed whole
  rw [timerlistCheckTimers]
  simp only [follow_spec state.timers listed (first_listed listed), bind_eq_bind, bind_some, ran]
  rfl

theorem delete_loop_spec (silent : ∀ log, respond log = []) (owner : Nat) (nodes : List Nat)
    (listed : Listed state timers) (ring : Ring (state.owners owner) nodes)
    (owned : ∀ address, address ∈ nodes ↔ ∃ timer, (address, timer) ∈ timers ∧ timer.owner = owner)
    (saved : ∀ first rest, nodes = first :: rest → save = rest.head?) (budget : Nat)
    (enough : nodes.length ≤ budget) (log : List Entry) :
    ∃ after later entries, deleteLoop respond owner budget nodes.head? save state log =
        some (after, log ++ entries) ∧ Listed after later ∧
      (∀ entry ∈ later, entry.2.owner ≠ owner) ∧
      Follows (.deleting owner) (load state.memory) entries (.deleting owner)
        (load after.memory) := by
  induction nodes generalizing state timers save budget log with
  | nil =>
    refine ⟨state, timers, [], ?_, listed, ?_, .nil⟩
    · rw [append_nil]
      cases budget <;> rfl
    · intro entry member same
      have inside := (owned entry.1).mpr ⟨entry.2, member, same⟩
      cases inside
  | cons address rest ih =>
    cases budget with
    | zero => simp at enough
    | succ budget =>
      obtain ⟨timer, member, rfl⟩ := (owned address).mp mem_cons_self
      have present := (listed.cells address timer).mpr member
      obtain ⟨low, high, rfl⟩ := append_of_mem member
      obtain ⟨unlinks, nextListed⟩ := unlink_spec listed
      have nextRing : Ring ((unlinked state address timer).owners timer.owner) rest := by
        have whole : Ring (state.owners timer.owner) ([] ++ address :: rest) := ring
        simpa [unlinked] using whole.del
      have nextOwned : ∀ other, other ∈ rest ↔ ∃ cell, (other, cell) ∈ low ++ high ∧
          cell.owner = timer.owner := by
        intro other
        have apart := (nodup_cons.mp ring.nodup).1
        constructor
        · intro inside
          obtain ⟨cell, cellIn, same⟩ := (owned other).mp (mem_cons_of_mem _ inside)
          refine ⟨cell, (mem_removed (listed_addresses listed)).mpr ⟨cellIn, ?_⟩, same⟩
          rintro rfl
          exact apart inside
        · rintro ⟨cell, cellIn, same⟩
          obtain ⟨inside, distinct⟩ := (mem_removed (listed_addresses listed)).mp cellIn
          have listedFirst := mem_cons.mp ((owned other).mpr ⟨cell, inside, same⟩)
          exact listedFirst.resolve_left distinct
      have saveIs : save = rest.head? := saved address rest rfl
      have savePoints : ∀ other ∈ save, ∃ cell, (other, cell) ∈ low ++ high := by
        intro other hit
        rw [saveIs] at hit
        obtain ⟨cell, cellIn, _⟩ := (nextOwned other).mp (mem_of_head? hit)
        exact ⟨cell, cellIn⟩
      have nextSaved : ∀ first behind, rest = first :: behind →
          ((unlinked state address timer).owners timer.owner).next save = behind.head? := by
        rintro first behind rfl
        rw [saveIs]
        exact nextRing.second
      obtain ⟨after, later, entries, loop, afterListed, past, follows⟩ := ih nextListed nextRing
        nextOwned nextSaved budget (by simpa using enough)
        (log ++ [.fired address timer 0])
      refine ⟨after, later, .fired address timer 0 :: entries, ?_, afterListed, past, ?_⟩
      · have called : callBack respond state log address timer 0 =
            some (state, log ++ [.fired address timer 0]) := by
          simp [callBack, silent, addTimers]
        rw [head?_cons, deleteLoop]
        simp only [present, called, unlinks, bind_eq_bind, bind_some,
          follow_spec _ nextListed savePoints]
        rw [saveIs] at loop ⊢
        simpa using loop
      · refine .fired present (if_pos rfl) ?_
        rw [← load_erased]
        exact follows

theorem delete_done (listed : Listed state timers) (silent : ∀ log, respond log = [])
    (owner : Option Nat) (budget : Nat) (enough : timers.length ≤ budget) :
    Done state (timerlistDelAllTimers budget respond state owner) := by
  cases owner with
  | none => exact done_of (-1) rfl listed .nil
  | some owner =>
    obtain ⟨nodes, ring, owned⟩ := listed.owners owner
    have inside : nodes ⊆ timers.map fst := by
      intro address member
      obtain ⟨timer, timerIn, _⟩ := (owned address).mp member
      exact mem_map.mpr ⟨_, timerIn, rfl⟩
    have few : nodes.length ≤ budget := by
      have shorter := (ring.nodup.subperm inside).length_le
      rw [length_map] at shorter
      exact le_trans shorter enough
    have points : ∀ address ∈ nodes.head?, ∃ timer, (address, timer) ∈ timers := by
      intro address hit
      obtain ⟨timer, timerIn, _⟩ := (owned address).mp (mem_of_head? hit)
      exact ⟨timer, timerIn⟩
    have saved : ∀ first rest, nodes = first :: rest →
        (state.owners owner).next nodes.head? = rest.head? := by
      rintro first rest rfl
      exact ring.second
    obtain ⟨after, later, entries, ran, laterListed, past, follows⟩ :=
      delete_loop_spec silent owner nodes listed ring owned saved budget few
        [.began (.deleting owner)]
    have ended : (Phase.deleting owner).Over (load after.memory) := fun address timer present =>
      if_neg (past _ ((laterListed.cells address timer).mp present))
    have whole : Follows .idle (load state.memory)
        (.began (.deleting owner) :: (entries ++ [.began .idle])) .idle (load after.memory) :=
      .began (idle_over _) (follows_append follows (.began ended .nil))
    refine done_of 0 ?_ laterListed whole
    rw [timerlistDelAllTimers]
    simp only [ring.first, follow_spec _ listed points, bind_eq_bind, bind_some, ran]
    rfl

theorem add_done (listed : Listed state timers) (fresh : request.Fresh) :
    Done state (timerlistAddTimer state request) := by
  cases owned : request.owner with
  | none =>
    refine done_of (-1) ?_ listed .nil
    simp [timerlistAddTimer, owned]
  | some owner =>
    obtain ⟨after, address, low, high, ran, rfl, afterListed, absent, loads⟩ :=
      add_timer_spec listed owned fresh
    refine done_of 0 ran afterListed (.added absent rfl ?_)
    rw [← loads]
    exact .nil

variable {budget larger : Nat}

variable {result : State × List Entry}

theorem check_loop_more (enough : budget ≤ larger)
    (ran : checkLoop respond limit budget curr save state log = some result) :
    checkLoop respond limit larger curr save state log = some result := by
  induction budget generalizing larger curr save state log with
  | zero =>
    cases curr with
    | none => cases larger <;> exact ran
    | some address => cases ran
  | succ budget ih =>
    cases larger with
    | zero => omega
    | succ larger =>
      cases curr with
      | none => exact ran
      | some address =>
        rw [checkLoop, bind_eq_bind, bind_eq_some_iff] at ran ⊢
        obtain ⟨timer, present, ran⟩ := ran
        refine ⟨timer, present, ?_⟩
        by_cases early : timer.when < limit
        · rw [if_pos early] at ran ⊢
          simp only [bind_eq_bind, bind_eq_some_iff] at ran ⊢
          obtain ⟨called, call, unlinked, unlinks, next, followed, ran⟩ := ran
          exact ⟨called, call, unlinked, unlinks, next, followed,
            ih (Nat.le_of_succ_le_succ enough) ran⟩
        · rw [if_neg early] at ran ⊢
          exact ran

theorem delete_loop_more (enough : budget ≤ larger)
    (ran : deleteLoop respond owner budget curr save state log = some result) :
    deleteLoop respond owner larger curr save state log = some result := by
  induction budget generalizing larger curr save state log with
  | zero =>
    cases curr with
    | none => cases larger <;> exact ran
    | some address => cases ran
  | succ budget ih =>
    cases larger with
    | zero => omega
    | succ larger =>
      cases curr with
      | none => exact ran
      | some address =>
        rw [deleteLoop] at ran ⊢
        simp only [bind_eq_bind, bind_eq_some_iff] at ran ⊢
        obtain ⟨timer, present, called, call, unlinked, unlinks, next, followed, ran⟩ := ran
        exact ⟨timer, present, called, call, unlinked, unlinks, next, followed,
          ih (Nat.le_of_succ_le_succ enough) ran⟩

theorem step_more (enough : budget ≤ larger) {result : Int × State × List Entry}
    (ran : step budget state event = some result) : step larger state event = some result := by
  cases event with
  | add request => exact ran
  | delAll owner respond =>
    cases owner with
    | none => exact ran
    | some owner =>
      simp only [step, timerlistDelAllTimers, bind_eq_bind, bind_eq_some_iff]
        at ran ⊢
      obtain ⟨save, saved, last, loop, ended⟩ := ran
      exact ⟨save, saved, last, delete_loop_more enough loop, ended⟩
  | check limit respond =>
    simp only [step, timerlistCheckTimers, bind_eq_bind, bind_eq_some_iff] at ran ⊢
    obtain ⟨save, saved, last, loop, ended⟩ := ran
    exact ⟨save, saved, last, check_loop_more enough loop, ended⟩

theorem step_done (listed : Listed state timers) (permitted : Permitted event) (budget : Nat)
    (enough : timers.length < budget) : Done state (step budget state event) := by
  cases event with
  | add request => exact add_done listed permitted
  | delAll owner respond => exact delete_done listed permitted owner budget (le_of_lt enough)
  | check limit respond => exact check_done listed permitted budget enough

theorem reached_follows (reached : Reached state log) :
    (∃ timers, Listed state timers) ∧
      Follows .idle (load created.memory) log .idle (load state.memory) := by
  induction reached with
  | start => exact ⟨⟨[], created_listed⟩, .nil⟩
  | @step state after log entries event budget code before permitted ran ih =>
    obtain ⟨⟨timers, listed⟩, follows⟩ := ih
    have done := step_done listed permitted (budget + timers.length + 1) (by omega)
    have whole := step_more (Nat.le_add_right budget (timers.length + 1)) ran
    exact ⟨done.listed code after entries whole,
      follows_append follows (done.follows code after entries whole)⟩

/-- The lists stay in order. A timer that was added fires once, in the first operation in which it
is due, and nothing else fires. No operation faults or runs forever. -/
theorem timers_fire_once {log : List Entry} (reached : Reached state log) :
    (∃ timers, Listed state timers) ∧
    (∀ before after address timer, log = before ++ .added address timer :: after →
      Served (load state.memory) address timer after) ∧
    (∀ before after address timer time, log = before ++ .fired address timer time :: after →
      ∃ earlier since, before = earlier ++ .added address timer :: since ∧
        ∀ entry ∈ since, entry.address ≠ some address) ∧
    ∀ event, Permitted event → ∃ enough, ∀ budget, enough ≤ budget →
      ∃ code after entries, step budget state event = some (code, after, entries) := by
  obtain ⟨⟨timers, listed⟩, follows⟩ := reached_follows reached
  refine ⟨⟨timers, listed⟩, ?_, ?_, ?_⟩
  · rintro before after address timer rfl
    exact added_served follows (idle_over _)
  · rintro before after address timer time rfl
    rcases fired_added follows with ⟨present, _⟩ | found
    · cases present
    · exact found
  · intro event permitted
    exact ⟨timers.length + 1, fun budget enough => (step_done listed permitted budget enough).ran⟩

end Lists

section Ping

def unusedAddress (used : List Nat) : Nat := used.foldr max 0 + 1

theorem unused_address_fresh (used : List Nat) : unusedAddress used ∉ used := by
  have bound : ∀ address ∈ used, address ≤ used.foldr max 0 := by
    induction used with
    | nil => simp
    | cons first rest ih =>
      refine forall_mem_cons.mpr ⟨le_max_left _ _, fun address member => ?_⟩
      exact le_trans (ih address member) (le_max_right _ _)
  intro member
  exact Nat.not_succ_le_self _ (bound _ member)

/-- A ping of connection 1 at time 5, whose callback adds the next one. -/
def ping (when : Int) : Request := ⟨some 1, when, some 0, 3, unusedAddress⟩

def pings : List Entry :=
  [.added 1 ((ping 5).timer 1), .began (.checking 6), .fired 1 ((ping 5).timer 1) 5,
    .added 2 ((ping 9).timer 1), .began .idle]

theorem ping_fires_once : ∃ state, Reached state pings ∧
    Served (load state.memory) 1 ((ping 5).timer 1) pings.tail := by
  have fresh : ∀ when, (ping when).Fresh := fun _ => unused_address_fresh
  have added : Reached _ _ := .step .start (show Permitted (.add (ping 5)) from fresh 5)
    (show step 0 created (.add (ping 5)) = some (0, _, _) from rfl)
  have again : Permitted (.check 6 fun _ => [ping 9]) := by
    intro _ request member
    obtain rfl := mem_singleton.mp member
    exact ⟨fresh 9, by decide⟩
  have checked : Reached _ pings := .step added again
    (show step 2 _ (.check 6 fun _ => [ping 9]) = some (0, _, _) from rfl)
  exact ⟨_, checked, (timers_fire_once checked).2.1 [] _ 1 _ rfl⟩

end Ping

end Pvpgn.Timers
