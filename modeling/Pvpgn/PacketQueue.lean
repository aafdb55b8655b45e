import Pvpgn.CheckedArray
import Pvpgn.RingBuffer

/-!
The packet queues of common/queue.cpp. A queue pointer is `none` while it is
NULL; every access to the ring is checked against the allocated slots, and an
operation is `none` exactly when it touches a slot outside them. Counters are
natural numbers: memory bounds them below the range of `unsigned`. Reference
counts of packets are not part of the queue.
-/

namespace Pvpgn.PacketQueue
open CheckedArray RingBuffer Option List Nat

variable {Packet : Type}

def queueQuantum : Nat := 10

structure Queue (Packet : Type) where
  ulen : Nat
  alen : Nat
  ring : List (Option Packet)
  head : Nat
  tail : Nat

def emptyQueue : Queue Packet := ⟨0, 0, [], 0, 0⟩

/-- The branch of queue_push_packet for a full ring. -/
def growRing (temp : Queue Packet) : Option (Queue Packet) :=
  let ring := resize temp.ring (temp.alen + queueQuantum) none
  let alen := temp.alen + queueQuantum
  if temp.head ≠ 0 then do
    let moved := if queueQuantum ≤ temp.head then queueQuantum else temp.head
    let ring ← moveCells ring temp.ulen 0 moved
    if queueQuantum < temp.head then do
      let ring ← moveCells ring 0 moved (temp.head - moved)
      some { temp with ring := ring, alen := alen, head := temp.head - moved }
    else if temp.head < queueQuantum then
      some { temp with ring := ring, alen := alen, head := temp.ulen + moved }
    else
      some { temp with ring := ring, alen := alen, head := 0 }
  else
    some { temp with ring := ring, alen := alen, head := temp.ulen }

def queuePushPacket (queue : Option (Queue Packet)) (packet : Option Packet) :
    Option (Option (Queue Packet)) :=
  match packet with
  | none => some queue
  | some packet => do
    let temp := queue.getD emptyQueue
    let temp ← if temp.ulen = temp.alen then growRing temp else some temp
    let ring ← writeAt temp.ring temp.head (some packet)
    some (some { temp with
      ring := ring, head := (temp.head + 1) % temp.alen, ulen := temp.ulen + 1 })

def queuePullPacket (queue : Option (Queue Packet)) :
    Option (Option Packet × Option (Queue Packet)) :=
  match queue with
  | none => some (none, none)
  | some temp =>
    if temp.ulen = 0 then some (none, queue)
    else do
      let packet ← readAt temp.ring temp.tail
      some (packet, some { temp with
        tail := (temp.tail + 1) % temp.alen, ulen := temp.ulen - 1 })

def queuePeekPacket (queue : Option (Queue Packet)) : Option (Option Packet) :=
  match queue with
  | none => some none
  | some temp => if temp.ulen = 0 then some none else readAt temp.ring temp.tail

def queueGetLength (queue : Option (Queue Packet)) : Nat :=
  match queue with
  | none => 0
  | some temp => temp.ulen

/-- The head is where the item after the last one goes. A ring with no slot has
its cursors at zero. -/
structure WellFormed (queue : Queue Packet) (items : List Packet) : Prop where
  allocated : queue.ring.length = queue.alen
  counted : queue.ulen = items.length
  tailInside : queue.tail = 0 ∨ queue.tail < queue.alen
  headAfter : queue.head = slot queue.alen queue.tail queue.ulen
  held : Holds queue.ring queue.tail items

def Represents : Option (Queue Packet) → List Packet → Prop
  | none, items => items = []
  | some queue, items => WellFormed queue items

theorem empty_wellformed : WellFormed (emptyQueue : Queue Packet) [] :=
  ⟨rfl, rfl, Or.inl rfl, rfl, holds_nil _ _⟩

variable (queue : Option (Queue Packet)) (temp : Queue Packet) (items : List Packet)

theorem full_head_at_tail (valid : WellFormed temp items) (full : temp.ulen = temp.alen) :
    temp.head = temp.tail := by
  rw [valid.headAfter, full, slot, add_mod_right]
  rcases valid.tailInside with zero | inside
  · rw [zero, zero_mod]
  · exact mod_eq_of_lt inside

/-- What every branch of `growRing` has to deliver. The wrapped arc is the cells
before the tail; `holds_unwrap` turns its new places into the same queue. -/
theorem grown_wellformed (ring : List (Option Packet)) (head : Nat) (valid : WellFormed temp items)
    (full : temp.ulen = temp.alen) (length : ring.length = temp.alen + queueQuantum)
    (kept : ∀ index, temp.tail ≤ index → index < temp.alen → ring[index]? = temp.ring[index]?)
    (wrapped : ∀ index, index < temp.tail →
      ring[(temp.alen + index) % (temp.alen + queueQuantum)]? = temp.ring[index]?)
    (next : head = slot (temp.alen + queueQuantum) temp.tail temp.ulen) :
    WellFormed { temp with ring := ring, alen := temp.alen + queueQuantum, head := head } items where
  allocated := length
  counted := valid.counted
  tailInside := by
    rcases valid.tailInside with zero | inside
    · exact Or.inl zero
    · exact Or.inr (Nat.lt_add_right _ inside)
  headAfter := next
  held := by
    have allocated := valid.allocated
    rcases Nat.eq_zero_or_pos temp.alen with none | some
    · have empty : items = [] := by
        apply eq_nil_of_length_eq_zero
        rw [← valid.counted, full, none]
      rw [empty]
      exact holds_nil _ _
    · have inside : temp.tail < temp.ring.length := by
        rcases valid.tailInside with zero | inside <;> omega
      apply holds_unwrap temp.ring ring temp.tail items valid.held inside (by omega)
      · rwa [allocated]
      · rwa [allocated, length]

theorem grow_unwraps (valid : WellFormed temp items) (full : temp.ulen = temp.alen) :
    ∃ grown, growRing temp = some grown ∧ WellFormed grown items ∧
      grown.alen = temp.alen + queueQuantum ∧ grown.ulen = temp.ulen := by
  have headTail := full_head_at_tail temp items valid full
  have allocated := valid.allocated
  have tailInside := valid.tailInside
  have long := resize_length temp.ring (temp.alen + queueQuantum) none
  have resized : ∀ index, index < temp.alen →
      (resize temp.ring (temp.alen + queueQuantum) none)[index]? = temp.ring[index]? :=
    fun index old => resize_kept _ _ _ _ (by omega) (Nat.lt_add_right _ old)
  have quantum : queueQuantum = 10 := rfl
  unfold growRing
  by_cases start : temp.head = 0
  · refine ⟨_, if_neg (not_not_intro start), ?_, rfl, rfl⟩
    apply grown_wellformed temp items _ _ valid full long
    · intro index _ old
      exact resized index old
    · intro index before
      omega
    · rw [slot_unwrapped] <;> omega
  rw [if_pos start]
  obtain ⟨copied, copy, copiedLength, copiedCell⟩ :=
    move_inside (resize temp.ring (temp.alen + queueQuantum) none) temp.ulen 0
      (if queueQuantum ≤ temp.head then queueQuantum else temp.head)
      (by split <;> omega) (by split <;> omega)
  simp only [copy, bind_eq_bind, bind_some]
  rcases le_or_gt temp.head queueQuantum with within | beyond
  · have moved : (if queueQuantum ≤ temp.head then queueQuantum else temp.head) = temp.head := by
      split <;> omega
    rw [moved] at copiedCell
    have grows (head : Nat) (next : head = slot (temp.alen + queueQuantum) temp.tail temp.ulen) :=
      grown_wellformed temp items copied head valid full (copiedLength.trans long)
        (fun index _ old => by rw [copiedCell, if_neg (by omega), resized index old])
        (fun index before => by
          rw [mod_eq_of_lt (by omega), copiedCell, if_pos (by omega), zero_add, resized _ (by omega)]
          congr 1
          omega) next
    rw [if_neg (not_lt.mpr within), moved]
    rcases within.lt_or_eq with short | exact
    · rw [if_pos short]
      exact ⟨_, rfl, grows _ (by rw [slot_unwrapped] <;> omega), rfl, rfl⟩
    · rw [if_neg exact.not_lt]
      exact ⟨_, rfl, grows 0 (by rw [slot_wrapped] <;> omega), rfl, rfl⟩
  · -- More than a quantum wraps: the rest of the arc slides to the array's start.
    have fullMove : queueQuantum ≤ temp.head := by omega
    rw [if_pos fullMove] at copiedCell
    obtain ⟨slid, slide, slidLength, slidCell⟩ :=
      move_inside copied 0 queueQuantum (temp.head - queueQuantum) (by omega) (by omega)
    rw [if_pos beyond, if_pos fullMove, slide, bind_some]
    refine ⟨_, rfl, ?_, rfl, rfl⟩
    apply grown_wellformed temp items _ _ valid full (slidLength.trans (copiedLength.trans long))
    · intro index _ old
      rw [slidCell, if_neg (by omega), copiedCell, if_neg (by omega), resized index old]
    · intro index before
      rcases lt_or_ge index queueQuantum with first | later
      · rw [mod_eq_of_lt (by omega), slidCell, if_neg (by omega), copiedCell,
          if_pos (by omega), zero_add, resized _ (by omega)]
        congr 1
        omega
      have place : (temp.alen + index) % (temp.alen + queueQuantum) = index - queueQuantum := by
        rw [mod_eq_sub_mod (by omega), mod_eq_of_lt (by omega)]
        omega
      rw [place, slidCell, if_pos (by omega), copiedCell, if_neg (by omega), resized _ (by omega)]
      congr 1
      omega
    · rw [slot_wrapped] <;> omega

theorem store_appends (packet : Packet) (valid : WellFormed temp items)
    (space : temp.ulen < temp.alen) :
    ∃ ring, writeAt temp.ring temp.head (some packet) = some ring ∧
      WellFormed { temp with
        ring := ring, head := (temp.head + 1) % temp.alen, ulen := temp.ulen + 1 }
        (items ++ [packet]) := by
  have allocated := valid.allocated
  have counted := valid.counted
  have tailInside : temp.tail < temp.ring.length := by
    rcases valid.tailInside with zero | inside <;> omega
  have headInside : temp.head < temp.ring.length := by
    rw [valid.headAfter, allocated]
    exact slot_inside _ _ _ (by omega)
  refine ⟨_, write_inside _ _ _ headInside, ?_⟩
  constructor
  · simpa using allocated
  · simpa using counted
  · exact valid.tailInside
  · rw [valid.headAfter, slot, slot, mod_add_mod, add_assoc]
  · have written := holds_write temp.ring temp.tail items packet valid.held tailInside (by omega)
    rw [allocated, ← counted, ← valid.headAfter] at written
    exact written

theorem push_appends (packet : Packet) (represented : Represents queue items) :
    ∃ after, queuePushPacket queue (some packet) = some after ∧
      Represents after (items ++ [packet]) := by
  have valid : WellFormed (queue.getD emptyQueue) items := by
    cases queue with
    | none =>
      have empty : items = [] := represented
      rw [empty]
      exact empty_wellformed
    | some queue => exact represented
  simp only [queuePushPacket, bind_eq_bind]
  generalize queue.getD emptyQueue = temp at valid
  by_cases full : temp.ulen = temp.alen
  · obtain ⟨grown, growth, grownValid, grownSlots, grownUsed⟩ := grow_unwraps temp items valid full
    have space : grown.ulen < grown.alen := by
      have quantum : queueQuantum = 10 := rfl
      omega
    obtain ⟨ring, stored, storedValid⟩ := store_appends grown items packet grownValid space
    rw [if_pos full, growth, bind_some, stored]
    exact ⟨_, rfl, storedValid⟩
  · have space : temp.ulen < temp.alen := by
      have bound := valid.held.1
      have allocated := valid.allocated
      have counted := valid.counted
      omega
    obtain ⟨ring, stored, storedValid⟩ := store_appends temp items packet valid space
    rw [if_neg full, bind_some, stored]
    exact ⟨_, rfl, storedValid⟩

theorem first_readable (queue : Queue Packet) (packet : Packet) (items : List Packet)
    (valid : WellFormed queue (packet :: items)) :
    queue.tail < queue.alen ∧ readAt queue.ring queue.tail = some (some packet) := by
  have bound := valid.held.1
  have allocated := valid.allocated
  rw [length_cons] at bound
  have inside : queue.tail < queue.ring.length := by
    rcases valid.tailInside with zero | inside <;> omega
  exact ⟨by omega, holds_first _ _ _ _ valid.held inside⟩

section
variable (represented : Represents queue items)
include represented

theorem pull_takes_first :
    ∃ after, queuePullPacket queue = some (items.head?, after) ∧ Represents after items.tail := by
  cases queue with
  | none =>
    have empty : items = [] := represented
    subst empty
    exact ⟨none, rfl, rfl⟩
  | some queue =>
    have valid : WellFormed queue items := represented
    have counted := valid.counted
    cases items with
    | nil =>
      have unused : queue.ulen = 0 := by simpa using counted
      exact ⟨some queue, by simp [queuePullPacket, unused], valid⟩
    | cons packet items =>
      have used : queue.ulen ≠ 0 := by
        rw [counted]
        simp
      obtain ⟨inside, read⟩ := first_readable queue packet items valid
      refine ⟨_, by simp only [queuePullPacket, if_neg used, read]; rfl, ?_⟩
      constructor
      · exact valid.allocated
      · simp [counted]
      · exact Or.inr (mod_lt _ (by omega))
      · have step := slot_step queue.alen queue.tail (queue.ulen - 1)
        rw [Nat.sub_add_cancel (by omega)] at step
        rw [valid.headAfter, ← step]
        rfl
      · have advanced := holds_advance queue.ring queue.tail packet items valid.held
        rw [valid.allocated] at advanced
        exact advanced

theorem peek_reads_first :
    queuePeekPacket queue = some items.head? := by
  cases queue with
  | none =>
    have empty : items = [] := represented
    rw [empty]
    rfl
  | some queue =>
    have valid : WellFormed queue items := represented
    cases items with
    | nil => simp [queuePeekPacket, valid.counted]
    | cons packet items =>
      have used : queue.ulen ≠ 0 := by
        rw [valid.counted]
        simp
      rw [queuePeekPacket, if_neg used, (first_readable queue packet items valid).2]
      rfl

theorem length_counts :
    queueGetLength queue = items.length := by
  cases queue with
  | none =>
    have empty : items = [] := represented
    rw [empty]
    rfl
  | some queue =>
    have valid : WellFormed queue items := represented
    exact valid.counted

end

inductive Call (Packet : Type) where
  | push (packet : Option Packet)
  | pull
  | peek

def perform (queue : Option (Queue Packet)) :
    Call Packet → Option (Option Packet × Option (Queue Packet))
  | .push packet => (queuePushPacket queue packet).map fun after => (none, after)
  | .pull => queuePullPacket queue
  | .peek => (queuePeekPacket queue).map fun packet => (packet, queue)

def performAll : Option (Queue Packet) → List (Call Packet) →
    Option (List (Option Packet) × Option (Queue Packet))
  | queue, [] => some ([], queue)
  | queue, call :: rest => do
    let (result, after) ← perform queue call
    let (results, last) ← performAll after rest
    some (result :: results, last)

/-! The unbounded queue the ring stands for: a list with its oldest packet first. -/

def fifo (items : List Packet) : Call Packet → Option Packet × List Packet
  | .push none => (none, items)
  | .push (some packet) => (none, items ++ [packet])
  | .pull => (items.head?, items.tail)
  | .peek => (items.head?, items)

def fifoAll : List Packet → List (Call Packet) → List (Option Packet) × List Packet
  | items, [] => ([], items)
  | items, call :: rest =>
    let step := fifo items call
    let tail := fifoAll step.2 rest
    (step.1 :: tail.1, tail.2)

def pushed : List (Call Packet) → List Packet
  | [] => []
  | .push (some packet) :: rest => packet :: pushed rest
  | _ :: rest => pushed rest

/-- The packets handed out by the pulls among the calls, in order. -/
def pulled : List (Call Packet) → List (Option Packet) → List Packet
  | .pull :: calls, some packet :: results => packet :: pulled calls results
  | _ :: calls, _ :: results => pulled calls results
  | _, _ => []

theorem perform_refines (call : Call Packet) (represented : Represents queue items) :
    ∃ after, perform queue call = some ((fifo items call).1, after) ∧
      Represents after (fifo items call).2 := by
  cases call with
  | push packet =>
    cases packet with
    | none => exact ⟨queue, rfl, represented⟩
    | some packet =>
      obtain ⟨after, done, next⟩ := push_appends queue items packet represented
      exact ⟨after, by simp [perform, done, fifo], next⟩
  | pull => exact pull_takes_first queue items represented
  | peek =>
    have read := peek_reads_first queue items represented
    exact ⟨queue, by simp [perform, read, fifo], represented⟩

theorem perform_all_refines (calls : List (Call Packet)) (queue : Option (Queue Packet))
    (items : List Packet) (represented : Represents queue items) :
    ∃ last, performAll queue calls = some ((fifoAll items calls).1, last) ∧
      Represents last (fifoAll items calls).2 := by
  induction calls generalizing queue items with
  | nil => exact ⟨queue, rfl, represented⟩
  | cons call rest ih =>
    obtain ⟨after, done, next⟩ := perform_refines queue items call represented
    obtain ⟨last, all, final⟩ := ih after _ next
    exact ⟨last, by simp [performAll, done, all, fifoAll], final⟩

/-- Nothing is lost, duplicated or reordered: what was there and what was pushed is
what was pulled, followed by what is still there. -/
theorem fifo_conserves (calls : List (Call Packet)) (items : List Packet) :
    items ++ pushed calls = pulled calls (fifoAll items calls).1 ++ (fifoAll items calls).2 := by
  induction calls generalizing items with
  | nil => simp [pushed, pulled, fifoAll]
  | cons call rest ih =>
    cases call with
    | push packet =>
      cases packet with
      | none => simpa [pushed, pulled, fifoAll, fifo] using ih items
      | some packet =>
        simpa [pushed, pulled, fifoAll, fifo, append_assoc] using ih (items ++ [packet])
    | pull =>
      cases items with
      | nil => simpa [pushed, pulled, fifoAll, fifo] using ih []
      | cons packet items => simpa [pushed, pulled, fifoAll, fifo] using ih items
    | peek =>
      cases items with
      | nil => simpa [pushed, pulled, fifoAll, fifo] using ih []
      | cons packet items => simpa [pushed, pulled, fifoAll, fifo] using ih (packet :: items)

/-- From the NULL queue every sequence of calls stays inside the ring and answers
as the unbounded FIFO does. -/
theorem queue_is_fifo (calls : List (Call Packet)) :
    ∃ results queue, performAll none calls = some (results, queue) ∧
      results = (fifoAll [] calls).1 ∧
      pushed calls = pulled calls results ++ (fifoAll [] calls).2 ∧
      queueGetLength queue + (pulled calls results).length = (pushed calls).length ∧
      ∀ temp, queue = some temp → temp.ring.length = temp.alen ∧ temp.ulen ≤ temp.alen := by
  obtain ⟨queue, all, represented⟩ := perform_all_refines calls none [] rfl
  have conserved := fifo_conserves calls []
  rw [nil_append] at conserved
  refine ⟨_, queue, all, rfl, conserved, ?_, ?_⟩
  · have total := congrArg length conserved
    rw [length_append] at total
    rw [length_counts queue _ represented]
    omega
  intro temp same
  subst same
  have valid : WellFormed temp (fifoAll [] calls).2 := represented
  have bound := valid.held.1
  have allocated := valid.allocated
  have counted := valid.counted
  exact ⟨allocated, by omega⟩

end Pvpgn.PacketQueue
