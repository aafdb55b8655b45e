import Pvpgn.EmbeddedList

/-!
The reference change mechanism of `rcm.h`. An object counts the references to it and links them;
when it is moved or destroyed, each of them is told by its callback.
-/

namespace Pvpgn.ReferenceChange
open EmbeddedList Option List

/-- A reference is known by the address of the object that it is embedded in. -/
structure Rcm where
  count : UInt32
  refs : Elist (Option Nat)

def rcmInit : Rcm := ⟨0, elistInit (Option Nat)⟩

def rcmGet (rcm : Rcm) (regref : Nat) : Rcm where
  count := rcm.count + 1
  refs := elistAddTail rcm.refs none (some regref)

/-- `assert(rcm->count)` -/
def rcmPut (rcm : Rcm) (regref : Nat) : Option Rcm :=
  if rcm.count = 0 then none
  else some ⟨rcm.count - 1, elistDel rcm.refs (some regref)⟩

section Loop
variable {State : Type} (rcm : State → Option Rcm) (chref : Nat → State → Option State)

/-- `elist_for_each_safe`: the next reference is read before the callback. -/
def rcmChrefWithin : Nat → Option Nat → State → Option State
  | _, none, state => some state
  | 0, some _, _ => none
  | rounds + 1, some curr, state => do
    let now ← rcm state
    let save := now.refs.next (some curr)
    let state ← chref curr state
    rcmChrefWithin rounds save state

def rcmChref (rounds : Nat) (state : State) : Option State := do
  let now ← rcm state
  rcmChrefWithin rcm chref rounds (now.refs.next none) state

end Loop

/-- An object that holds these references, in order. -/
structure Counted (rcm : Rcm) (nodes : List Nat) : Prop where
  ring : Ring rcm.refs nodes
  count : rcm.count.toNat = nodes.length

theorem counted_init : Counted rcmInit [] := ⟨ring_init, rfl⟩

section Counting
variable {rcm : Rcm} {nodes : List Nat} {regref : Nat}

theorem Counted.get (counted : Counted rcm nodes) (fresh : regref ∉ nodes)
    (room : nodes.length + 1 < UInt32.size) : Counted (rcmGet rcm regref) (nodes ++ [regref]) := by
  refine ⟨counted.ring.add_tail fresh, ?_⟩
  have exact : (rcm.count + 1).toNat = rcm.count.toNat + 1 := by
    rw [UInt32.toNat_add, counted.count]
    exact Nat.mod_eq_of_lt room
  rw [rcmGet, exact, counted.count, length_append]
  rfl

theorem Counted.put (counted : Counted rcm nodes) (member : regref ∈ nodes) :
    ∃ after, rcmPut rcm regref = some after ∧ Counted after (nodes.erase regref) := by
  have some : 0 < nodes.length := length_pos_of_mem member
  have positive : rcm.count ≠ 0 := by
    intro zero
    have empty := counted.count
    rw [zero] at empty
    simp at empty
    omega
  refine ⟨_, if_neg positive, counted.ring.erase member, ?_⟩
  have least : (1 : UInt32) ≤ rcm.count := by
    rw [UInt32.le_iff_toNat_le, counted.count]
    exact some
  rw [UInt32.toNat_sub_of_le _ _ least, counted.count, length_erase_of_mem member]
  rfl

end Counting

/-- A callback that takes its reference out of the object leaves none there in the end. -/
theorem chref_rule {State : Type} {rcm : State → Option Rcm} {chref : Nat → State → Option State}
    (inv : State → List Nat → Prop)
    (linked : ∀ state nodes, inv state nodes → ∃ now, rcm state = some now ∧ Ring now.refs nodes)
    (step : ∀ state curr rest, inv state (curr :: rest) →
      ∃ after, chref curr state = some after ∧ inv after rest) {state : State} {nodes : List Nat}
    (start : inv state nodes) {rounds : Nat} (enough : nodes.length ≤ rounds) :
    ∃ last, rcmChref rcm chref rounds state = some last ∧ inv last [] := by
  obtain ⟨now, present, ring⟩ := linked state nodes start
  have loop : ∃ last, rcmChrefWithin rcm chref rounds nodes.head? state = some last ∧
      inv last [] := by
    clear present ring
    induction nodes generalizing state rounds with
    | nil => exact ⟨state, by cases rounds <;> rfl, start⟩
    | cons curr rest ih =>
      obtain ⟨more, rfl⟩ := Nat.exists_eq_add_of_le' (Nat.le_trans (by simp) enough : 1 ≤ rounds)
      obtain ⟨now, present, ring⟩ := linked state _ start
      obtain ⟨after, called, kept⟩ := step state curr rest start
      obtain ⟨last, ran, finished⟩ := @ih after kept more (by simpa using enough)
      refine ⟨last, ?_, finished⟩
      simp only [head?_cons, rcmChrefWithin, present, ring.second, called,
        bind_eq_bind, bind_some, ran]
  obtain ⟨last, ran, finished⟩ := loop
  refine ⟨last, ?_, finished⟩
  rw [rcmChref, present, bind_eq_bind, bind_some, ring.first, ran]

end Pvpgn.ReferenceChange
