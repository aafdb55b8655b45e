import Mathlib.Logic.Function.Basic

/-!
Folds over the numbered items of a list whose steps lose nothing of the state. One item that tells
apart the states behind it is seen in the result, however many follow.
-/

namespace Pvpgn.InjectiveFold

section Folds
variable {State Item : Type} (step : Nat → State → Item → State)

def foldFrom : Nat → State → List Item → State
  | _, state, [] => state
  | i, state, item :: rest => foldFrom (i + 1) (step i state item) rest

theorem fold_append (i : Nat) (state : State) (front back : List Item) :
    foldFrom step i state (front ++ back) =
      foldFrom step (i + front.length) (foldFrom step i state front) back := by
  induction front generalizing i state with
  | nil => rfl
  | cons item rest ih =>
    rw [List.cons_append, foldFrom, ih, foldFrom, List.length_cons, Nat.add_right_comm,
      Nat.add_assoc]

theorem fold_injective (keeps : ∀ i item, Function.Injective fun state => step i state item)
    (i : Nat) (items : List Item) : Function.Injective fun state => foldFrom step i state items := by
  induction items generalizing i with
  | nil => exact fun _ _ same => same
  | cons item rest ih => exact fun left right same => keeps i item (ih (i + 1) same)

theorem fold_congr (i : Nat) (state : State) (left right : List Item)
    (lengths : left.length = right.length)
    (same : ∀ j (first : j < left.length) (second : j < right.length) (state : State),
      step (i + j) state left[j] = step (i + j) state right[j]) :
    foldFrom step i state left = foldFrom step i state right := by
  induction left generalizing i state right with
  | nil =>
    rw [List.eq_nil_of_length_eq_zero lengths.symm]
  | cons item left ih =>
    cases right with
    | nil => cases lengths
    | cons other right =>
      have head := same 0 (Nat.succ_pos _) (Nat.succ_pos _) state
      change step i state item = step i state other at head
      rw [foldFrom, foldFrom, head]
      refine ih (i + 1) _ right (Nat.succ.inj lengths) fun j first second state => ?_
      have later := same (j + 1) (Nat.succ_lt_succ first) (Nat.succ_lt_succ second) state
      rw [Nat.add_right_comm]
      exact later

theorem fold_differs (keeps : ∀ i item, Function.Injective fun state => step i state item)
    (i : Nat) (state : State) (front back : List Item) (left right : Item)
    (seen : ∀ state, step (i + front.length) state left ≠ step (i + front.length) state right) :
    foldFrom step i state (front ++ left :: back) ≠
      foldFrom step i state (front ++ right :: back) := by
  rw [fold_append, fold_append, foldFrom, foldFrom]
  exact fun same => seen _ (fold_injective step keeps _ back same)

end Folds

end Pvpgn.InjectiveFold
