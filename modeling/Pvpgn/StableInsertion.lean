import Mathlib.Data.List.Basic
import Mathlib.Data.List.TakeWhile
import Mathlib.Order.Lattice

/-!
Insertion into an ordered list before the first entry that a comparison holds of. A comparison that
agrees with the order of the keys on the entries of the list keeps the list ordered and stable.
-/

namespace Pvpgn.StableInsertion
open List

variable {α κ : Type} [LinearOrder κ]

def insertBefore (before : α → Bool) (new : α) (list : List α) : List α :=
  list.takeWhile (fun entry => !before entry) ++ new :: list.dropWhile (fun entry => !before entry)

/-- The list holds the added entries in ascending order of the key, equal keys in insertion
order. -/
structure Sorted (key : α → κ) (list added : List α) : Prop where
  perm : list.Perm added
  ascending : list.Pairwise fun left right => key left ≤ key right
  stable : ∀ value, list.filter (fun entry => decide (key entry = value)) =
    added.filter fun entry => decide (key entry = value)

variable (key : α → κ) (before : α → Bool) (new : α) (list : List α)

theorem insert_perm : (insertBefore before new list).Perm (list ++ [new]) := by
  have parts := takeWhile_append_dropWhile (p := fun entry => !before entry) (l := list)
  calc
    insertBefore before new list
    _ |>.Perm (new :: (list.takeWhile (fun entry => !before entry) ++
          list.dropWhile (fun entry => !before entry))) := perm_middle
    _ |>.Perm (list ++ [new]) := by
      rw [parts]
      exact (perm_append_singleton new list).symm

theorem sublist_insert : list.Sublist (insertBefore before new list) := by
  conv_lhs => rw [← takeWhile_append_dropWhile (p := fun entry => !before entry) (l := list)]
  exact (Sublist.refl _).append (sublist_cons_self _ _)

/-- The entry the new one is put before, when there are entries behind the new one. -/
theorem dropped_head :
    list.dropWhile (fun entry => !before entry) = [] ∨ ∃ head tail,
      list.dropWhile (fun entry => !before entry) = head :: tail ∧ before head = true := by
  induction list with
  | nil => exact .inl rfl
  | cons entry rest ih =>
    by_cases found : before entry = true
    · exact .inr ⟨entry, rest, by simp [found], found⟩
    · simpa [found] using ih

theorem insert_congr (before' : α → Bool) (new : α) (list : List α)
    (same : ∀ entry ∈ list, before entry = before' entry) :
    insertBefore before new list = insertBefore before' new list := by
  unfold insertBefore
  induction list with
  | nil => rfl
  | cons entry rest ih =>
    have first := same entry mem_cons_self
    have others := ih fun other member => same other (mem_cons_of_mem entry member)
    by_cases found : before' entry = true
    · simp [first, found]
    · simpa [first, found] using others

theorem taken_le :
    ∀ entry ∈ list.takeWhile (fun entry => !decide (key new < key entry)), key entry ≤ key new := by
  intro entry member
  have kept := mem_takeWhile_imp member
  simpa using kept

theorem dropped_lt (ascending : list.Pairwise fun left right => key left ≤ key right) :
    ∀ entry ∈ list.dropWhile (fun entry => !decide (key new < key entry)), key new < key entry := by
  obtain none | ⟨head, tail, shape, found⟩ :=
    dropped_head (fun entry => decide (key new < key entry)) list
  · simp [none]
  have kept : (head :: tail).Pairwise fun left right => key left ≤ key right := by
    rw [← shape]
    exact ascending.sublist (dropWhile_sublist _)
  have above : key new < key head := by simpa using found
  rw [shape]
  intro entry member
  rcases mem_cons.mp member with rfl | later
  · exact above
  · exact lt_of_lt_of_le above (rel_of_pairwise_cons kept later)

theorem insert_ascending (ascending : list.Pairwise fun left right => key left ≤ key right) :
    (insertBefore (fun entry => decide (key new < key entry)) new list).Pairwise
      fun left right => key left ≤ key right := by
  have low := taken_le key new list
  have high := dropped_lt key new list ascending
  refine pairwise_append.mpr ⟨ascending.sublist (takeWhile_sublist _),
    pairwise_cons.mpr ⟨fun entry member => (high entry member).le,
      ascending.sublist (dropWhile_sublist _)⟩, ?_⟩
  intro left taken right rest
  rcases mem_cons.mp rest with rfl | dropped
  · exact low left taken
  · exact (low left taken).trans (high right dropped).le

theorem insert_stable (key : α → κ) (new : α) (list : List α)
    (ascending : list.Pairwise fun left right => key left ≤ key right) (value : κ) :
    (insertBefore (fun entry => decide (key new < key entry)) new list).filter
        (fun entry => decide (key entry = value)) =
      (list ++ [new]).filter fun entry => decide (key entry = value) := by
  have high := dropped_lt key new list ascending
  have parts : list.filter (fun entry => decide (key entry = value)) =
      (list.takeWhile fun entry => !decide (key new < key entry)).filter
        (fun entry => decide (key entry = value)) ++
      (list.dropWhile fun entry => !decide (key new < key entry)).filter
        fun entry => decide (key entry = value) := by
    rw [← filter_append, takeWhile_append_dropWhile]
  rw [insertBefore, filter_append, filter_append, parts]
  by_cases same : key new = value
  · have behind : (list.dropWhile fun entry => !decide (key new < key entry)).filter
        (fun entry => decide (key entry = value)) = [] := by
      refine filter_eq_nil_iff.mpr fun entry member => ?_
      have above := high entry member
      rw [same] at above
      simpa using above.ne'
    rw [filter_cons_of_pos (by simpa using same), behind,
      filter_cons_of_pos (by simpa using same), append_nil, filter_nil]
  · rw [filter_cons_of_neg (by simpa using same),
      filter_cons_of_neg (by simpa using same), filter_nil, append_nil]

/-- Any comparison will do that tells the entries above the new one from the others. -/
theorem Sorted.insert {key : α → κ} {list added : List α} (sorted : Sorted key list added)
    (before : α → Bool) (new : α)
    (agrees : ∀ entry ∈ list, before entry = true ↔ key new < key entry) :
    Sorted key (insertBefore before new list) (added ++ [new]) := by
  have same : insertBefore before new list =
      insertBefore (fun entry => decide (key new < key entry)) new list := by
    refine insert_congr _ _ new list fun entry member => ?_
    rw [Bool.eq_iff_iff, agrees entry member, decide_eq_true_eq]
  rw [same]
  refine ⟨(insert_perm _ new list).trans (sorted.perm.append_right [new]),
    insert_ascending key new list sorted.ascending, fun value => ?_⟩
  rw [insert_stable key new list sorted.ascending value, filter_append, filter_append,
    sorted.stable value]

end Pvpgn.StableInsertion
