import Pvpgn.BigIntArithmetic

/-!
operator+ and operator* over the array that they write: every segment is read and
written at its index, and every 64-bit product and sum is checked. `none` is an index
outside its array, a value that 64 bits cannot hold, or the use of an unset variable.
-/

namespace Pvpgn.BigIntCells
open Limbs BigIntArithmetic CheckedArray List Option UInt32

/-- A value of `bigint_extended`. -/
def extended (number : Nat) : Option UInt64 :=
  if number < 2 ^ 64 then some (UInt64.ofNat number) else none

-- `(i<segment_count)? segment[i]:0`
def segmentOr (segment : List UInt32) (index : Nat) : Option UInt32 :=
  if index < segment.length then readAt segment index else some 0

/-- The last loop of both operators, from `max_segment_count` down. -/
def topCell (segment : List UInt32) : Nat → Option Nat
  | 0 => some 0
  | index + 1 => do
    let cell ← readAt segment (index + 1)
    if cell ≠ 0 then some (index + 1) else topCell segment index

def shrinkCells (segment : List UInt32) : Option BigInt := do
  let top ← topCell segment (segment.length - 1)
  some ⟨segment.take (top + 1)⟩

/-- The loop of operator+, `count` segments still to come. -/
def addCells (left right : List UInt32) : Nat → Nat → UInt32 → List UInt32 →
    Option (List UInt32 × UInt32)
  | 0, _, carry, result => some (result, carry)
  | count + 1, index, carry, result => do
    let lhs ← segmentOr left index
    let rhs ← segmentOr right index
    let sum ← extended (lhs.toNat + rhs.toNat + carry.toNat)
    let result ← writeAt result index (sum &&& 0xffffffff).toUInt32
    addCells left right count (index + 1) (sum >>> 32).toUInt32 result

/-- `fresh` is the array as xrealloc() gives it, its cells not set. -/
def addMachine (fresh : List UInt32) (left right : BigInt) : Option BigInt := do
  let count := max left.segment.length right.segment.length
  let (result, carry) ← addCells left.segment right.segment count 0 0 fresh
  let result ← writeAt result count carry
  shrinkCells result

/-- Row `row` of operator*, `count` columns still to come. -/
def rowCells (lhs : UInt32) (right : List UInt32) (row : Nat) : Nat → Nat → UInt32 → List UInt32 →
    Option (List UInt32 × UInt32)
  | 0, column, carry, result =>
    if carry ≠ 0 then do
      -- both operands have 32 bits, and so has their sum
      let cell ← readAt result (row + column)
      let sum := (cell + carry).toUInt64
      let result ← writeAt result (row + column) (sum &&& 0xffffffff).toUInt32
      some (result, (sum >>> 32).toUInt32)
    else some (result, carry)
  | count + 1, column, carry, result => do
    let rhs ← segmentOr right column
    let prod ← extended (lhs.toNat * rhs.toNat)
    let cell ← readAt result (row + column)
    let partialSum ← extended (cell.toNat + prod.toNat)
    let sum ← extended (partialSum.toNat + carry.toNat)
    let result ← writeAt result (row + column) (sum &&& 0xffffffff).toUInt32
    rowCells lhs right row count (column + 1) (sum >>> 32).toUInt32 result

def rowsCells (left right : List UInt32) : Nat → Nat → UInt32 → List UInt32 →
    Option (List UInt32 × UInt32)
  | 0, _, carry, result => some (result, carry)
  | count + 1, row, carry, result => do
    let lhs ← segmentOr left row
    let (result, carry) ← rowCells lhs right row right.length 0 carry result
    rowsCells left right count (row + 1) carry result

-- `j` has no value before the first row.
def lastColumn (left right : List UInt32) : Option Nat :=
  if left = [] then none else some right.length

def mulMachine (left right : BigInt) : Option BigInt :=
  if left.segment = [0] ∨ right.segment = [0] then some zero
  else do
    let count := left.segment.length + right.segment.length
    let (result, carry) ← rowsCells left.segment right.segment left.segment.length 0 0
      (replicate count 0)
    let column ← lastColumn left.segment right.segment
    let top ← readAt result (left.segment.length + column - 1)
    let result ← writeAt result (left.segment.length + column - 1) (top + carry)
    shrinkCells result

/-! The steps stay inside: 64 bits hold every sum. -/

theorem extended_holds (number : Nat) (small : number < 2 ^ 64) :
    extended number = some (UInt64.ofNat number) := if_pos small

variable (lhs : UInt32) (left front : List UInt32) (rhs : UInt32) (segment rest : List UInt32)
  (cell : UInt32) (right : List UInt32) (carry : UInt32) (index : Nat)

theorem segment_or_exact : segmentOr segment index = some (segment.getD index 0) := by
  rw [segmentOr]
  by_cases inside : index < segment.length
  · rw [if_pos inside, read_inside segment index inside, getD_eq_getElem _ _ inside]
  · rw [if_neg inside, getD_eq_default _ _ (by omega)]

theorem sum_extended :
    extended (lhs.toNat + rhs.toNat + carry.toNat) =
      some (lhs.toUInt64 + rhs.toUInt64 + carry.toUInt64) := by
  have left := limb_lt lhs
  have right := limb_lt rhs
  have carried := limb_lt carry
  rw [extended_holds _ (by omega)]
  congr 1
  apply UInt64.toNat_inj.mp
  simp only [UInt64.toNat_ofNat', UInt64.toNat_add, toNat_toUInt64]
  omega

theorem product_extended :
    extended (lhs.toNat * rhs.toNat) = some (lhs.toUInt64 * rhs.toUInt64) ∧
      (lhs.toUInt64 * rhs.toUInt64).toNat = lhs.toNat * rhs.toNat ∧
      lhs.toNat * rhs.toNat ≤ (2 ^ 32 - 1) * (2 ^ 32 - 1) := by
  have left := limb_lt lhs
  have right := limb_lt rhs
  have product : lhs.toNat * rhs.toNat ≤ (2 ^ 32 - 1) * (2 ^ 32 - 1) :=
    Nat.mul_le_mul (by omega) (by omega)
  have number : (lhs.toUInt64 * rhs.toUInt64).toNat = lhs.toNat * rhs.toNat := by
    rw [UInt64.toNat_mul, toNat_toUInt64, toNat_toUInt64]
    omega
  refine ⟨?_, number, product⟩
  rw [extended_holds _ (by omega), ← number, UInt64.ofNat_toNat]

theorem cell_sum_extended :
    extended (cell.toNat + (lhs.toUInt64 * rhs.toUInt64).toNat) =
        some (cell.toUInt64 + lhs.toUInt64 * rhs.toUInt64) ∧
      extended ((cell.toUInt64 + lhs.toUInt64 * rhs.toUInt64).toNat + carry.toNat) =
        some (cell.toUInt64 + lhs.toUInt64 * rhs.toUInt64 + carry.toUInt64) := by
  have segment := limb_lt cell
  have carried := limb_lt carry
  obtain ⟨_, number, product⟩ := product_extended lhs rhs
  have first : (cell.toUInt64 + lhs.toUInt64 * rhs.toUInt64).toNat =
      cell.toNat + lhs.toNat * rhs.toNat := by
    rw [UInt64.toNat_add, toNat_toUInt64, number]
    omega
  constructor
  · rw [extended_holds _ (by omega), number, ← first, UInt64.ofNat_toNat]
  rw [extended_holds _ (by omega)]
  apply congrArg some
  apply UInt64.toNat_inj.mp
  rw [UInt64.toNat_add _ carry.toUInt64, toNat_toUInt64, first, UInt64.toNat_ofNat']

theorem top_cell_exact (inside : index ≤ segment.length - 1) (present : segment ≠ []) :
    topCell segment index = some (topSegment segment index) := by
  induction index with
  | zero => rfl
  | succ index ih =>
    have here : index + 1 < segment.length := by omega
    rw [topCell, topSegment, read_inside segment _ here, getD_eq_getElem _ _ here]
    simp only [bind_eq_bind, bind_some]
    split
    · rfl
    · exact ih (by omega)

theorem shrink_cells_exact (present : segment ≠ []) :
    shrinkCells segment = some ⟨shrink segment⟩ := by
  rw [shrinkCells, top_cell_exact segment _ (Nat.le_refl _) present]
  rfl

/-! The array holds what the lists of the arithmetic hold. -/

theorem write_next (written : UInt32) :
    writeAt (front ++ cell :: rest) front.length written = some (front ++ written :: rest) := by
  rw [write_inside _ _ _ (by simp), set_append_right _ _ (Nat.le_refl _), Nat.sub_self,
    set_cons_zero]

theorem read_next : readAt (front ++ cell :: rest) front.length = some cell := by
  simp [readAt]

/-- The cells behind the ones written keep their places for the segments to come. -/
theorem add_cells_exact (count : Nat) (front rest : List UInt32) (carry : UInt32)
    (room : rest.length = count + 1) :
    ∃ low cell last, addCells left right count front.length carry (front ++ rest) =
        some (front ++ low ++ [cell], last) ∧ low.length = count ∧
      addLoop left right count front.length carry = low ++ [last] := by
  induction count generalizing front rest carry with
  | zero =>
    obtain ⟨cell, rfl⟩ := length_eq_one_iff.mp room
    exact ⟨[], cell, carry, by simp [addCells], rfl, rfl⟩
  | succ count ih =>
    cases rest with
    | nil => simp at room
    | cons cell rest =>
      have fits := sum_extended (left.getD front.length 0) (right.getD front.length 0) carry
      rw [addCells, segment_or_exact, segment_or_exact]
      simp only [bind_eq_bind, bind_some, fits, write_next, addLoop]
      generalize (left.getD front.length 0).toUInt64 + (right.getD front.length 0).toUInt64 +
        carry.toUInt64 = sum
      obtain ⟨low, spare, last, done, length, listed⟩ := ih
        (front ++ [(sum &&& 0xffffffff).toUInt32]) rest (sum >>> 32).toUInt32
        (by simpa using room)
      rw [length_append, length_singleton] at done listed
      refine ⟨(sum &&& 0xffffffff).toUInt32 :: low, spare, last, ?_,
        by rw [length_cons, length], by rw [listed, cons_append]⟩
      rw [append_cons, done]
      simp only [append_assoc, nil_append, cons_append]

theorem add_machine_exact (fresh : List UInt32) (left right : BigInt)
    (room : fresh.length = max left.segment.length right.segment.length + 1) :
    addMachine fresh left right = some (add left right) := by
  obtain ⟨low, cell, last, done, length, listed⟩ := add_cells_exact left.segment right.segment
    (max left.segment.length right.segment.length) [] fresh 0 room
  rw [length_nil, nil_append, nil_append] at done
  rw [length_nil] at listed
  have written := write_next low [] cell last
  rw [length] at written
  rw [addMachine, add, listed]
  simp only [done, bind_eq_bind, bind_some, written]
  exact shrink_cells_exact _ (by simp)

theorem low_mask : (cell.toUInt64 &&& 0xffffffff).toUInt32 = cell := by
  apply UInt32.toNat_inj.mp
  have mask : (0xffffffff : UInt64).toNat = 2 ^ 32 - 1 := rfl
  have bound := limb_lt cell
  rw [UInt64.toNat_toUInt32, UInt64.toNat_and, mask, Nat.and_two_pow_sub_one_eq_mod,
    UInt32.toNat_toUInt64]
  omega

theorem row_cells_exact (lhs : UInt32) (right : List UInt32) (row : Nat) (front : List UInt32)
    (rest result : List UInt32) (column : Nat) (carry : UInt32) (out : List UInt32) (last : UInt32)
    (place : front.length = row + column) (left_over : right.drop column = rest)
    (done : mulRow lhs rest result carry = some (out, last)) :
    rowCells lhs right row rest.length column carry (front ++ result) =
      some (front ++ out, last) := by
  induction rest generalizing front result column carry out with
  | nil =>
    rw [length_nil, rowCells]
    by_cases some_left : carry ≠ 0
    · rw [if_pos some_left]
      cases result with
      | nil =>
        rw [mulRow, if_pos some_left] at done
        cases done
      | cons segment result =>
        rw [mulRow, if_pos some_left] at done
        simp only [Option.some.injEq, Prod.mk.injEq] at done
        obtain ⟨written, gone⟩ := done
        simp only [← place, read_next, bind_eq_bind, bind_some, write_next, low_mask, written, gone]
    · rw [if_neg some_left]
      cases result <;>
        (rw [mulRow, if_neg some_left] at done
         simp only [Option.some.injEq, Prod.mk.injEq] at done
         rw [done.1, done.2])
  | cons rhs rest ih =>
    cases result with
    | nil => cases done
    | cons segment result =>
      have here : right.getD column 0 = rhs := by
        rw [getD_eq_getElem?_getD, ← head?_drop, left_over]
        rfl
      have behind : right.drop (column + 1) = rest := by
        rw [← tail_drop, left_over, tail_cons]
      obtain ⟨first, second⟩ := cell_sum_extended lhs rhs segment carry
      obtain ⟨⟨tail, final⟩, inner, joined⟩ := bind_eq_some_iff.mp done
      obtain ⟨rfl, rfl⟩ := joined
      have next := ih (front ++ [((segment.toUInt64 + lhs.toUInt64 * rhs.toUInt64 +
        carry.toUInt64) &&& 0xffffffff).toUInt32]) result (column + 1) _ tail
        (by rw [length_append, length_singleton]; omega) behind inner
      rw [length_cons, rowCells, segment_or_exact, here]
      simp only [bind_eq_bind, bind_some, (product_extended lhs rhs).1, ← place,
        read_next, first, second, write_next]
      rw [append_cons, next]
      simp only [append_assoc, singleton_append]

theorem rows_cells_exact (front rest result : List UInt32) (carry : UInt32) (out : List UInt32)
    (last : UInt32) (left_over : left.drop front.length = rest)
    (done : mulLoop right rest result carry = some (out, last)) :
    rowsCells left right rest.length front.length carry (front ++ result) =
      some (front ++ out, last) := by
  induction rest generalizing front result carry out with
  | nil =>
    simp only [mulLoop, Option.some.injEq, Prod.mk.injEq] at done
    rw [length_nil, rowsCells, done.1, done.2]
  | cons lhs rest ih =>
    have here : left.getD front.length 0 = lhs := by
      rw [getD_eq_getElem?_getD, ← head?_drop, left_over]
      rfl
    have behind : left.drop (front.length + 1) = rest := by
      rw [← tail_drop, left_over, tail_cons]
    obtain ⟨⟨row, carried⟩, inner, later⟩ := bind_eq_some_iff.mp done
    cases row with
    | nil => cases later
    | cons segment row =>
      obtain ⟨⟨high, final⟩, loop, joined⟩ := bind_eq_some_iff.mp later
      obtain ⟨rfl, rfl⟩ := joined
      have filled := row_cells_exact lhs right front.length front right result 0 carry
        (segment :: row) carried (by omega) (drop_zero) inner
      have next := ih (front ++ [segment]) row carried high
        (by rw [length_append, length_singleton]; exact behind) loop
      rw [length_append, length_singleton] at next
      rw [length_cons, rowsCells, segment_or_exact, here]
      simp only [bind_eq_bind, bind_some, filled]
      rw [append_cons, next]
      simp only [append_assoc, singleton_append]

theorem mul_machine_exact (left right product : BigInt) (present : left.segment ≠ [])
    (done : mul left right = some product) : mulMachine left right = some product := by
  rw [mul] at done
  rw [mulMachine]
  split at done
  · next null => rw [if_pos null, done]
  next positive =>
    obtain ⟨⟨result, carry⟩, loop, later⟩ := bind_eq_some_iff.mp done
    obtain ⟨top, read, later⟩ := bind_eq_some_iff.mp later
    obtain ⟨stored, written, shrunk⟩ := bind_eq_some_iff.mp later
    have rows := rows_cells_exact left.segment right.segment [] left.segment
      (replicate (left.segment.length + right.segment.length) 0) 0 result carry rfl loop
    simp only [length_nil, nil_append] at rows
    have storedPresent : stored ≠ [] := by
      rw [writeAt] at written
      split at written
      · next inside =>
          simp only [Option.some.injEq] at written
          rw [← written, Ne, set_eq_nil_iff]
          intro nothing
          rw [nothing] at inside
          exact Nat.not_lt_zero _ inside
      · cases written
    rw [if_neg positive]
    simp only [rows, lastColumn, if_neg present, bind_eq_bind, bind_some, read, written]
    rw [shrink_cells_exact stored storedPresent]
    exact shrunk

/-- Sum and product of all numbers, leading zeros or not: no index leaves its array, 64
bits hold every intermediate value, and the result has the exact value and no leading
zero segment. A number has at least one segment. -/
theorem sum_and_product_exact (fresh : List UInt32) (left right : BigInt)
    (room : fresh.length = max left.segment.length right.segment.length + 1)
    (present : left.segment ≠ []) :
    (∃ total, addMachine fresh left right = some total ∧ Normal total.segment ∧
        val total = val left + val right) ∧
      ∃ product, mulMachine left right = some product ∧ Normal product.segment ∧
        val product = val left * val right := by
  constructor
  · obtain ⟨normal, total⟩ := add_exact left right
    exact ⟨add left right, add_machine_exact fresh left right room, normal, total⟩
  · obtain ⟨product, done, normal, total⟩ := mul_exact left right present
    exact ⟨product, mul_machine_exact left right product present done, normal, total⟩

theorem largest_segments_exact :
    (∃ total, addMachine [7, 7, 7] ⟨[0xffffffff, 0xffffffff]⟩ ⟨[1, 0]⟩ = some total ∧
        Normal total.segment ∧ val total = val ⟨[0xffffffff, 0xffffffff]⟩ + val ⟨[1, 0]⟩) ∧
      ∃ product, mulMachine ⟨[0xffffffff, 0xffffffff]⟩ ⟨[1, 0]⟩ = some product ∧
        Normal product.segment ∧ val product = val ⟨[0xffffffff, 0xffffffff]⟩ * val ⟨[1, 0]⟩ :=
  sum_and_product_exact [7, 7, 7] _ _ rfl (by decide)

end Pvpgn.BigIntCells
