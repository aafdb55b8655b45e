import Pvpgn.CheckedArray
import Pvpgn.Limbs
import Mathlib.Data.List.GetD

/-!
The unsigned numbers of common/bigint.cpp with 32-bit segments: comparison, sum,
difference and product. `segment` is the array, `segment_count` its length. The
arithmetic is that of the machine types; a write outside an array is `none`.
-/

namespace Pvpgn.BigIntArithmetic
open Limbs Option Nat
open List hiding count

structure BigInt where
  segment : List UInt32
  deriving DecidableEq

def val (number : BigInt) : Nat := value number.segment

def segmentCount (number : BigInt) : Nat := number.segment.length

-- `BigInt()`
def zero : BigInt := ⟨[0]⟩

/-- The constructors of t_uint8, t_uint16 and t_uint32. -/
def ofUInt32 (input : UInt32) : BigInt := ⟨[input]⟩

def ofUInt64 (input : UInt64) : BigInt :=
  ⟨[(input &&& 0xffffffff).toUInt32, ((input >>> 32) &&& 0xffffffff).toUInt32]⟩

def canonical (number : Nat) : BigInt := ⟨ofNat number⟩

def lt (left right : BigInt) : Bool :=
  if left.segment.length < right.segment.length then true
  else if right.segment.length < left.segment.length then false
  else precedes left.segment.reverse right.segment.reverse

def gt (left right : BigInt) : Bool :=
  if right.segment.length < left.segment.length then true
  else if left.segment.length < right.segment.length then false
  else precedes right.segment.reverse left.segment.reverse

-- `for (max_segment_count=...; max_segment_count>0; max_segment_count--)`
def topSegment (segment : List UInt32) : Nat → Nat
  | 0 => 0
  | index + 1 => if segment.getD (index + 1) 0 ≠ 0 then index + 1 else topSegment segment index

def shrink (segment : List UInt32) : List UInt32 :=
  segment.take (topSegment segment (segment.length - 1) + 1)

/-- The loop of operator+ from segment `index` on, `count` segments still to add. -/
def addLoop (left right : List UInt32) : Nat → Nat → UInt32 → List UInt32
  | 0, _, carry => [carry]
  | count + 1, index, carry =>
    let lhs : UInt64 := (left.getD index 0).toUInt64
    let rhs : UInt64 := (right.getD index 0).toUInt64
    let sum := lhs + rhs + carry.toUInt64
    (sum &&& 0xffffffff).toUInt32 :: addLoop left right count (index + 1) (sum >>> 32).toUInt32

def add (left right : BigInt) : BigInt :=
  ⟨shrink (addLoop left.segment right.segment (max left.segment.length right.segment.length) 0 0)⟩

-- `rhs+= carry` is a sum of the 32-bit type.
def subLoop (left right : List UInt32) : Nat → Nat → UInt32 → List UInt32
  | 0, _, _ => []
  | count + 1, index, carry =>
    let lhs := left.getD index 0
    let rhs := right.getD index 0 + carry
    (lhs - rhs) :: subLoop left right count (index + 1) (if lhs < rhs then 1 else 0)

def sub (left right : BigInt) : BigInt :=
  if gt left right then
    ⟨shrink (subLoop left.segment right.segment left.segment.length 0 0)⟩
  else zero

/-- One row of operator*. `result` is the result's segments from index i+j on; the
carry is put into the segment after the row, in 32 bits. -/
def mulRow (lhs : UInt32) : List UInt32 → List UInt32 → UInt32 → Option (List UInt32 × UInt32)
  | [], result, carry =>
    if carry ≠ 0 then
      match result with
      | [] => none
      | segment :: rest => some ((segment + carry) :: rest, ((segment + carry).toUInt64 >>> 32).toUInt32)
    else some (result, carry)
  | _ :: _, [], _ => none
  | rhs :: right, segment :: result, carry => do
    let prod := lhs.toUInt64 * rhs.toUInt64
    let sum := segment.toUInt64 + prod + carry.toUInt64
    let (rest, last) ← mulRow lhs right result (sum >>> 32).toUInt32
    some ((sum &&& 0xffffffff).toUInt32 :: rest, last)

/-- The rows of operator*, `result` from index i on. -/
def mulLoop (right : List UInt32) : List UInt32 → List UInt32 → UInt32 →
    Option (List UInt32 × UInt32)
  | [], result, carry => some (result, carry)
  | lhs :: left, result, carry => do
    let (row, last) ← mulRow lhs right result carry
    match row with
    | [] => none
    | segment :: rest => do
      let (high, final) ← mulLoop right left rest last
      some (segment :: high, final)

def mul (left right : BigInt) : Option BigInt :=
  if left.segment = [0] ∨ right.segment = [0] then some zero
  else do
    let count := left.segment.length + right.segment.length
    let (result, carry) ← mulLoop right.segment left.segment (replicate count 0) 0
    let top ← CheckedArray.readAt result (count - 1)
    let result ← CheckedArray.writeAt result (count - 1) (top + carry)
    some ⟨shrink result⟩

-- `operator<<` by whole segments; a shift by nothing gives zero, as in the source.
def shiftLeft (number : BigInt) (segmentsToShift : Nat) : BigInt :=
  if segmentsToShift = 0 then zero
  else ⟨replicate segmentsToShift 0 ++ number.segment⟩

theorem val_canonical (number : Nat) : val (canonical number) = number := value_of_nat number

/-! Comparison. -/

variable (left right : BigInt) (segment : List UInt32)

theorem lt_same_count (same : left.segment.length = right.segment.length) :
    lt left right = decide (val left < val right) := by
  rw [lt, if_neg (by omega), if_neg (by omega), precedes_value _ _ (by simpa using same),
    reverse_reverse, reverse_reverse, val, val]

theorem gt_is_lt : gt left right = lt right left := rfl

theorem longer_value (normal : Normal right.segment) (present : left.segment ≠ [])
    (longer : left.segment.length < right.segment.length) : val left < val right := by
  have leftPresent := length_pos_of_ne_nil present
  have floor := normal_value right.segment normal (by omega)
  have bound := value_lt left.segment
  have grown : 2 ^ (32 * left.segment.length) ≤ 2 ^ (32 * (right.segment.length - 1)) :=
    Nat.pow_le_pow_right (by omega) (by omega)
  rw [val, val]
  omega

theorem lt_exact (leftNormal : Normal left.segment) (rightNormal : Normal right.segment) :
    lt left right = decide (val left < val right) := by
  rcases lt_trichotomy left.segment.length right.segment.length with less | same | more
  · have below := longer_value left right rightNormal leftNormal.present less
    rw [lt, if_pos less, eq_comm, decide_eq_true_iff]
    exact below
  · exact lt_same_count left right same
  · have above := longer_value right left leftNormal rightNormal.present more
    rw [lt, if_neg (by omega), if_pos more, eq_comm, decide_eq_false_iff_not]
    omega

theorem eq_exact (leftNormal : Normal left.segment) (rightNormal : Normal right.segment) :
    left = right ↔ val left = val right := by
  constructor
  · intro same
    rw [same]
  intro equal
  have segments := normal_unique _ _ leftNormal rightNormal equal
  cases left
  cases right
  exact congrArg BigInt.mk segments

/-! Cutting leading zero segments. -/

theorem top_segment_le (index : Nat) : topSegment segment index ≤ index := by
  induction index with
  | zero => exact le_refl 0
  | succ index ih =>
    rw [topSegment]
    split <;> omega

theorem above_top_segment (limit index : Nat) (above : topSegment segment limit < index)
    (inside : index ≤ limit) : segment.getD index 0 = 0 := by
  induction limit with
  | zero => omega
  | succ limit ih =>
    rw [topSegment] at above
    split at above
    · omega
    next zero =>
      by_cases last : index = limit + 1
      · rw [last]
        exact not_not.mp zero
      · exact ih above (by omega)

theorem top_segment_nonzero (limit : Nat) (positive : 0 < topSegment segment limit) :
    segment.getD (topSegment segment limit) 0 ≠ 0 := by
  induction limit with
  | zero => simp [topSegment] at positive
  | succ limit ih =>
    rw [topSegment] at positive ⊢
    split
    · next nonzero => exact nonzero
    · next zero =>
        rw [if_neg zero] at positive
        exact ih positive

theorem shrink_value : value (shrink segment) = value segment := by
  apply value_cut
  intro index beyond
  by_cases inside : index < segment.length
  · exact above_top_segment segment (segment.length - 1) index (by omega) (by omega)
  · exact getD_eq_default _ _ (by omega)

theorem shrink_normal (present : segment ≠ []) : Normal (shrink segment) := by
  have positive := length_pos_of_ne_nil present
  have bound := top_segment_le segment (segment.length - 1)
  have length : (shrink segment).length = topSegment segment (segment.length - 1) + 1 := by
    rw [shrink, length_take]
    omega
  refine ⟨ne_nil_of_length_pos (by omega), ?_⟩
  intro long
  have nonzero := top_segment_nonzero segment (segment.length - 1) (by omega)
  rw [getLast?_eq_getElem?, length, shrink, Nat.add_sub_cancel, getElem?_take_of_lt (by omega)]
  intro found
  rw [getD_eq_getElem?_getD, found] at nonzero
  exact nonzero rfl

/-! Sum. -/

theorem sum_split (lhs rhs carry : UInt32) (small : carry.toNat ≤ 1) :
    let sum := lhs.toUInt64 + rhs.toUInt64 + carry.toUInt64
    (sum &&& 0xffffffff).toUInt32.toNat = (lhs.toNat + rhs.toNat + carry.toNat) % 2 ^ 32 ∧
      (sum >>> 32).toUInt32.toNat = (lhs.toNat + rhs.toNat + carry.toNat) / 2 ^ 32 := by
  have left := limb_lt lhs
  have right := limb_lt rhs
  have mask : (0xffffffff : UInt64).toNat = 2 ^ 32 - 1 := rfl
  have amount : (32 : UInt64).toNat % 64 = 32 := rfl
  constructor
  · rw [UInt64.toNat_toUInt32, UInt64.toNat_and, mask, and_two_pow_sub_one_eq_mod]
    simp only [UInt64.toNat_add, UInt32.toNat_toUInt64]
    omega
  · rw [UInt64.toNat_toUInt32, UInt64.toNat_shiftRight, amount, shiftRight_eq_div_pow]
    simp only [UInt64.toNat_add, UInt32.toNat_toUInt64]
    omega

theorem add_loop_value (left right : List UInt32) (count index : Nat) (carry : UInt32)
    (small : carry.toNat ≤ 1) (leftInside : left.length ≤ index + count)
    (rightInside : right.length ≤ index + count) :
    value (addLoop left right count index carry) =
      value (left.drop index) + value (right.drop index) + carry.toNat := by
  induction count generalizing index carry with
  | zero =>
    rw [add_zero] at leftInside rightInside
    rw [drop_eq_nil_of_le leftInside, drop_eq_nil_of_le rightInside]
    simp [addLoop, value_cons]
  | succ count ih =>
    obtain ⟨low, high⟩ := sum_split (left.getD index 0) (right.getD index 0) carry small
    have leftLimb := limb_lt (left.getD index 0)
    have rightLimb := limb_lt (right.getD index 0)
    simp only [addLoop, value_cons]
    rw [ih (index + 1) _ (by rw [high]; omega) (by omega) (by omega), low, high,
      value_drop_step left index, value_drop_step right index]
    omega

theorem add_exact :
    Normal (add left right).segment ∧ val (add left right) = val left + val right := by
  have present : ∀ count index carry, addLoop left.segment right.segment count index carry ≠ [] := by
    intro count
    cases count <;> simp [addLoop]
  constructor
  · exact shrink_normal _ (present _ _ _)
  · rw [val, add, shrink_value, add_loop_value _ _ _ _ _ (by decide) (by omega) (by omega)]
    simp [val]

/-! Difference. A borrow into a segment of the subtrahend with all bits set wraps to
a subtrahend of zero, and the borrow is lost. -/

/-- The subtraction `left - right` borrows into an all-ones segment of `right`. -/
def Slips (left right : Nat) : Prop :=
  ∃ index, right / 2 ^ (32 * index) % 2 ^ 32 = 2 ^ 32 - 1 ∧
    left % 2 ^ (32 * index) < right % 2 ^ (32 * index)

def Borrows (left right : Nat) (index : Nat) (carry : UInt32) : Prop :=
  carry.toNat = if left % 2 ^ (32 * index) < right % 2 ^ (32 * index) then 1 else 0

variable (lhs : UInt32)

theorem difference_step (rhs carry : UInt32) (fits : rhs.toNat + carry.toNat < 2 ^ 32) :
    (lhs - (rhs + carry)).toNat + rhs.toNat + carry.toNat =
      lhs.toNat + 2 ^ 32 * (if lhs < rhs + carry then 1 else 0 : UInt32).toNat := by
  have left := limb_lt lhs
  have sum : (rhs + carry).toNat = rhs.toNat + carry.toNat := by
    rw [UInt32.toNat_add, mod_eq_of_lt fits]
  have decided : lhs < rhs + carry ↔ lhs.toNat < rhs.toNat + carry.toNat := by
    rw [UInt32.lt_iff_toNat_lt, sum]
  have one : (1 : UInt32).toNat = 1 := rfl
  have nothing : (0 : UInt32).toNat = 0 := rfl
  rw [UInt32.toNat_sub, sum]
  by_cases below : lhs < rhs + carry
  · rw [if_pos below, one]
    rw [decided] at below
    omega
  · rw [if_neg below, nothing]
    rw [decided] at below
    omega

theorem mod_succ (number index : Nat) : number % 2 ^ (32 * (index + 1)) =
    number % 2 ^ (32 * index) + 2 ^ (32 * index) * (number / 2 ^ (32 * index) % 2 ^ 32) := by
  rw [power_succ, mul_comm, mod_mul]

/-- Without a slip the borrow out of a segment is the schoolbook one. -/
theorem borrow_step (left right index : Nat) (lhs rhs carry : UInt32)
    (lhsDigit : lhs.toNat = left / 2 ^ (32 * index) % 2 ^ 32)
    (rhsDigit : rhs.toNat = right / 2 ^ (32 * index) % 2 ^ 32)
    (borrows : Borrows left right index carry) (fits : rhs.toNat + carry.toNat < 2 ^ 32) :
    Borrows left right (index + 1) (if lhs < rhs + carry then 1 else 0) := by
  have sum : (rhs + carry).toNat = rhs.toNat + carry.toNat := by
    rw [UInt32.toNat_add, mod_eq_of_lt fits]
  have positive : 0 < 2 ^ (32 * index) := Nat.two_pow_pos _
  have leftLow := mod_lt left positive
  have rightLow := mod_lt right positive
  rw [Borrows, mod_succ, mod_succ, ← lhsDigit, ← rhsDigit]
  rw [Borrows] at borrows
  have decided : lhs < rhs + carry ↔
      left % 2 ^ (32 * index) + 2 ^ (32 * index) * lhs.toNat <
        right % 2 ^ (32 * index) + 2 ^ (32 * index) * rhs.toNat := by
    rw [UInt32.lt_iff_toNat_lt, sum]
    generalize 2 ^ (32 * index) = power at *
    rcases lt_trichotomy lhs.toNat rhs.toNat with less | same | more
    · have scaled := mul_le_mul_left power (succ_le_of_lt less)
      rw [succ_eq_add_one, mul_add] at scaled
      constructor <;> intro <;> omega
    · rw [same]
      split at borrows <;> constructor <;> intro <;> omega
    · have scaled := mul_le_mul_left power (succ_le_of_lt more)
      rw [succ_eq_add_one, mul_add] at scaled
      split at borrows <;> constructor <;> intro <;> omega
  by_cases below : lhs < rhs + carry
  · rw [if_pos below, if_pos (decided.mp below)]
    rfl
  · rw [if_neg below, if_neg (fun less => below (decided.mpr less))]
    rfl

-- Induction on the segments still to subtract; the borrow is the schoolbook one. The
-- last borrow has nowhere to go: the array wraps.
theorem sub_loop_value (left right : List UInt32) (count index : Nat) (carry : UInt32)
    (leftInside : left.length = index + count) (rightInside : right.length ≤ index + count)
    (noSlip : ¬Slips (value left) (value right))
    (borrows : Borrows (value left) (value right) index carry) :
    value (subLoop left right count index carry) + value (right.drop index) + carry.toNat =
      value (left.drop index) + 2 ^ (32 * count) * (if value left < value right then 1 else 0) := by
  induction count generalizing index carry with
  | zero =>
    rw [add_zero] at leftInside rightInside
    have leftAll := value_lt left
    have rightAll := value_lt right
    have grown : 2 ^ (32 * right.length) ≤ 2 ^ (32 * index) :=
      Nat.pow_le_pow_right (by omega) (by omega)
    rw [leftInside] at leftAll
    rw [Borrows, mod_eq_of_lt leftAll, mod_eq_of_lt (by omega)] at borrows
    rw [drop_eq_nil_of_le (le_of_eq leftInside), drop_eq_nil_of_le rightInside,
      borrows, mul_zero, pow_zero, one_mul]
    rfl
  | succ count ih =>
    have rhsDigit := value_get right index
    have lhsDigit := value_get left index
    have fits : (right.getD index 0).toNat + carry.toNat < 2 ^ 32 := by
      by_contra wraps
      apply noSlip
      rw [Borrows] at borrows
      split at borrows
      · next less => exact ⟨index, by omega, less⟩
      · omega
    have next := borrow_step _ _ index _ _ _ lhsDigit rhsDigit borrows fits
    have rest := ih (index + 1) _ (by omega) (by omega) next
    have here := difference_step (left.getD index 0) (right.getD index 0) carry fits
    simp only [subLoop, value_cons]
    rw [value_drop_step left index, value_drop_step right index, power_succ, mul_assoc]
    omega

section
variable (present : left.segment ≠ []) (fits : right.segment.length ≤ left.segment.length)
include present fits

theorem sub_value (greater : gt left right = true) (noSlip : ¬Slips (val left) (val right)) :
    Normal (sub left right).segment ∧ val (sub left right) + val right =
      val left + 2 ^ (32 * left.segment.length) * (if val left < val right then 1 else 0) := by
  have start : Borrows (val left) (val right) 0 0 := by
    rw [Borrows, mul_zero, pow_zero, mod_one, mod_one]
    rfl
  have loop := sub_loop_value left.segment right.segment left.segment.length 0 0 (by omega)
    (by omega) noSlip start
  have nonempty : subLoop left.segment right.segment left.segment.length 0 0 ≠ [] := by
    obtain ⟨count, size⟩ := exists_eq_succ_of_ne_zero
      (pos_iff_ne_zero.mp (length_pos_of_ne_nil present))
    rw [size]
    simp [subLoop]
  rw [sub, if_pos greater]
  refine ⟨shrink_normal _ nonempty, ?_⟩
  rw [val, shrink_value]
  exact loop

theorem sub_exact (above : val right ≤ val left) (noSlip : ¬Slips (val left) (val right)) :
    Normal (sub left right).segment ∧ val (sub left right) = val left - val right := by
  by_cases greater : gt left right = true
  · obtain ⟨normal, total⟩ := sub_value left right present fits greater noSlip
    rw [if_neg (by omega), mul_zero] at total
    exact ⟨normal, by omega⟩
  rw [sub, if_neg greater]
  refine ⟨normal_single 0, ?_⟩
  have same : right.segment.length = left.segment.length := by
    by_contra different
    rw [gt, if_pos (by omega)] at greater
    exact greater rfl
  rw [gt_is_lt, lt_same_count right left same, decide_eq_true_iff] at greater
  have nothing : val zero = 0 := rfl
  omega

end

/-! Where the difference is wrong. A lost borrow leaves the result too great by its whole
weight, and nothing below it can make up for that. -/

-- What the code subtracts is never more than the borrow asks for.
theorem difference_floor (rhs carry : UInt32) :
    lhs.toNat + 2 ^ 32 * (if lhs < rhs + carry then 1 else 0 : UInt32).toNat ≤
      (lhs - (rhs + carry)).toNat + rhs.toNat + carry.toNat := by
  have left := limb_lt lhs
  have sum : (rhs + carry).toNat ≤ rhs.toNat + carry.toNat := by
    exact mod_le _ _
  have decided : lhs < rhs + carry ↔ lhs.toNat < (rhs + carry).toNat := UInt32.lt_iff_toNat_lt
  have one : (1 : UInt32).toNat = 1 := rfl
  have nothing : (0 : UInt32).toNat = 0 := rfl
  rw [UInt32.toNat_sub]
  by_cases below : lhs < rhs + carry
  · rw [if_pos below, one]
    rw [decided] at below
    omega
  · rw [if_neg below, nothing]
    omega

theorem sub_loop_floor (left right : List UInt32) (count index : Nat) (carry : UInt32)
    (inside : left.length = index + count) :
    value (left.drop index) ≤
      value (subLoop left right count index carry) + value (right.drop index) + carry.toNat := by
  induction count generalizing index carry with
  | zero =>
    rw [add_zero] at inside
    rw [drop_eq_nil_of_le (le_of_eq inside), value_nil]
    exact zero_le _
  | succ count ih =>
    have here := difference_floor (left.getD index 0) (right.getD index 0) carry
    have rest := ih (index + 1)
      (if left.getD index 0 < right.getD index 0 + carry then 1 else 0) (by omega)
    simp only [subLoop, value_cons]
    rw [value_drop_step left index, value_drop_step right index]
    omega

def SlipsAt (left right index : Nat) : Prop :=
  right / 2 ^ (32 * index) % 2 ^ 32 = 2 ^ 32 - 1 ∧
    left % 2 ^ (32 * index) < right % 2 ^ (32 * index)

-- Up to the first slip the borrows are the schoolbook ones; there the wrapped sum is zero
-- and the segment that is lost is never taken away again.
theorem sub_loop_slip (left right : List UInt32) (count index : Nat) (carry : UInt32)
    (inside : left.length = index + count)
    (borrows : Borrows (value left) (value right) index carry)
    (slip : ∃ place, index ≤ place ∧ place < index + count ∧
      SlipsAt (value left) (value right) place) :
    value (left.drop index) <
      value (subLoop left right count index carry) + value (right.drop index) + carry.toNat := by
  induction count generalizing index carry with
  | zero =>
    omega
  | succ count ih =>
    have rhsDigit := value_get right index
    have lhsDigit := value_get left index
    simp only [subLoop, value_cons]
    rw [value_drop_step left index, value_drop_step right index]
    by_cases fits : (right.getD index 0).toNat + carry.toNat < 2 ^ 32
    · have next := borrow_step _ _ index _ _ _ lhsDigit rhsDigit borrows fits
      have here := difference_step (left.getD index 0) (right.getD index 0) carry fits
      obtain ⟨place, low, high, ones, less⟩ := slip
      have later : index ≠ place := by
        intro same
        subst same
        rw [Borrows, if_pos less] at borrows
        omega
      have rest := ih (index + 1) _ (by omega) next
        ⟨place, by omega, by omega, ones, less⟩
      omega
    · have one : carry.toNat ≤ 1 := by
        rw [borrows]
        split <;> omega
      have wrapped : right.getD index 0 + carry = 0 := by
        apply UInt32.toNat_inj.mp
        have nothing : (0 : UInt32).toNat = 0 := rfl
        rw [UInt32.toNat_add, nothing]
        omega
      have kept : ¬ left.getD index 0 < 0 := by
        exact not_lt_zero _
      have rest := sub_loop_floor left right count (index + 1) 0 (by omega)
      have nothing : (0 : UInt32).toNat = 0 := rfl
      rw [wrapped, if_neg kept, UInt32.sub_zero]
      omega

theorem slip_inside (left : Nat) (right : List UInt32) (index : Nat)
    (slip : SlipsAt left (value right) index) : index < right.length := by
  by_contra outside
  have digit := value_get right index
  rw [getD_eq_default _ _ (by omega), slip.1] at digit
  have nothing : (0 : UInt32).toNat = 0 := rfl
  omega

theorem greater_fits (leftNormal : Normal left.segment) (rightNormal : Normal right.segment)
    (above : val right ≤ val left) : right.segment.length ≤ left.segment.length := by
  by_contra longer
  have below := longer_value left right rightNormal leftNormal.present (by omega)
  omega

theorem sub_slip_wrong (leftNormal : Normal left.segment) (rightNormal : Normal right.segment)
    (above : val right < val left) (slips : Slips (val left) (val right)) :
    val (sub left right) ≠ val left - val right := by
  have fits := greater_fits left right leftNormal rightNormal (by omega)
  have greater : gt left right = true := by
    rw [gt_is_lt, lt_exact right left rightNormal leftNormal, decide_eq_true_iff]
    exact above
  have start : Borrows (val left) (val right) 0 0 := by
    rw [Borrows, mul_zero, pow_zero, mod_one, mod_one]
    rfl
  obtain ⟨place, slip⟩ := slips
  have loop := sub_loop_slip left.segment right.segment left.segment.length 0 0 (by omega) start
    ⟨place, zero_le _, by have := slip_inside _ _ _ slip; omega, slip⟩
  have nothing : (0 : UInt32).toNat = 0 := rfl
  rw [drop_zero, drop_zero, nothing] at loop
  rw [sub, if_pos greater, val, shrink_value, val, val]
  rw [val, val] at above
  omega

/-- The difference of two numbers without leading zeros: right exactly when the greater one
is not subtracted from, or no borrow goes into a segment with all bits set. -/
theorem difference_right_iff (left right : BigInt) (leftNormal : Normal left.segment)
    (rightNormal : Normal right.segment) :
    val (sub left right) = (if val right < val left then val left - val right else 0) ↔
      ¬(val right < val left ∧ Slips (val left) (val right)) := by
  by_cases above : val right < val left
  · rw [if_pos above]
    constructor
    · rintro right_value ⟨_, slips⟩
      exact sub_slip_wrong left right leftNormal rightNormal above slips right_value
    intro clean
    have fits := greater_fits left right leftNormal rightNormal (by omega)
    exact (sub_exact left right leftNormal.present fits (by omega)
      (fun slips => clean ⟨above, slips⟩)).2
  · have refused : gt left right = false := by
      rw [gt_is_lt, lt_exact right left rightNormal leftNormal, decide_eq_false_iff_not]
      exact above
    rw [if_neg above, sub, refused]
    exact ⟨fun _ failed => above failed.1, fun _ => rfl⟩

theorem difference_right_sample : val (sub ⟨[0, 0, 1]⟩ ⟨[1]⟩) = 2 ^ 64 - 1 := by
  have exact_value := (difference_right_iff ⟨[0, 0, 1]⟩ ⟨[1]⟩ ⟨by decide, by decide⟩
    (normal_single 1)).mpr (by
      rintro ⟨_, index, ones, _⟩
      cases index with
      | zero => exact absurd ones (by decide)
      | succ index =>
        have small : val ⟨[1]⟩ < 2 ^ (32 * (index + 1)) := by
          exact Nat.one_lt_two_pow (by omega)
        rw [Nat.div_eq_of_lt small] at ones
        exact absurd ones (by decide))
  exact exact_value

-- 2^64 - (2^64 - 2^32 + 1): the borrow out of the first segment goes into 0xffffffff.
theorem difference_loses_borrow :
    Normal (⟨[0, 0, 1]⟩ : BigInt).segment ∧ Normal (⟨[1, 0xffffffff]⟩ : BigInt).segment ∧
      val ⟨[1, 0xffffffff]⟩ < val ⟨[0, 0, 1]⟩ ∧
      sub ⟨[0, 0, 1]⟩ ⟨[1, 0xffffffff]⟩ = ⟨[0xffffffff, 0, 1]⟩ ∧
      val (sub ⟨[0, 0, 1]⟩ ⟨[1, 0xffffffff]⟩) ≠ val ⟨[0, 0, 1]⟩ - val ⟨[1, 0xffffffff]⟩ :=
  ⟨⟨by decide, by decide⟩, ⟨by decide, by decide⟩, by decide, by decide, by decide⟩

/-! Product. -/

theorem product_split (lhs rhs segment carry : UInt32) :
    let sum := segment.toUInt64 + lhs.toUInt64 * rhs.toUInt64 + carry.toUInt64
    (sum &&& 0xffffffff).toUInt32.toNat =
        (segment.toNat + lhs.toNat * rhs.toNat + carry.toNat) % 2 ^ 32 ∧
      (sum >>> 32).toUInt32.toNat =
        (segment.toNat + lhs.toNat * rhs.toNat + carry.toNat) / 2 ^ 32 := by
  have left := limb_lt lhs
  have right := limb_lt rhs
  have cell := limb_lt segment
  have carried := limb_lt carry
  have product : lhs.toNat * rhs.toNat ≤ (2 ^ 32 - 1) * (2 ^ 32 - 1) :=
    Nat.mul_le_mul (by omega) (by omega)
  have mask : (0xffffffff : UInt64).toNat = 2 ^ 32 - 1 := rfl
  have amount : (32 : UInt64).toNat % 64 = 32 := rfl
  constructor
  · rw [UInt64.toNat_toUInt32, UInt64.toNat_and, mask, and_two_pow_sub_one_eq_mod]
    simp only [UInt64.toNat_add, UInt64.toNat_mul, UInt32.toNat_toUInt64]
    omega
  · rw [UInt64.toNat_toUInt32, UInt64.toNat_shiftRight, amount, shiftRight_eq_div_pow]
    simp only [UInt64.toNat_add, UInt64.toNat_mul, UInt32.toNat_toUInt64]
    omega

/-- One row adds `lhs * right` to the segments it starts at. The segment after the row
is still zero, so the 32-bit sum that takes the carry does not wrap. -/
theorem mul_row_exact (right result : List UInt32) (carry : UInt32)
    (room : right.length < result.length) (blank : result.getD right.length 0 = 0) :
    ∃ row, mulRow lhs right result carry = some (row, 0) ∧ row.length = result.length ∧
      row.drop (right.length + 1) = result.drop (right.length + 1) ∧
      value row = value result + lhs.toNat * value right + carry.toNat := by
  induction right generalizing result carry with
  | nil =>
    cases result with
    | nil => simp at room
    | cons segment rest =>
      have zero : segment = 0 := by simpa using blank
      subst zero
      by_cases some_left : carry ≠ 0
      · refine ⟨(0 + carry) :: rest, ?_, rfl, rfl, ?_⟩
        · have gone : ((0 + carry).toUInt64 >>> 32).toUInt32 = 0 := by
            apply UInt32.toNat_inj.mp
            have amount : (32 : UInt64).toNat % 64 = 32 := rfl
            have bound := limb_lt (0 + carry)
            have nothing : (0 : UInt32).toNat = 0 := rfl
            rw [UInt64.toNat_toUInt32, UInt64.toNat_shiftRight, amount,
              shiftRight_eq_div_pow, UInt32.toNat_toUInt64, nothing]
            omega
          rw [mulRow, if_pos some_left, gone]
        · rw [value_cons, value_cons, value_nil, UInt32.zero_add]
          have nothing : (0 : UInt32).toNat = 0 := rfl
          omega
      · rw [not_not] at some_left
        subst some_left
        exact ⟨0 :: rest, rfl, rfl, rfl, rfl⟩
  | cons rhs right ih =>
    cases result with
    | nil => simp at room
    | cons segment result =>
      obtain ⟨low, high⟩ := product_split lhs rhs segment carry
      obtain ⟨row, done, length, kept, total⟩ := ih result
        ((segment.toUInt64 + lhs.toUInt64 * rhs.toUInt64 + carry.toUInt64) >>> 32).toUInt32
        (by simpa using room) (by simpa using blank)
      refine ⟨((segment.toUInt64 + lhs.toUInt64 * rhs.toUInt64 + carry.toUInt64) &&&
        0xffffffff).toUInt32 :: row, ?_, by simpa using length, by simpa using kept, ?_⟩
      · simp only [mulRow, done, bind_eq_bind, bind_some]
      · rw [value_cons, value_cons, value_cons, total, high, low, mul_add, mul_add,
          mul_add, mul_left_comm lhs.toNat]
        omega

theorem mul_loop_exact (right left result : List UInt32)
    (room : result.length = left.length + right.length)
    (blank : result.drop right.length = replicate left.length 0) :
    ∃ product, mulLoop right left result 0 = some (product, 0) ∧ product.length = result.length ∧
      value product = value result + value left * value right := by
  induction left generalizing result with
  | nil => exact ⟨result, rfl, rfl, by simp⟩
  | cons lhs left ih =>
    rw [length_cons] at room blank
    have first : result.getD right.length 0 = 0 := by
      rw [getD_eq_getElem?_getD, ← head?_drop, blank]
      rfl
    obtain ⟨row, done, length, kept, total⟩ := mul_row_exact lhs right result 0 (by omega) first
    cases row with
    | nil =>
      rw [length_nil] at length
      omega
    | cons segment rest =>
      have restLength : rest.length = left.length + right.length := by
        rw [length_cons] at length
        omega
      have restBlank : rest.drop right.length = replicate left.length 0 := by
        rw [drop_succ_cons] at kept
        rw [kept, ← drop_drop, blank, drop_replicate, Nat.add_sub_cancel]
      obtain ⟨product, loop, productLength, productValue⟩ := ih rest restLength restBlank
      refine ⟨segment :: product, ?_, ?_, ?_⟩
      · simp only [mulLoop, done, loop, bind_eq_bind, bind_some]
      · rw [← length, length_cons, length_cons, productLength]
      have nothing : (0 : UInt32).toNat = 0 := rfl
      rw [value_cons, nothing, add_zero] at total
      rw [value_cons, productValue, value_cons, add_mul, mul_add, mul_assoc (2 ^ 32)]
      omega

theorem mul_exact (present : left.segment ≠ []) :
    ∃ product, mul left right = some product ∧ Normal product.segment ∧
      val product = val left * val right := by
  by_cases null : left.segment = [0] ∨ right.segment = [0]
  · refine ⟨zero, by rw [mul, if_pos null], normal_single 0, ?_⟩
    have nothing : value [0] = 0 := rfl
    rcases null with same | same
    · rw [val, val, same, nothing, zero_mul]
      rfl
    · rw [val, val, val, same, nothing, mul_zero]
      rfl
  have leftPositive := length_pos_of_ne_nil present
  obtain ⟨product, loop, length, total⟩ := mul_loop_exact right.segment left.segment
    (replicate (left.segment.length + right.segment.length) 0) (by simp) (by simp)
  rw [length_replicate] at length
  have last : left.segment.length + right.segment.length - 1 < product.length := by omega
  have same : product.set (left.segment.length + right.segment.length - 1)
      (product[left.segment.length + right.segment.length - 1] + 0) = product := by
    rw [UInt32.add_zero, set_getElem_self]
  refine ⟨⟨shrink product⟩, ?_, shrink_normal _ (ne_nil_of_length_pos (by omega)), ?_⟩
  · simp only [mul, if_neg null, loop, CheckedArray.read_inside _ _ last,
      CheckedArray.write_inside _ _ _ last, same, bind_eq_bind, bind_some]
  · rw [val, shrink_value, total, value_replicate, zero_add, val, val]

theorem of_uint64_value (input : UInt64) : val (ofUInt64 input) = input.toNat := by
  have mask : (0xffffffff : UInt64).toNat = 2 ^ 32 - 1 := rfl
  have amount : (32 : UInt64).toNat % 64 = 32 := rfl
  have bound := UInt64.toNat_lt input
  rw [val, ofUInt64, value_cons, value_cons, value_nil, UInt64.toNat_toUInt32,
    UInt64.toNat_toUInt32, UInt64.toNat_and, UInt64.toNat_and, mask, and_two_pow_sub_one_eq_mod,
    and_two_pow_sub_one_eq_mod, UInt64.toNat_shiftRight, amount, shiftRight_eq_div_pow]
  omega

end Pvpgn.BigIntArithmetic
