import Pvpgn.BigIntBytes
import Pvpgn.BigIntPower

/-!
The comparisons of common/bigint.cpp over all the numbers that its constructors and
operators make, with and without leading zero segments.
-/

namespace Pvpgn.BigIntOrder
open Limbs Bytes BigIntArithmetic BigIntDivision BigIntBytes BigIntPower List

/-- operator==: the counts first, then segment by segment while all agree. -/
def equals (left right : BigInt) : Bool :=
  left.segment.length == right.segment.length &&
    (range left.segment.length).all fun i => left.segment.getD i 0 == right.segment.getD i 0

structure Compares (left right : BigInt) : Prop where
  equal : equals left right = true ↔ val left = val right
  less : lt left right = true ↔ val left < val right
  greater : gt left right = true ↔ val right < val left

/-- A surplus segment is not zero, or what is left without them is the greater number when
it is compared from the top. -/
def Outweighs (longer shorter : List UInt32) : Prop :=
  (∃ index, shorter.length ≤ index ∧ longer.getD index 0 ≠ 0) ∨
    precedes shorter.reverse (longer.take shorter.length).reverse = true

variable (left right : BigInt)

theorem equals_iff : equals left right = true ↔ left = right := by
  rw [equals, Bool.and_eq_true, beq_iff_eq, List.all_eq_true]
  constructor
  · rintro ⟨count, cells⟩
    have segments : left.segment = right.segment := by
      apply ext_getElem count
      intro index low high
      have cell := cells index (mem_range.mpr low)
      rwa [beq_iff_eq, getD_eq_getElem _ _ low, getD_eq_getElem _ _ high] at cell
    cases left
    cases right
    exact congrArg BigInt.mk segments
  · intro same
    rw [same]
    exact ⟨rfl, fun _ _ => beq_self_eq_true _⟩

/-! The value of a longer array against a shorter one. -/

theorem surplus_value (longer : List UInt32) (count : Nat) (index : Nat) (beyond : count ≤ index)
    (nonzero : longer.getD index 0 ≠ 0) : 2 ^ (32 * count) ≤ value longer := by
  have digit := value_get longer index
  have positive : 0 < (longer.getD index 0).toNat := by
    apply Nat.pos_of_ne_zero
    intro nothing
    exact nonzero (UInt32.toNat_inj.mp nothing)
  have high : 0 < value longer / 2 ^ (32 * index) := by
    apply Nat.pos_of_ne_zero
    intro nothing
    rw [digit, nothing] at positive
    exact Nat.lt_irrefl 0 positive
  have grown : 2 ^ (32 * count) ≤ 2 ^ (32 * index) := Nat.pow_le_pow_right (by omega) (by omega)
  have reached := (Nat.div_pos_iff.mp high).2
  omega

theorem outweighs_iff (longer shorter : List UInt32) (more : shorter.length ≤ longer.length) :
    Outweighs longer shorter ↔ value shorter < value longer := by
  have bound := value_lt shorter
  rw [Outweighs]
  by_cases surplus : ∃ index, shorter.length ≤ index ∧ longer.getD index 0 ≠ 0
  · obtain ⟨index, beyond, nonzero⟩ := surplus
    have large := surplus_value longer shorter.length index beyond nonzero
    exact ⟨fun _ => by omega, fun _ => Or.inl ⟨index, beyond, nonzero⟩⟩
  have cut := value_cut longer shorter.length (fun index beyond => by
    by_contra nonzero
    exact surplus ⟨index, beyond, nonzero⟩)
  have size : shorter.reverse.length = (longer.take shorter.length).reverse.length := by
    rw [length_reverse, length_reverse, length_take, Nat.min_eq_left more]
  rw [precedes_value _ _ size, reverse_reverse, reverse_reverse, cut, decide_eq_true_iff]
  exact ⟨fun either => either.resolve_left surplus, Or.inr⟩

theorem compares_swap (compares : Compares left right) : Compares right left := by
  refine ⟨?_, compares.greater, compares.less⟩
  rw [equals_iff, eq_comm, ← equals_iff, compares.equal, eq_comm]

theorem same_count_compares (same : left.segment.length = right.segment.length) :
    Compares left right := by
  refine ⟨?_, ?_, ?_⟩
  · rw [equals_iff]
    constructor
    · intro equal
      rw [equal]
    intro equal
    have segments := value_injective left.segment right.segment same equal
    cases left
    cases right
    exact congrArg BigInt.mk segments
  · rw [lt_same_count left right same, decide_eq_true_iff]
  · rw [gt_is_lt, lt_same_count right left same.symm, decide_eq_true_iff]

theorem longer_compares_iff (longer : right.segment.length < left.segment.length) :
    Compares left right ↔ Outweighs left.segment right.segment := by
  have differs : ¬ equals left right = true := by
    rw [equals_iff]
    intro same
    rw [same] at longer
    omega
  have notLess : lt left right = false := by
    rw [lt, if_neg (by omega), if_pos longer]
  have greater : gt left right = true := by
    rw [gt, if_pos longer]
  rw [outweighs_iff left.segment right.segment (by omega)]
  constructor
  · intro compares
    exact compares.greater.mp greater
  intro above
  refine ⟨⟨fun same => absurd same differs, fun equal => ?_⟩, ⟨fun less => ?_, fun less => ?_⟩,
    ⟨fun _ => above, fun _ => greater⟩⟩
  · rw [val, val] at equal
    omega
  · rw [notLess] at less
    cases less
  · rw [val, val] at less
    omega

/-- Two numbers are compared rightly exactly when they have equally many segments, or the
longer one is the greater one for its surplus segments or for those below them. -/
theorem compares_iff (left right : BigInt) :
    Compares left right ↔ left.segment.length = right.segment.length ∨
      (right.segment.length < left.segment.length ∧ Outweighs left.segment right.segment) ∨
      (left.segment.length < right.segment.length ∧ Outweighs right.segment left.segment) := by
  rcases Nat.lt_trichotomy left.segment.length right.segment.length with less | same | more
  · have swapped := longer_compares_iff right left less
    constructor
    · intro compares
      exact Or.inr (Or.inr ⟨less, swapped.mp (compares_swap left right compares)⟩)
    rintro (same | ⟨more, _⟩ | ⟨_, outweighs⟩)
    · omega
    · omega
    · exact compares_swap right left (swapped.mpr outweighs)
  · exact ⟨fun _ => Or.inl same, fun _ => same_count_compares left right same⟩
  · have direct := longer_compares_iff left right more
    constructor
    · intro compares
      exact Or.inr (Or.inl ⟨more, direct.mp compares⟩)
    rintro (same | ⟨_, outweighs⟩ | ⟨less, _⟩)
    · omega
    · exact direct.mpr outweighs
    · omega

/-- The eight bytes of one and its single byte: not equal, and the first is the greater. -/
theorem leading_zeros_miscompared :
    ofBytes [0, 0, 0, 0, 0, 0, 0, 1] 1 true = some ⟨[1, 0]⟩ ∧ ofBytes [1] 1 true = some ⟨[1]⟩ ∧
      val ⟨[1, 0]⟩ = val ⟨[1]⟩ ∧ equals ⟨[1, 0]⟩ ⟨[1]⟩ = false ∧ gt ⟨[1, 0]⟩ ⟨[1]⟩ = true ∧
      ¬Compares ⟨[1, 0]⟩ ⟨[1]⟩ := by
  refine ⟨by decide, by decide, by decide, by decide, by decide, ?_⟩
  intro compares
  exact absurd (compares.equal.mpr (by decide)) (by decide)

end Pvpgn.BigIntOrder
