import Mathlib.Data.List.Basic
import Mathlib.Data.List.TakeDrop
import Mathlib.Tactic.Ring
import Mathlib.Tactic.Linarith

/-!
Natural numbers as lists of 32-bit limbs, least significant first. A list may end
in zero limbs; `Normal` lists do not, and there is one of them for every number.
-/

namespace Pvpgn.Limbs
open List Nat

def value : List UInt32 → Nat
  | [] => 0
  | limb :: rest => limb.toNat + 2 ^ 32 * value rest

@[simp] theorem value_nil : value [] = 0 := rfl

variable (limbs : List UInt32) (count : Nat) (limb : UInt32)

theorem value_cons (rest : List UInt32) :
    value (limb :: rest) = limb.toNat + 2 ^ 32 * value rest := rfl

theorem limb_lt : limb.toNat < 2 ^ 32 := UInt32.toNat_lt limb

theorem power_succ : 2 ^ (32 * (count + 1)) = 2 ^ 32 * 2 ^ (32 * count) := by
  rw [← pow_add]
  congr 1
  omega

theorem value_append (low high : List UInt32) :
    value (low ++ high) = value low + 2 ^ (32 * low.length) * value high := by
  induction low with
  | nil => simp
  | cons limb rest ih =>
    rw [cons_append, value_cons, value_cons, ih, length_cons, power_succ]
    ring

theorem value_lt : value limbs < 2 ^ (32 * limbs.length) := by
  induction limbs with
  | nil => simp
  | cons limb rest ih =>
    have small := limb_lt limb
    rw [value_cons, length_cons, power_succ]
    omega

theorem value_replicate : value (replicate count 0) = 0 := by
  induction count with
  | zero => rfl
  | succ count ih => rw [replicate_succ, value_cons, ih]; rfl

theorem value_drop : value (limbs.drop count) = value limbs / 2 ^ (32 * count) := by
  induction limbs generalizing count with
  | nil => simp
  | cons limb rest ih =>
    cases count with
    | zero => simp
    | succ count =>
      have small := limb_lt limb
      rw [drop_succ_cons, value_cons, ih, power_succ, ← Nat.div_div_eq_div_mul,
        add_mul_div_left _ _ (by omega), div_eq_of_lt small, zero_add]

theorem value_get (index : Nat) :
    (limbs.getD index 0).toNat = value limbs / 2 ^ (32 * index) % 2 ^ 32 := by
  rw [← value_drop, getD_eq_getElem?_getD, ← head?_drop]
  cases limbs.drop index with
  | nil => rfl
  | cons limb rest =>
    rw [value_cons, add_mul_mod_self_left, mod_eq_of_lt (limb_lt limb)]
    rfl

theorem value_drop_step (index : Nat) :
    value (limbs.drop index) =
      (limbs.getD index 0).toNat + 2 ^ 32 * value (limbs.drop (index + 1)) := by
  rw [value_get, value_drop, value_drop, power_succ, mul_comm (2 ^ 32) (2 ^ (32 * index)),
    ← Nat.div_div_eq_div_mul]
  omega

theorem value_concat (top : UInt32) :
    value (limbs ++ [top]) = value limbs + 2 ^ (32 * limbs.length) * top.toNat := by
  rw [value_append, value_cons, value_nil, mul_zero, add_zero]

/-! Comparison from the most significant limb down. -/

/-- High limbs first; equally many on both sides. -/
def precedes : List UInt32 → List UInt32 → Bool
  | left :: lefts, right :: rights =>
    if left < right then true
    else if right < left then false
    else precedes lefts rights
  | _, _ => false

theorem precedes_value (lefts rights : List UInt32) (same : lefts.length = rights.length) :
    precedes lefts rights = decide (value lefts.reverse < value rights.reverse) := by
  induction lefts generalizing rights with
  | nil =>
    cases rights with
    | nil => simp [precedes]
    | cons right rights => simp at same
  | cons left lefts ih =>
    cases rights with
    | nil => simp at same
    | cons right rights =>
      have counted : lefts.length = rights.length := by simpa using same
      have leftLow := value_lt lefts.reverse
      have rightLow := value_lt rights.reverse
      rw [length_reverse] at leftLow rightLow
      rw [counted] at leftLow
      simp only [precedes, reverse_cons, value_concat, length_reverse, counted]
      generalize 2 ^ (32 * rights.length) = power at *
      by_cases below : left < right
      · have gap : left.toNat + 1 ≤ right.toNat := UInt32.lt_iff_toNat_lt.mp below
        have scaled := mul_le_mul_left power gap
        rw [if_pos below, eq_comm, decide_eq_true_iff]
        rw [mul_add] at scaled
        omega
      rw [if_neg below]
      by_cases above : right < left
      · have gap : right.toNat + 1 ≤ left.toNat := UInt32.lt_iff_toNat_lt.mp above
        have scaled := mul_le_mul_left power gap
        rw [if_pos above, eq_comm, decide_eq_false_iff_not]
        rw [mul_add] at scaled
        omega
      · have equal : left.toNat = right.toNat := by
          rw [UInt32.lt_iff_toNat_lt] at below above
          omega
        rw [if_neg above, ih rights counted, equal]
        congr 1
        rw [add_lt_add_iff_right]

/-! Lists without leading zeros. -/

structure Normal (limbs : List UInt32) : Prop where
  present : limbs ≠ []
  top : 1 < limbs.length → limbs.getLast? ≠ some 0

theorem normal_single : Normal [limb] := ⟨by simp, by simp⟩

theorem top_value (present : limbs ≠ []) (top : limbs.getLast? ≠ some 0) :
    2 ^ (32 * (limbs.length - 1)) ≤ value limbs := by
  obtain ⟨low, last, rfl⟩ := eq_nil_or_concat limbs |>.resolve_left present
  rw [concat_eq_append] at top ⊢
  have nonzero : 0 < last.toNat := by
    apply pos_of_ne_zero
    intro zero
    exact top (by simpa using UInt32.toNat_inj.mp zero)
  rw [value_concat, length_append, length_singleton, Nat.add_sub_cancel]
  have scaled := mul_le_mul_left (2 ^ (32 * low.length)) nonzero
  omega

theorem normal_value (normal : Normal limbs) (long : 1 < limbs.length) :
    2 ^ (32 * (limbs.length - 1)) ≤ value limbs :=
  top_value limbs normal.present (normal.top long)

theorem normal_length_le (normal : Normal limbs) (count : Nat) (positive : 0 < count)
    (bound : value limbs < 2 ^ (32 * count)) : limbs.length ≤ count := by
  by_contra longer
  have floor := normal_value limbs normal (by omega)
  have grown : 2 ^ (32 * count) ≤ 2 ^ (32 * (limbs.length - 1)) :=
    Nat.pow_le_pow_right (by omega) (by omega)
  omega

theorem length_gt_of_value (floor : 2 ^ (32 * count) ≤ value limbs) : count < limbs.length := by
  by_contra shorter
  have bound := value_lt limbs
  have grown : 2 ^ (32 * limbs.length) ≤ 2 ^ (32 * count) :=
    Nat.pow_le_pow_right (by omega) (by omega)
  omega

theorem value_injective (left right : List UInt32) (same : left.length = right.length)
    (equal : value left = value right) : left = right := by
  induction left generalizing right with
  | nil => exact (length_eq_zero_iff.mp same.symm).symm
  | cons limb rest ih =>
    cases right with
    | nil => simp at same
    | cons other others =>
      have small := limb_lt limb
      have otherSmall := limb_lt other
      rw [value_cons, value_cons] at equal
      have heads : limb = other := UInt32.toNat_inj.mp (by omega)
      have tails := ih others (by simpa using same) (by omega)
      rw [heads, tails]

theorem normal_unique (left right : List UInt32) (leftNormal : Normal left)
    (rightNormal : Normal right) (equal : value left = value right) : left = right := by
  apply value_injective left right _ equal
  have leftPresent := length_pos_of_ne_nil leftNormal.present
  have rightPresent := length_pos_of_ne_nil rightNormal.present
  apply le_antisymm
  · apply normal_length_le left leftNormal _ rightPresent
    rw [equal]
    exact value_lt right
  · apply normal_length_le right rightNormal _ leftPresent
    rw [← equal]
    exact value_lt left

theorem value_cut (zeros : ∀ index, count ≤ index → limbs.getD index 0 = 0) :
    value (limbs.take count) = value limbs := by
  have high : value (limbs.drop count) = 0 := by
    have blank : ∀ limb ∈ limbs.drop count, limb = 0 := by
      intro limb member
      obtain ⟨index, found⟩ := mem_iff_getElem?.mp member
      rw [getElem?_drop] at found
      have read := zeros (count + index) (by omega)
      rwa [getD_eq_getElem?_getD, found, Option.getD_some] at read
    rw [eq_replicate_of_mem blank, value_replicate]
  have split := value_append (limbs.take count) (limbs.drop count)
  rw [take_append_drop, high, mul_zero, add_zero] at split
  exact split.symm

def ofNat (number : Nat) : List UInt32 :=
  if number < 2 ^ 32 then [UInt32.ofNat number]
  else UInt32.ofNat number :: ofNat (number / 2 ^ 32)
termination_by number
decreasing_by omega

variable (number : Nat)

theorem value_of_nat : value (ofNat number) = number := by
  induction number using Nat.strong_induction_on with
  | _ number ih =>
    have low : (UInt32.ofNat number).toNat = number % 2 ^ 32 := UInt32.toNat_ofNat'
    rw [ofNat]
    split
    · next small => rw [value_cons, value_nil, low, mod_eq_of_lt small]; omega
    · next large =>
        rw [value_cons, ih _ (by omega), low]
        omega

theorem of_nat_present : ofNat number ≠ [] := by
  rw [ofNat]
  split <;> simp

theorem of_nat_normal : Normal (ofNat number) := by
  refine ⟨of_nat_present number, ?_⟩
  induction number using Nat.strong_induction_on with
  | _ number ih =>
    rw [ofNat]
    split
    · simp
    next large =>
      intro _
      rw [getLast?_cons_of_ne_nil (of_nat_present _)]
      by_cases more : 1 < (ofNat (number / 2 ^ 32)).length
      · exact ih _ (by omega) more
      obtain ⟨limb, only⟩ : ∃ limb, ofNat (number / 2 ^ 32) = [limb] := by
        apply length_eq_one_iff.mp
        have present := length_pos_of_ne_nil (of_nat_present (number / 2 ^ 32))
        omega
      have read := value_of_nat (number / 2 ^ 32)
      rw [only, value_cons, value_nil] at read
      rw [only]
      intro zero
      have limbZero : limb = 0 := by simpa using zero
      rw [limbZero] at read
      have nothing : (0 : UInt32).toNat = 0 := rfl
      omega

theorem normal_of_nat (normal : Normal limbs) : limbs = ofNat (value limbs) :=
  normal_unique _ _ normal (of_nat_normal _) (value_of_nat _).symm

end Pvpgn.Limbs
