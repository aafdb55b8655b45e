import Pvpgn.BigIntDivision

/-!
`powm` of common/bigint.cpp, by squaring along the halves of the exponent. The halves come
from the code's own operator/; operator% is a parameter with what it is relied on for.
-/

namespace Pvpgn.BigIntPower
open Limbs CheckedArray BigIntArithmetic BigIntDivision List Option Nat

-- `BigInt((t_uint8)0x02)`
def two : BigInt := ofUInt32 2

section Power

-- operator% of the code: the number first, then the modulus
variable (modulo : BigInt → BigInt → Option BigInt)

/-- `(left * right) % modulus` -/
def productMod (left right modulus : BigInt) : Option BigInt := do
  let product ← mul left right
  modulo product modulus

/-- `none` is a fault of an operator or a recursion that is deeper than `depth`; `rounds`
is what the loop inside operator/ may take. -/
def powm (rounds : Nat) (base modulus : BigInt) : Nat → BigInt → Option BigInt
  | 0, _ => none
  | depth + 1, exp =>
    if exp.segment = [2] then productMod modulo base base modulus
    else if exp.segment = [1] then some base
    else if exp.segment = [0] then some (ofUInt32 1)
    else do
      let low ← readAt exp.segment 0
      let half ← div rounds exp two
      let halfpow ← powm rounds base modulus depth half
      if low % 2 = 0 then productMod modulo halfpow halfpow modulus
      else do
        let square ← productMod modulo halfpow halfpow modulus
        productMod modulo square base modulus

/-- The least residue of every number, as a number with segments. -/
def Residues (modulus : BigInt) : Prop :=
  ∀ number : BigInt, number.segment ≠ [] → ∃ rest, modulo number modulus = some rest ∧
    rest.segment ≠ [] ∧ val rest = val number % val modulus

/-- Given enough rounds and depth the call returns, with the power reduced by the modulus. -/
def PowersExactly (base exp modulus : BigInt) : Prop :=
  ∃ enough, ∀ rounds depth, enough ≤ rounds → enough ≤ depth → ∃ power,
    powm modulo rounds base modulus depth exp = some power ∧
      val power = val base ^ val exp % val modulus ∧ val power < val modulus

end Power

/-! The halves of the exponent. -/

theorem division_loop_length (rounds : Nat) (left right : BigInt) (position : Nat)
    (remainder rest : BigInt) (quotient digits : List UInt32)
    (done : divisionLoop rounds left right position remainder quotient = some (digits, rest)) :
    digits.length = quotient.length := by
  have kept : ∀ (cells stored : List UInt32) (index : Nat) (cell : UInt32),
      writeAt cells index cell = some stored → stored.length = cells.length := by
    intro cells stored index cell written
    rw [writeAt] at written
    split at written
    · simp only [some.injEq] at written
      rw [← written, length_set]
    · cases written
  induction position generalizing remainder quotient with
  | zero =>
    obtain ⟨⟨qest, after⟩, _, done⟩ := bind_eq_some_iff.mp done
    obtain ⟨stored, written, done⟩ := bind_eq_some_iff.mp done
    simp only [some.injEq, Prod.mk.injEq] at done
    rw [← done.1]
    exact kept _ _ _ _ written
  | succ position ih =>
    obtain ⟨⟨qest, after⟩, _, done⟩ := bind_eq_some_iff.mp done
    obtain ⟨stored, written, done⟩ := bind_eq_some_iff.mp done
    obtain ⟨brought, _, done⟩ := bind_eq_some_iff.mp done
    rw [ih brought stored done]
    exact kept _ _ _ _ written

theorem quotient_normal (rounds : Nat) (left right quotient : BigInt)
    (done : div rounds left right = some quotient) : Normal quotient.segment := by
  rw [div] at done
  split at done
  · simp only [some.injEq] at done
    rw [← done]
    exact normal_single 0
  obtain ⟨⟨digits, rest⟩, loop, done⟩ := bind_eq_some_iff.mp done
  simp only [some.injEq] at done
  have length := division_loop_length _ _ _ _ _ _ _ _ loop
  rw [length_replicate] at length
  rw [← done]
  exact shrink_normal digits (ne_nil_of_length_pos (by omega))

theorem half_exact (exp : BigInt) :
    ∃ enough, ∀ rounds, enough ≤ rounds → div rounds exp two = some (canonical (val exp / 2)) := by
  have divisor : Divisor two := ⟨by decide, by decide⟩
  have divides : Divides exp two := by
    by_cases less : lt exp two = true
    · exact lt_divides exp two divisor less
    · rw [Bool.not_eq_true] at less
      exact safe_divides exp two divisor less (single_divisor_safe exp two divisor less rfl)
  obtain ⟨enough, ends⟩ := divides
  refine ⟨enough, fun rounds many => ?_⟩
  obtain ⟨half, rest, done, _, total, small⟩ := ends rounds many
  have value_two : val two = 2 := rfl
  have half_value : val half = val exp / 2 := by
    rw [value_two] at total small
    omega
  have same := normal_of_nat half.segment (quotient_normal _ _ _ _ done)
  rw [done, canonical, ← half_value, val, ← same]

theorem low_parity (low : UInt32) (rest : List UInt32) :
    low % 2 = 0 ↔ value (low :: rest) % 2 = 0 := by
  have remainder : (low % 2).toNat = low.toNat % 2 := UInt32.toNat_mod low 2
  have nothing : (0 : UInt32).toNat = 0 := rfl
  rw [value_cons, ← UInt32.toNat_inj, remainder, nothing]
  omega

/-! The recursion, by the value of the exponent. -/

section Exact

variable (modulo : BigInt → BigInt → Option BigInt)

theorem product_mod_exact (left right modulus : BigInt) (residues : Residues modulo modulus)
    (present : left.segment ≠ []) : ∃ rest, productMod modulo left right modulus = some rest ∧
      rest.segment ≠ [] ∧ val rest = val left * val right % val modulus := by
  obtain ⟨product, done, normal, total⟩ := mul_exact left right present
  obtain ⟨rest, reduced, nonempty, residue⟩ := residues product normal.present
  refine ⟨rest, ?_, nonempty, by rw [residue, total]⟩
  rw [productMod, done]
  exact reduced

/-- What comes back: the exponents zero and one return before any reduction. -/
def outcome (base exp modulus : BigInt) : Nat :=
  if exp.segment = [0] then 1
  else if exp.segment = [1] then val base
  else val base ^ val exp % val modulus

variable (base exp modulus : BigInt)

theorem outcome_mod :
    outcome base exp modulus % val modulus = val base ^ val exp % val modulus := by
  rw [outcome]
  by_cases null : exp.segment = [0]
  · have nothing : val exp = 0 := by
      rw [val, null]
      rfl
    rw [if_pos null, nothing, pow_zero]
  rw [if_neg null]
  by_cases single : exp.segment = [1]
  · have one : val exp = 1 := by
      rw [val, single]
      rfl
    rw [if_pos single, one, pow_one]
  · rw [if_neg single, mod_mod]

def Returns (base exp modulus : BigInt) : Prop :=
  ∃ enough, ∀ rounds depth, enough ≤ rounds → enough ≤ depth → ∃ power,
    powm modulo rounds base modulus depth exp = some power ∧ power.segment ≠ [] ∧
      val power = outcome base exp modulus

theorem square_mod (base half modulus power : Nat)
    (same : power % modulus = base ^ half % modulus) :
    power * power % modulus = base ^ (2 * half) % modulus := by
  rw [mul_mod, same, ← mul_mod, ← pow_add, two_mul]

section
variable (basePresent : base.segment ≠ []) (present : exp.segment ≠ [])
  (residues : Residues modulo modulus)
include basePresent present residues

-- One call, from the call on the half.
theorem returns_step
    (later : exp.segment ≠ [0] → Returns modulo base (canonical (val exp / 2)) modulus) :
    Returns modulo base exp modulus := by
  by_cases double : exp.segment = [2]
  · obtain ⟨rest, done, nonempty, residue⟩ :=
      product_mod_exact modulo base base modulus residues basePresent
    have value_two : val exp = 2 := by
      rw [val, double]
      rfl
    refine ⟨1, fun rounds depth _ deep => ⟨rest, ?_, nonempty, ?_⟩⟩
    · obtain ⟨depth, rfl⟩ := Nat.exists_eq_add_of_le' deep
      rw [powm, if_pos double, done]
    · rw [residue, outcome, if_neg (by rw [double]; decide), if_neg (by rw [double]; decide),
        value_two, pow_two]
  by_cases single : exp.segment = [1]
  · refine ⟨1, fun rounds depth _ deep => ⟨base, ?_, basePresent, ?_⟩⟩
    · obtain ⟨depth, rfl⟩ := Nat.exists_eq_add_of_le' deep
      rw [powm, if_neg double, if_pos single]
    · rw [outcome, if_neg (by rw [single]; decide), if_pos single]
  by_cases null : exp.segment = [0]
  · refine ⟨1, fun rounds depth _ deep => ⟨ofUInt32 1, ?_, cons_ne_nil _ _, ?_⟩⟩
    · obtain ⟨depth, rfl⟩ := Nat.exists_eq_add_of_le' deep
      rw [powm, if_neg double, if_neg single, if_pos null]
    · rw [outcome, if_pos null]
      rfl
  obtain ⟨low, high, shape⟩ := exists_cons_of_ne_nil present
  obtain ⟨enough, recursion⟩ := later null
  obtain ⟨halvings, halved⟩ := half_exact exp
  refine ⟨max (enough + 1) halvings, fun rounds depth many deep => ?_⟩
  obtain ⟨depth, rfl⟩ := Nat.exists_eq_add_of_le' (by omega : 1 ≤ depth)
  obtain ⟨halfpow, returned, halfPresent, halfValue⟩ := recursion rounds depth (by omega) (by omega)
  obtain ⟨square, squared, squarePresent, squareValue⟩ :=
    product_mod_exact modulo halfpow halfpow modulus residues halfPresent
  have congruent : val square = val base ^ (2 * (val exp / 2)) % val modulus := by
    rw [squareValue]
    apply square_mod
    rw [halfValue, outcome_mod, val_canonical]
  have parity := low_parity low high
  rw [← shape] at parity
  have first : readAt exp.segment 0 = some low := by
    rw [shape]
    rfl
  have target : outcome base exp modulus = val base ^ val exp % val modulus := by
    rw [outcome, if_neg null, if_neg single]
  rw [powm, if_neg double, if_neg single, if_neg null, target]
  simp only [first, halved rounds (by omega), returned, bind_eq_bind, bind_some]
  by_cases even : low % 2 = 0
  · have doubled : 2 * (val exp / 2) = val exp := by
      have remainder : value exp.segment % 2 = 0 := parity.mp even
      rw [val]
      omega
    rw [if_pos even]
    exact ⟨square, squared, squarePresent, by rw [congruent, doubled]⟩
  obtain ⟨rest, done, restPresent, restValue⟩ :=
    product_mod_exact modulo square base modulus residues squarePresent
  have doubled : 2 * (val exp / 2) + 1 = val exp := by
    have remainder : ¬ value exp.segment % 2 = 0 := fun zero => even (parity.mpr zero)
    rw [val]
    omega
  rw [if_neg even]
  refine ⟨rest, ?_, restPresent, ?_⟩
  · simp only [squared, bind_some, done]
  · rw [restValue, congruent, mod_mul_mod, ← Nat.pow_succ, succ_eq_add_one, doubled]

theorem returns_always : Returns modulo base exp modulus := by
  induction number : val exp using Nat.strong_induction_on generalizing exp with
  | _ number ih =>
    apply returns_step modulo base exp modulus basePresent present residues
    intro _
    by_cases positive : 0 < val exp
    · apply ih (val exp / 2) (by omega) (canonical (val exp / 2)) (of_nat_present _)
      exact val_canonical _
    -- leading zeros over nothing: the half is the single segment zero
    have nothing : val exp / 2 = 0 := by omega
    rw [nothing]
    apply returns_step modulo base (canonical 0) modulus basePresent (of_nat_present 0) residues
    intro nonzero
    exact absurd (by rw [canonical, ofNat, if_pos (by omega)]; rfl) nonzero

end

theorem outcome_reduced_iff (positive : 0 < val modulus) :
    outcome base exp modulus = val base ^ val exp % val modulus ↔
      ¬(exp.segment = [0] ∧ val modulus = 1) ∧ ¬(exp.segment = [1] ∧ val modulus ≤ val base) := by
  rw [outcome]
  by_cases null : exp.segment = [0]
  · have nothing : val exp = 0 := by
      rw [val, null]
      rfl
    have other : exp.segment ≠ [1] := by
      rw [null]
      decide
    rw [if_pos null, nothing, pow_zero]
    constructor
    · intro reduced
      refine ⟨?_, fun one => other one.1⟩
      rintro ⟨_, unit⟩
      rw [unit, mod_one] at reduced
      exact absurd reduced (by decide)
    · rintro ⟨large, _⟩
      have unit : val modulus ≠ 1 := fun one => large ⟨null, one⟩
      exact (mod_eq_of_lt (by omega)).symm
  · rw [if_neg null]
    by_cases single : exp.segment = [1]
    · have one : val exp = 1 := by
        rw [val, single]
        rfl
      rw [if_pos single, one, pow_one]
      constructor
      · intro reduced
        refine ⟨fun zero => null zero.1, ?_⟩
        rintro ⟨_, below⟩
        have := mod_lt (val base) positive
        omega
      · rintro ⟨_, small⟩
        exact (mod_eq_of_lt (by
          by_contra large
          exact small ⟨single, by omega⟩)).symm
    · rw [if_neg single]
      exact ⟨fun _ => ⟨fun zero => null zero.1, fun one => single one.1⟩, fun _ => rfl⟩

/-- The call returns the reduced power exactly when it does not stop at the exponent zero
with modulus one, or at the exponent one with a base that is not reduced. -/
theorem powm_exact_iff (base exp modulus : BigInt) (basePresent : base.segment ≠ [])
    (present : exp.segment ≠ []) (positive : 0 < val modulus)
    (residues : Residues modulo modulus) :
    PowersExactly modulo base exp modulus ↔
      ¬(exp.segment = [0] ∧ val modulus = 1) ∧ ¬(exp.segment = [1] ∧ val modulus ≤ val base) := by
  obtain ⟨enough, ends⟩ := returns_always modulo base exp modulus basePresent present residues
  rw [← outcome_reduced_iff base exp modulus positive]
  constructor
  · rintro ⟨least, exactly⟩
    obtain ⟨power, done, _, total⟩ :=
      ends (max enough least) (max enough least) (by omega) (by omega)
    obtain ⟨other, again, reduced, _⟩ :=
      exactly (max enough least) (max enough least) (by omega) (by omega)
    rw [done, Option.some.injEq] at again
    rw [← total, again, reduced]
  · intro reduced
    refine ⟨enough, fun rounds depth many deep => ?_⟩
    obtain ⟨power, done, _, total⟩ := ends rounds depth many deep
    refine ⟨power, done, by rw [total, reduced], ?_⟩
    rw [total, reduced]
    exact mod_lt _ positive

end Exact

/-- operator% as it is relied on. -/
def leastResidue (number modulus : BigInt) : Option BigInt :=
  some (canonical (val number % val modulus))

theorem least_residue_residues (modulus : BigInt) : Residues leastResidue modulus :=
  fun _ _ => ⟨_, rfl, of_nat_present _, val_canonical _⟩

theorem cube_powers_exactly : PowersExactly leastResidue ⟨[7]⟩ ⟨[3, 0]⟩ ⟨[5]⟩ :=
  (powm_exact_iff leastResidue ⟨[7]⟩ ⟨[3, 0]⟩ ⟨[5]⟩ (by decide) (by decide) (by decide)
    (least_residue_residues _)).mpr ⟨by decide, by decide⟩

/-- Seven to the power one, modulo five, is returned as seven. -/
theorem power_one_not_reduced : Residues leastResidue ⟨[5]⟩ ∧
    powm leastResidue 1 ⟨[7]⟩ ⟨[5]⟩ 1 ⟨[1]⟩ = some ⟨[7]⟩ ∧
    ¬PowersExactly leastResidue ⟨[7]⟩ ⟨[1]⟩ ⟨[5]⟩ := by
  refine ⟨least_residue_residues _, rfl, ?_⟩
  rintro ⟨enough, ends⟩
  obtain ⟨power, done, _, small⟩ := ends enough (enough + 1) (le_refl _) (le_succ _)
  have returned : powm leastResidue enough ⟨[7]⟩ ⟨[5]⟩ (enough + 1) ⟨[1]⟩ = some ⟨[7]⟩ := rfl
  rw [returned, Option.some.injEq] at done
  rw [← done] at small
  exact absurd small (by decide)

end Pvpgn.BigIntPower
