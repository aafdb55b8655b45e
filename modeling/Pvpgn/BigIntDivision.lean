import Pvpgn.BigIntArithmetic

/-!
`operator/` and `operator%` of common/bigint.cpp: long division with an estimated
quotient digit that a loop without bound moves by one. A read outside an array, a
division by zero and a loop that does not end in the given rounds are `none`.
-/

namespace Pvpgn.BigIntDivision
open Limbs CheckedArray BigIntArithmetic List Option

-- `while (1)`: move `qest` and `p = qest * right` until `p` fits into the remainder.
def adjust (remainder right : BigInt) : Nat → UInt64 → BigInt → Option (UInt64 × BigInt)
  | 0, _, _ => none
  | rounds + 1, qest, p =>
    if p = remainder then some (qest, p)
    else if lt p remainder then
      if gt (sub remainder p) right then adjust remainder right rounds (qest + 1) (add p right)
      else some (qest, p)
    else adjust remainder right rounds (qest - 1) (sub p right)

-- `qest = n/d` from the two top segments of the remainder and the top one of `right`.
def estimate (remainder right : BigInt) : Option UInt64 := do
  let high ← readAt remainder.segment right.segment.length
  let low ← readAt remainder.segment (right.segment.length - 1)
  let d ← readAt right.segment (right.segment.length - 1)
  if d = 0 then none
  else some (((high.toUInt64 <<< 32) + low.toUInt64) / d.toUInt64)

/-- One quotient digit and the remainder after it. -/
def digitStep (rounds : Nat) (remainder right : BigInt) : Option (UInt64 × BigInt) := do
  let qest ← estimate remainder right
  let p ← mul (ofUInt64 qest) right
  let (qest, p) ← adjust remainder right rounds qest p
  some (qest, sub remainder p)

-- `remainder = remainder << sizeof(bigint_base);` and the next segment of the dividend.
def bringDown (left remainder : BigInt) (position : Nat) : Option BigInt := do
  let segment ← readAt left.segment position
  let shifted ← writeAt (shiftLeft remainder 1).segment 0 segment
  some ⟨shifted⟩

/-- The loop of operator/ with `position` for i - right.segment_count. -/
def divisionLoop (rounds : Nat) (left right : BigInt) :
    Nat → BigInt → List UInt32 → Option (List UInt32 × BigInt)
  | 0, remainder, quotient => do
    let (qest, remainder) ← digitStep rounds remainder right
    let quotient ← writeAt quotient 0 (qest &&& 0xffffffff).toUInt32
    some (quotient, remainder)
  | position + 1, remainder, quotient => do
    let (qest, remainder) ← digitStep rounds remainder right
    let quotient ← writeAt quotient (position + 1) (qest &&& 0xffffffff).toUInt32
    let remainder ← bringDown left remainder position
    divisionLoop rounds left right position remainder quotient

/-- The loop of operator%, the same without the quotient. -/
def moduloLoop (rounds : Nat) (left right : BigInt) : Nat → BigInt → Option BigInt
  | 0, remainder => do
    let (_, remainder) ← digitStep rounds remainder right
    some remainder
  | position + 1, remainder => do
    let (_, remainder) ← digitStep rounds remainder right
    let remainder ← bringDown left remainder position
    moduloLoop rounds left right position remainder

/-- The top segments of the dividend under one more segment, which stays zero. -/
def firstRemainder (left right : BigInt) : BigInt :=
  ⟨left.segment.drop (left.segment.length - right.segment.length) ++ [0]⟩

def div (rounds : Nat) (left right : BigInt) : Option BigInt :=
  if lt left right then some zero
  else do
    let count := left.segment.length - right.segment.length
    let (quotient, _) ← divisionLoop rounds left right count (firstRemainder left right)
      (replicate (count + 1) 0)
    some ⟨shrink quotient⟩

def mod (rounds : Nat) (left right : BigInt) : Option BigInt :=
  if lt left right then some left
  else moduloLoop rounds left right (left.segment.length - right.segment.length)
    (firstRemainder left right)

/-! One quotient digit. -/

/-- What the code needs of a divisor: its most significant segment is not zero. -/
structure Divisor (right : BigInt) : Prop where
  present : right.segment ≠ []
  top : right.segment.getLast? ≠ some 0

variable (left : BigInt) (dividend : Nat) (p remainder right : BigInt)

theorem divisor_normal (divisor : Divisor right) : Normal right.segment :=
  ⟨divisor.present, fun _ => divisor.top⟩

theorem divisor_floor (divisor : Divisor right) :
    2 ^ (32 * (right.segment.length - 1)) ≤ val right :=
  top_value right.segment divisor.present divisor.top

theorem divisor_positive (divisor : Divisor right) : 0 < val right :=
  Nat.lt_of_lt_of_le (Nat.two_pow_pos _) (divisor_floor right divisor)

def guess (width dividend divisor : Nat) : Nat :=
  dividend / 2 ^ (32 * (width - 1)) / (divisor / 2 ^ (32 * (width - 1)))

variable (width : Nat)

theorem guess_high (dividend divisor : Nat) (floor : 2 ^ (32 * (width - 1)) ≤ divisor) :
    dividend / divisor ≤ guess width dividend divisor := by
  have scaled : 2 ^ (32 * (width - 1)) * (divisor / 2 ^ (32 * (width - 1))) ≤ divisor :=
    Nat.mul_div_le _ _
  have positive : 0 < divisor / 2 ^ (32 * (width - 1)) := Nat.div_pos floor (Nat.two_pow_pos _)
  rw [guess, Nat.div_div_eq_div_mul]
  exact Nat.div_le_div_left scaled (Nat.mul_pos (Nat.two_pow_pos _) positive)

theorem estimate_exact (divisor : Divisor right)
    (size : remainder.segment.length = right.segment.length + 1) :
    ∃ qest, estimate remainder right = some qest ∧
      qest.toNat = guess right.segment.length (val remainder) (val right) := by
  have positive := length_pos_of_ne_nil divisor.present
  have highInside : right.segment.length < remainder.segment.length := by omega
  have lowInside : right.segment.length - 1 < remainder.segment.length := by omega
  have topInside : right.segment.length - 1 < right.segment.length := by omega
  have back : right.segment.length - 1 + 1 = right.segment.length := by omega
  have leading : val remainder / 2 ^ (32 * (right.segment.length - 1)) =
      remainder.segment[right.segment.length - 1].toNat +
        2 ^ 32 * remainder.segment[right.segment.length].toNat := by
    rw [val, ← value_drop, drop_eq_getElem_cons lowInside, back, drop_eq_getElem_cons highInside,
      drop_eq_nil_of_le (by omega), value_cons, value_cons, value_nil, Nat.mul_zero, Nat.add_zero]
  have top : val right / 2 ^ (32 * (right.segment.length - 1)) =
      right.segment[right.segment.length - 1].toNat := by
    rw [val, ← value_drop, drop_eq_getElem_cons topInside, drop_eq_nil_of_le (by omega),
      value_cons, value_nil, Nat.mul_zero, Nat.add_zero]
  have topNonzero : right.segment[right.segment.length - 1] ≠ 0 := by
    intro zero
    apply divisor.top
    rw [getLast?_eq_getElem?, getElem?_eq_getElem topInside, zero]
  have highLimb := limb_lt remainder.segment[right.segment.length]
  have lowLimb := limb_lt remainder.segment[right.segment.length - 1]
  have amount : (32 : UInt64).toNat % 64 = 32 := rfl
  refine ⟨_, by
    simp only [estimate, read_inside _ _ highInside, read_inside _ _ lowInside,
      read_inside _ _ topInside, bind_eq_bind, bind_some, if_neg topNonzero]
    rfl, ?_⟩
  rw [guess, leading, top, UInt64.toNat_div, UInt64.toNat_add,
    UInt64.toNat_shiftLeft, amount, Nat.shiftLeft_eq]
  simp only [UInt32.toNat_toUInt64]
  congr 1
  omega

/-- A product above the remainder is not taken for a smaller one, unless it has too few
segments for the comparison to see it. -/
theorem above_remainder (size : remainder.segment.length = width + 1)
    (above : val remainder < val p) (visible : 2 ^ (32 * width) ≤ val p) :
    p ≠ remainder ∧ lt p remainder = false := by
  have longer := length_gt_of_value p.segment width visible
  constructor
  · intro same
    rw [same] at above
    omega
  rw [lt, if_neg (by omega)]
  by_cases more : remainder.segment.length < p.segment.length
  · rw [if_pos more]
  rw [if_neg more]
  have same : p.segment.length = remainder.segment.length := by omega
  have compared := lt_same_count p remainder same
  rw [lt, if_neg (by omega), if_neg (by omega)] at compared
  rw [compared, decide_eq_false_iff_not]
  omega

theorem within_remainder (normal : Normal p.segment) (size : remainder.segment.length = width + 1)
    (within : val p ≤ val remainder) : p = remainder ∨ lt p remainder = true := by
  have room := value_lt remainder.segment
  rw [size] at room
  have short := normal_length_le p.segment normal (width + 1) (by omega)
    (Nat.lt_of_le_of_lt within room)
  by_cases less : p.segment.length < remainder.segment.length
  · exact Or.inr (by rw [lt, if_pos less])
  have same : p.segment.length = remainder.segment.length := by omega
  by_cases equal : val p = val remainder
  · left
    have segments := value_injective p.segment remainder.segment same equal
    cases p
    cases remainder
    exact congrArg BigInt.mk segments
  · right
    rw [lt_same_count p remainder same, decide_eq_true_iff]
    omega

theorem step_down (count : Nat) (divisor : Divisor right) (product : val p = count * val right)
    (positive : 0 < count) (noSlip : ¬Slips (count * val right) (val right)) :
    Normal (sub p right).segment ∧ val (sub p right) = (count - 1) * val right := by
  have floor := divisor_floor right divisor
  have above : val right ≤ val p := by
    rw [product]
    exact Nat.le_mul_of_pos_left _ positive
  have longer := length_gt_of_value p.segment _ (Nat.le_trans floor above)
  have present : p.segment ≠ [] := ne_nil_of_length_pos (by omega)
  obtain ⟨downNormal, downValue⟩ := sub_exact p right present (by omega) above (product ▸ noSlip)
  refine ⟨downNormal, ?_⟩
  rw [downValue, product, Nat.sub_one_mul]

-- Induction on how far the estimate is above the digit.
theorem adjust_finds (digit extra rounds : Nat) (remainder right p : BigInt) (qest : UInt64)
    (divisor : Divisor right) (size : remainder.segment.length = right.segment.length + 1)
    (fits : digit * val right ≤ val remainder) (next : val remainder < (digit + 1) * val right)
    (above : qest.toNat = digit + extra) (product : val p = qest.toNat * val right)
    (normal : Normal p.segment)
    (visible : 0 < extra → 2 ^ (32 * right.segment.length) ≤ (digit + 1) * val right)
    (noSlip : ∀ count, digit < count → count ≤ qest.toNat → ¬Slips (count * val right) (val right))
    (exactDifference : ¬Slips (val remainder) (digit * val right)) (enough : extra < rounds) :
    ∃ found fitted, adjust remainder right rounds qest p = some (found, fitted) ∧
      found.toNat = digit ∧ Normal fitted.segment ∧ val fitted = digit * val right := by
  have present : remainder.segment ≠ [] := ne_nil_of_length_pos (by omega)
  induction extra generalizing rounds p qest with
  | zero =>
    obtain ⟨rounds, rfl⟩ := Nat.exists_eq_succ_of_ne_zero (Nat.ne_of_gt enough)
    rw [Nat.add_zero] at above
    rw [above] at product
    have within : val p ≤ val remainder := product ▸ fits
    refine ⟨qest, p, ?_, above, normal, product⟩
    rw [adjust]
    by_cases same : p = remainder
    · rw [if_pos same]
    have below := (within_remainder p remainder _ normal size within).resolve_left same
    have short := normal_length_le p.segment normal remainder.segment.length (by omega)
      (Nat.lt_of_le_of_lt within (value_lt remainder.segment))
    obtain ⟨restNormal, restValue⟩ :=
      sub_exact remainder p present short within (product ▸ exactDifference)
    have small : gt (sub remainder p) right = false := by
      rw [gt_is_lt, lt_exact _ _ (divisor_normal right divisor) restNormal, restValue, product,
        decide_eq_false_iff_not]
      rw [Nat.add_mul] at next
      omega
    rw [if_neg same, if_pos below, small]
    rfl
  | succ extra ih =>
    obtain ⟨rounds, rfl⟩ := Nat.exists_eq_succ_of_ne_zero (Nat.ne_zero_of_lt enough)
    have reached : (digit + 1) * val right ≤ val p := by
      rw [product]
      exact Nat.mul_le_mul_right _ (by omega)
    obtain ⟨different, notBelow⟩ := above_remainder p remainder _ size (by omega)
      (Nat.le_trans (visible (by omega)) reached)
    obtain ⟨downNormal, downValue⟩ := step_down p right qest.toNat divisor product (by omega)
      (noSlip _ (by omega) (Nat.le_refl _))
    have bound := UInt64.toNat_lt qest
    have lowered : (qest - 1).toNat = qest.toNat - 1 := by
      have one : (1 : UInt64).toNat = 1 := rfl
      rw [UInt64.toNat_sub, one]
      omega
    rw [← lowered] at downValue
    obtain ⟨found, fitted, done, result⟩ := ih rounds (sub p right) (qest - 1) (by omega) downValue
      downNormal (fun _ => visible (by omega))
      (fun count more less => noSlip count more (by omega)) (by omega)
    refine ⟨found, fitted, ?_, result⟩
    rw [adjust, if_neg different, notBelow]
    exact done

/-- The borrows that one digit takes do not run into an all-ones segment. -/
structure Clean (width dividend divisor : Nat) : Prop where
  downward : ∀ count, dividend / divisor < count → count ≤ guess width dividend divisor →
    ¬Slips (count * divisor) divisor
  difference : ¬Slips dividend (dividend / divisor * divisor)

theorem digit_step_exact (divisor : Divisor right)
    (size : remainder.segment.length = right.segment.length + 1)
    (visible : guess right.segment.length (val remainder) (val right) = val remainder / val right ∨
      2 ^ (32 * right.segment.length) ≤ (val remainder / val right + 1) * val right)
    (clean : Clean right.segment.length (val remainder) (val right)) :
    ∃ enough digit rest, (∀ rounds, enough ≤ rounds →
        digitStep rounds remainder right = some (digit, rest)) ∧
      digit.toNat = val remainder / val right ∧ Normal rest.segment ∧
      val rest = val remainder % val right := by
  have left_over := Nat.mod_lt (val remainder) (divisor_positive right divisor)
  have split := Nat.div_add_mod' (val remainder) (val right)
  have high := guess_high right.segment.length (val remainder) (val right)
    (divisor_floor right divisor)
  obtain ⟨downward, difference⟩ := clean
  obtain ⟨qest, estimated, guessed⟩ := estimate_exact remainder right divisor size
  obtain ⟨p, multiplied, normal, product⟩ := mul_exact (ofUInt64 qest) right (by simp [ofUInt64])
  rw [of_uint64_value] at product
  rw [← guessed] at visible downward high
  generalize val remainder / val right = quotient at *
  obtain ⟨extra, above⟩ := Nat.exists_eq_add_of_le high
  have next : val remainder < (quotient + 1) * val right := by
    rw [Nat.add_mul]
    omega
  have run (rounds : Nat) (enough : extra < rounds) :=
    adjust_finds quotient extra rounds remainder right p qest divisor size (by omega) next above
      product normal (fun more => visible.resolve_left (by omega)) downward difference enough
  obtain ⟨digit, fitted, _, digitValue, fittedNormal, fittedValue⟩ := run _ (Nat.lt_succ_self _)
  have within : val fitted ≤ val remainder := by omega
  have present : remainder.segment ≠ [] := ne_nil_of_length_pos (by omega)
  have short := normal_length_le fitted.segment fittedNormal remainder.segment.length (by omega)
    (Nat.lt_of_le_of_lt within (value_lt remainder.segment))
  obtain ⟨restNormal, restValue⟩ :=
    sub_exact remainder fitted present short within (fittedValue ▸ difference)
  refine ⟨extra + 1, digit, sub remainder fitted, ?_, digitValue, restNormal, by omega⟩
  intro rounds enough
  obtain ⟨digit', fitted', done, digitValue', fittedNormal', fittedValue'⟩ := run rounds (by omega)
  have sameDigit : digit' = digit := UInt64.toNat_inj.mp (by omega)
  have sameProduct : fitted' = fitted := (eq_exact _ _ fittedNormal' fittedNormal).mpr (by omega)
  simp only [digitStep, estimated, multiplied, done, sameDigit, sameProduct, bind_eq_bind,
    bind_some]

variable (divisor position : Nat)

theorem single_divisor_exact : guess 1 dividend divisor = dividend / divisor := by
  simp [guess]

theorem single_divisor_clean (small : divisor < 2 ^ 32) (room : dividend < 2 ^ 32 * divisor) :
    Clean 1 dividend divisor := by
  have within := Nat.div_mul_le_self dividend divisor
  constructor
  · intro count above atMost
    rw [single_divisor_exact] at atMost
    omega
  rintro ⟨index, ones, borrow⟩
  generalize dividend / divisor * divisor = product at *
  rcases (by omega : index = 0 ∨ index = 1 ∨ 2 ≤ index) with first | second | high
  · rw [first, Nat.mul_zero, Nat.pow_zero, Nat.mod_one, Nat.mod_one] at borrow
    omega
  · rw [second, Nat.mul_one] at ones
    omega
  · have grown : 2 ^ (32 * 2) ≤ 2 ^ (32 * index) := Nat.pow_le_pow_right (by omega) (by omega)
    have vanished : product / 2 ^ (32 * index) = 0 := Nat.div_eq_of_lt (by omega)
    omega

/-! The loops. -/

theorem bring_down_exact (inside : position < left.segment.length) :
    ∃ next, bringDown left remainder position = some next ∧
      next.segment.length = remainder.segment.length + 1 ∧
      val next = val remainder * 2 ^ 32 + val left / 2 ^ (32 * position) % 2 ^ 32 := by
  refine ⟨⟨left.segment[position] :: remainder.segment⟩, ?_, by simp, ?_⟩
  · simp [bringDown, read_inside _ _ inside, shiftLeft, writeAt]
  have digit := value_get left.segment position
  rw [getD_eq_getElem _ _ inside] at digit
  rw [val, value_cons, digit, val, val]
  omega

/-- The dividend of the digit at `position`: the segments not brought down yet are cut
off, and all but the last one brought down are reduced already. -/
def partialDividend (dividend divisor last position : Nat) : Nat :=
  if position = last then dividend / 2 ^ (32 * position)
  else dividend / 2 ^ (32 * (position + 1)) % divisor * 2 ^ 32 + dividend / 2 ^ (32 * position) % 2 ^ 32

theorem segment_split : dividend / 2 ^ (32 * position) = dividend / 2 ^ (32 * (position + 1)) * 2 ^
    32 + dividend / 2 ^ (32 * position) % 2 ^ 32 := by
  rw [power_succ, Nat.mul_comm (2 ^ 32) (2 ^ (32 * position)), ← Nat.div_div_eq_div_mul]
  omega

theorem partial_dividend_mod (last position : Nat) :
    partialDividend dividend divisor last position % divisor =
      dividend / 2 ^ (32 * position) % divisor := by
  rw [partialDividend]
  split
  · rfl
  · conv_rhs => rw [segment_split dividend position]
    rw [Nat.add_mod, Nat.mul_mod, Nat.mod_mod, ← Nat.mul_mod, ← Nat.add_mod]

theorem partial_dividend_room (last position : Nat) (positive : 0 < divisor)
    (before : position ≠ last) :
    partialDividend dividend divisor last position < 2 ^ 32 * divisor := by
  have left_over := Nat.mod_lt (dividend / 2 ^ (32 * (position + 1))) positive
  rw [partialDividend, if_neg before]
  omega

def lastPosition (left right : BigInt) : Nat := left.segment.length - right.segment.length

def dividendAt (left right : BigInt) (position : Nat) : Nat :=
  partialDividend (val left) (val right) (lastPosition left right) position

/-- The remainder after the digit at `position` has as many segments as the divisor, so
that the next estimate reads inside it. -/
def Long (left right : BigInt) (position : Nat) : Prop :=
  right.segment.length = 1 ∨
    2 ^ (32 * (right.segment.length - 1)) ≤ val left / 2 ^ (32 * position) % val right

/-- The estimate is the digit, or else the products above the remainder have more
segments than the divisor and the comparison sees them. -/
def Visible (left right : BigInt) (position : Nat) : Prop :=
  guess right.segment.length (dividendAt left right position) (val right) =
      dividendAt left right position / val right ∨
    2 ^ (32 * right.segment.length) ≤ (dividendAt left right position / val right + 1) * val right

def CleanAt (left right : BigInt) (position : Nat) : Prop :=
  Clean right.segment.length (dividendAt left right position) (val right)

theorem first_room (longer : right.segment.length ≤ left.segment.length) :
    dividendAt left right (lastPosition left right) < 2 ^ (32 * right.segment.length) := by
  have bound := value_lt left.segment
  have size : left.segment.length = lastPosition left right + right.segment.length := by
    rw [lastPosition]
    omega
  rw [size, Nat.mul_add, Nat.pow_add] at bound
  rw [dividendAt, partialDividend, if_pos rfl]
  exact Nat.div_lt_of_lt_mul bound

theorem dividend_room (divisor : Divisor right)
    (longer : right.segment.length ≤ left.segment.length) (position : Nat) :
    dividendAt left right position < 2 ^ 32 * val right := by
  by_cases last : position = lastPosition left right
  · have first := first_room left right longer
    have floor := divisor_floor right divisor
    have positive := length_pos_of_ne_nil divisor.present
    have split : 2 ^ (32 * right.segment.length) = 2 ^ 32 * 2 ^ (32 * (right.segment.length - 1)) := by
      rw [← power_succ, Nat.sub_add_cancel positive]
    rw [last]
    omega
  · exact partial_dividend_room _ _ _ _ (divisor_positive right divisor) last

theorem next_dividend (inside : position + 1 ≤ lastPosition left right) :
    dividendAt left right position = dividendAt left right (position + 1) % val right * 2 ^ 32 +
      val left / 2 ^ (32 * position) % 2 ^ 32 := by
  rw [dividendAt, dividendAt, partial_dividend_mod, partialDividend, if_neg (by omega)]

theorem bring_down_dividend (inside : position + 1 ≤ lastPosition left right) (rest : BigInt)
    (reduced : val rest = dividendAt left right (position + 1) % val right) :
    ∃ next, bringDown left rest position = some next ∧
      next.segment.length = rest.segment.length + 1 ∧
      val next = dividendAt left right position := by
  have readable : position < left.segment.length := by
    rw [lastPosition] at inside
    omega
  obtain ⟨next, brought, size, sum⟩ := bring_down_exact left rest position readable
  exact ⟨next, brought, size, by rw [sum, reduced, next_dividend left right position inside]⟩

theorem long_visible (divisor : Divisor right) (position : Nat)
    (inside : position + 1 ≤ lastPosition left right) (long : Long left right (position + 1)) :
    Visible left right position := by
  rcases long with single | high
  · left
    rw [single, single_divisor_exact]
  right
  have positive := length_pos_of_ne_nil divisor.present
  have split : 2 ^ (32 * right.segment.length) = 2 ^ 32 * 2 ^ (32 * (right.segment.length - 1)) := by
    rw [← power_succ, Nat.sub_add_cancel positive]
  have down := next_dividend left right position inside
  have floor := Nat.div_add_mod' (dividendAt left right position) (val right)
  have left_over := Nat.mod_lt (dividendAt left right position) (divisor_positive right divisor)
  rw [dividendAt, dividendAt, partial_dividend_mod] at down
  rw [← dividendAt] at down
  rw [Nat.add_mul]
  omega

theorem rest_length (rest : BigInt) (divisor : Divisor right) (position : Nat)
    (normal : Normal rest.segment) (reduced : val rest = dividendAt left right position % val right)
    (long : Long left right position) : rest.segment.length = right.segment.length := by
  have positive := length_pos_of_ne_nil divisor.present
  have restPositive := length_pos_of_ne_nil normal.present
  have small : val rest < 2 ^ (32 * right.segment.length) := by
    have left_over := Nat.mod_lt (dividendAt left right position) (divisor_positive right divisor)
    have bound := value_lt right.segment
    rw [← val] at bound
    omega
  have atMost := normal_length_le rest.segment normal _ positive small
  rcases long with single | high
  · omega
  rw [dividendAt, partial_dividend_mod] at reduced
  rw [← reduced] at high
  have atLeast := length_gt_of_value rest.segment _ high
  omega

theorem write_drop (quotient : List UInt32) (position : Nat) (digit : UInt32)
    (inside : position < quotient.length) :
    (quotient.set position digit).drop position = digit :: quotient.drop (position + 1) := by
  rw [drop_eq_getElem_cons (by simpa using inside), getElem_set_self, drop_set_of_lt (by omega)]

theorem position_step (divisor : Divisor right)
    (longer : right.segment.length ≤ left.segment.length) (position : Nat) (remainder : BigInt)
    (size : remainder.segment.length = right.segment.length + 1)
    (current : val remainder = dividendAt left right position)
    (visible : Visible left right position) (clean : CleanAt left right position) :
    ∃ enough digit rest, (∀ rounds, enough ≤ rounds →
        digitStep rounds remainder right = some (digit, rest)) ∧
      (digit &&& 0xffffffff).toUInt32.toNat = dividendAt left right position / val right ∧
      Normal rest.segment ∧ val rest = dividendAt left right position % val right := by
  have room := dividend_room left right divisor longer position
  have small : dividendAt left right position / val right < 2 ^ 32 :=
    Nat.div_lt_of_lt_mul (by rwa [Nat.mul_comm])
  obtain ⟨enough, digit, rest, step, digitValue, restNormal, restValue⟩ :=
    digit_step_exact remainder right divisor size (by rw [current]; exact visible)
      (by rw [current]; exact clean)
  rw [current] at digitValue restValue
  have mask : (0xffffffff : UInt64).toNat = 2 ^ 32 - 1 := rfl
  refine ⟨enough, digit, rest, step, ?_, restNormal, restValue⟩
  rw [UInt64.toNat_toUInt32, UInt64.toNat_and, mask, Nat.and_two_pow_sub_one_eq_mod, digitValue,
    Nat.mod_mod, Nat.mod_eq_of_lt small]

-- Induction on the position. Both loops run through the same remainders; what is left
-- of the dividend is split into digits and a remainder.
theorem loops_exact (divisor : Divisor right) (longer : right.segment.length ≤ left.segment.length)
    (position : Nat) (inside : position ≤ lastPosition left right) (remainder : BigInt)
    (size : remainder.segment.length = right.segment.length + 1)
    (current : val remainder = dividendAt left right position)
    (visible : Visible left right position) (clean : ∀ index ≤ position, CleanAt left right index)
    (long : ∀ index, 1 ≤ index → index ≤ position → Long left right index) :
    ∃ enough digits rest, digits.length = position + 1 ∧ val rest < val right ∧
      dividendAt left right position * 2 ^ (32 * position) + val left % 2 ^ (32 * position) =
        value digits * val right + val rest ∧
      ∀ rounds, enough ≤ rounds → moduloLoop rounds left right position remainder = some rest ∧
        ∀ quotient, position < quotient.length →
          divisionLoop rounds left right position remainder quotient =
            some (digits ++ quotient.drop (position + 1), rest) := by
  induction position generalizing remainder with
  | zero =>
    have split := Nat.div_add_mod' (dividendAt left right 0) (val right)
    obtain ⟨enough, digit, rest, step, kept, _, restValue⟩ :=
      position_step left right divisor longer 0 remainder size current visible
        (clean 0 (Nat.le_refl 0))
    refine ⟨enough, [(digit &&& 0xffffffff).toUInt32], rest, rfl, ?_, ?_, ?_⟩
    · rw [restValue]
      exact Nat.mod_lt _ (divisor_positive right divisor)
    · rw [value_cons, value_nil, kept, restValue, Nat.mul_zero, Nat.mul_zero, Nat.pow_zero,
        Nat.mod_one, Nat.mul_one, Nat.add_zero, Nat.add_zero]
      exact split.symm
    intro rounds many
    have here := step rounds many
    refine ⟨by simp only [moduloLoop, here, bind_eq_bind, bind_some], ?_⟩
    intro quotient quotientInside
    have written := write_drop quotient 0 (digit &&& 0xffffffff).toUInt32 quotientInside
    rw [drop_zero] at written
    simp only [divisionLoop, here, write_inside _ _ _ quotientInside, written,
      bind_eq_bind, bind_some, singleton_append]
  | succ position ih =>
    have split := Nat.div_add_mod' (dividendAt left right (position + 1)) (val right)
    obtain ⟨enough, digit, rest, step, kept, restNormal, restValue⟩ :=
      position_step left right divisor longer (position + 1) remainder size current visible
        (clean _ (Nat.le_refl _))
    obtain ⟨next, brought, nextSize, nextCurrent⟩ :=
      bring_down_dividend left right position inside rest restValue
    have here := long (position + 1) (by omega) (Nat.le_refl _)
    rw [rest_length left right rest divisor _ restNormal restValue here] at nextSize
    obtain ⟨later, digits, last, count, reduced, total, loops⟩ := ih (by omega) next nextSize
      nextCurrent (long_visible left right divisor position inside here)
      (fun index below => clean index (by omega)) (fun index low high => long index low (by omega))
    refine ⟨max enough later, digits ++ [(digit &&& 0xffffffff).toUInt32], last, by simp [count],
      reduced, ?_, ?_⟩
    · rw [value_concat, count, kept, mod_succ]
      rw [next_dividend left right position inside] at total
      rw [power_succ]
      generalize dividendAt left right (position + 1) / val right = quotient at *
      generalize dividendAt left right (position + 1) % val right = reduced at *
      generalize val left / 2 ^ (32 * position) % 2 ^ 32 = segment at *
      generalize 2 ^ (32 * position) = power at *
      calc dividendAt left right (position + 1) * (2 ^ 32 * power) +
            (val left % power + power * segment)
          = quotient * val right * (2 ^ 32 * power) +
            ((reduced * 2 ^ 32 + segment) * power + val left % power) := by rw [← split]; ring
        _ = (value digits + 2 ^ 32 * power * quotient) * val right + val last := by
            rw [total]
            ring
    · intro rounds many
      have run := step rounds (by omega)
      obtain ⟨modulo, division⟩ := loops rounds (by omega)
      refine ⟨by simp only [moduloLoop, run, brought, modulo, bind_eq_bind, bind_some], ?_⟩
      intro quotient quotientInside
      have written := write_drop quotient (position + 1) (digit &&& 0xffffffff).toUInt32 quotientInside
      have continued := division (quotient.set (position + 1) (digit &&& 0xffffffff).toUInt32)
        (by rw [length_set]; omega)
      rw [written] at continued
      simp only [divisionLoop, run, brought, write_inside _ _ _ quotientInside, continued,
        bind_eq_bind, bind_some, append_assoc, singleton_append]

/-! The two operators. -/

/-- Both operators end within the arrays, given enough rounds, with the quotient and the
remainder of the values. -/
def Divides (left right : BigInt) : Prop :=
  ∃ enough, ∀ rounds, enough ≤ rounds → ∃ quotient remainder,
    div rounds left right = some quotient ∧ mod rounds left right = some remainder ∧
      val left = val quotient * val right + val remainder ∧ val remainder < val right

structure Safe (left right : BigInt) : Prop where
  visible : Visible left right (lastPosition left right)
  clean : ∀ position ≤ lastPosition left right, CleanAt left right position
  long : ∀ position, 1 ≤ position → position ≤ lastPosition left right → Long left right position

theorem not_lt_longer (notLess : lt left right = false) :
    right.segment.length ≤ left.segment.length := by
  by_contra shorter
  rw [lt, if_pos (by omega)] at notLess
  cases notLess

theorem first_remainder_exact (longer : right.segment.length ≤ left.segment.length) :
    (firstRemainder left right).segment.length = right.segment.length + 1 ∧
      val (firstRemainder left right) = dividendAt left right (lastPosition left right) := by
  constructor
  · rw [firstRemainder, length_append, length_drop, length_singleton]
    omega
  · rw [val, firstRemainder, value_append, value_drop, dividendAt, partialDividend, if_pos rfl,
      lastPosition, val]
    simp [value_cons]

theorem lt_divides (divisor : Divisor right) (less : lt left right = true) :
    Divides left right := by
  have below : val left < val right := by
    by_cases shorter : left.segment.length < right.segment.length
    · have floor := divisor_floor right divisor
      have bound := value_lt left.segment
      have grown : 2 ^ (32 * left.segment.length) ≤ 2 ^ (32 * (right.segment.length - 1)) :=
        Nat.pow_le_pow_right (by omega) (by omega)
      rw [val]
      omega
    · by_cases longer : right.segment.length < left.segment.length
      · rw [lt, if_neg shorter, if_pos longer] at less
        cases less
      · rw [lt_same_count left right (by omega), decide_eq_true_iff] at less
        exact less
  refine ⟨0, fun rounds _ => ⟨zero, left, by rw [div, if_pos less], by rw [mod, if_pos less], ?_,
    below⟩⟩
  have nothing : val zero = 0 := rfl
  rw [nothing, Nat.zero_mul, Nat.zero_add]

theorem safe_divides (divisor : Divisor right) (notLess : lt left right = false)
    (safe : Safe left right) : Divides left right := by
  have longer := not_lt_longer left right notLess
  obtain ⟨size, current⟩ := first_remainder_exact left right longer
  obtain ⟨enough, digits, rest, count, reduced, total, loops⟩ :=
    loops_exact left right divisor longer (lastPosition left right) (Nat.le_refl _)
      (firstRemainder left right) size current safe.visible safe.clean safe.long
  have split : val left = value digits * val right + val rest := by
    rw [← total, dividendAt, partialDividend, if_pos rfl, Nat.mul_comm]
    exact (Nat.div_add_mod _ _).symm
  refine ⟨enough, fun rounds many => ?_⟩
  obtain ⟨modulo, division⟩ := loops rounds many
  have filled := division (replicate (lastPosition left right + 1) 0) (by simp)
  rw [drop_eq_nil_of_le (by simp), append_nil] at filled
  refine ⟨⟨shrink digits⟩, rest, ?_, ?_, ?_, reduced⟩
  · rw [div, notLess]
    rw [lastPosition] at filled
    simp only [Bool.false_eq_true, if_false, filled, bind_eq_bind, bind_some]
  · rw [mod, notLess]
    exact modulo
  · rw [split]
    congr 2
    rw [val, shrink_value]

theorem single_divisor_safe (divisor : Divisor right) (notLess : lt left right = false)
    (single : right.segment.length = 1) : Safe left right := by
  have longer := not_lt_longer left right notLess
  have small := value_lt right.segment
  rw [single] at small
  refine ⟨Or.inl ?_, ?_, fun _ _ _ => Or.inl single⟩
  · rw [single, single_divisor_exact]
  · intro position _
    rw [CleanAt, single]
    exact single_divisor_clean _ _ small (dividend_room left right divisor longer position)

-- A dividend of two segments: 2 ^ 32 + 7 by 2.
example : (div 5 ⟨[7, 1]⟩ ⟨[2]⟩).map BigInt.segment = some [2147483651] := by decide +kernel

/-! Where the operators fail although no borrow is lost. -/

/-- Every product the loop may pass keeps its borrows, both when the divisor is taken
from it and when it is taken from the remainder. -/
def KeepsBorrows (left right : BigInt) : Prop :=
  ∀ position ≤ lastPosition left right, ∀ count,
    dividendAt left right position / val right ≤ count →
    (count ≤ guess right.segment.length (dividendAt left right position) (val right) ∨
      count * val right < 2 ^ (32 * right.segment.length) + val right) →
    ¬Slips (count * val right) (val right) ∧
      ¬Slips (dividendAt left right position) (count * val right)

theorem keeps_borrows_clean (divisor : Divisor right) (keeps : KeepsBorrows left right)
    (position : Nat) (inside : position ≤ lastPosition left right) :
    CleanAt left right position := by
  constructor
  · intro count above atMost
    exact (keeps position inside count (Nat.le_of_lt above) (Or.inl atMost)).1
  · exact (keeps position inside _ (Nat.le_refl _) (Or.inl (guess_high _ _ _ (divisor_floor right divisor)))).2

/-- A product over the remainder that has too few segments to be seen is raised, and one
that is seen is lowered; the loop goes back and forth between the two. -/
theorem adjust_hangs (rounds digit count : Nat) (remainder right p : BigInt) (qest : UInt64)
    (divisor : Divisor right) (size : remainder.segment.length = right.segment.length + 1)
    (next : val remainder < (digit + 1) * val right)
    (hidden : (digit + 1) * val right < 2 ^ (32 * right.segment.length)) (limit : Nat)
    (keeps : ∀ count, digit < count →
      (count ≤ limit ∨ count * val right < 2 ^ (32 * right.segment.length) + val right) →
      ¬Slips (count * val right) (val right) ∧ ¬Slips (val remainder) (count * val right))
    (above : digit < count)
    (reached : count ≤ limit ∨ count * val right < 2 ^ (32 * right.segment.length) + val right)
    (product : val p = count * val right) (normal : Normal p.segment) :
    adjust remainder right rounds qest p = none := by
  have positive := length_pos_of_ne_nil divisor.present
  have present : remainder.segment ≠ [] := ne_nil_of_length_pos (by omega)
  have multiple : (digit + 1) * val right ≤ count * val right := Nat.mul_le_mul_right _ above
  induction rounds generalizing count p qest with
  | zero => rfl
  | succ rounds ih =>
    obtain ⟨keepsDown, keepsDifference⟩ := keeps count above reached
    by_cases seen : 2 ^ (32 * right.segment.length) ≤ val p
    · obtain ⟨different, notBelow⟩ := above_remainder p remainder _ size (by omega) seen
      obtain ⟨downNormal, downValue⟩ := step_down p right count divisor product (by omega) keepsDown
      have further : digit + 1 < count :=
        Nat.lt_of_mul_lt_mul_right (Nat.lt_of_lt_of_le hidden (product ▸ seen))
      have lower : (count - 1) * val right ≤ count * val right := Nat.mul_le_mul_right _ (by omega)
      rw [adjust, if_neg different, notBelow]
      exact ih (count - 1) (sub p right) (qest - 1) (by omega)
        (reached.imp (fun _ => by omega) (fun _ => by omega)) downValue downNormal
        (Nat.mul_le_mul_right _ (by omega))
    have short := normal_length_le p.segment normal _ positive (Nat.lt_of_not_le seen)
    have different : p ≠ remainder := by
      intro same
      rw [same] at short
      omega
    have below : lt p remainder = true := by rw [lt, if_pos (by omega)]
    have greater : gt remainder p = true := by rw [gt_is_lt, below]
    obtain ⟨wrapNormal, wrapValue⟩ :=
      sub_value remainder p present (by omega) greater (product ▸ keepsDifference)
    have bound := value_lt right.segment
    rw [← val] at bound
    rw [if_pos (by omega), size, power_succ] at wrapValue
    have huge : gt (sub remainder p) right = true := by
      rw [gt_is_lt, lt_exact _ _ (divisor_normal right divisor) wrapNormal, decide_eq_true_iff]
      omega
    obtain ⟨upNormal, upValue⟩ := add_exact p right
    have raised : val (add p right) = (count + 1) * val right := by
      rw [upValue, product, Nat.add_mul, Nat.one_mul]
    rw [adjust, if_neg different, if_pos below, if_pos huge]
    refine ih (count + 1) (add p right) (qest + 1) (by omega) (Or.inr ?_) raised upNormal
      (Nat.mul_le_mul_right _ (by omega))
    omega

theorem hidden_hangs (divisor : Divisor right) (longer : right.segment.length ≤ left.segment.length)
    (keeps : KeepsBorrows left right) (hidden : ¬Visible left right (lastPosition left right))
    (rounds : Nat) : digitStep rounds (firstRemainder left right) right = none := by
  obtain ⟨size, current⟩ := first_remainder_exact left right longer
  obtain ⟨qest, estimated, guessed⟩ := estimate_exact (firstRemainder left right) right divisor size
  obtain ⟨p, multiplied, normal, product⟩ := mul_exact (ofUInt64 qest) right (by simp [ofUInt64])
  have high := guess_high right.segment.length (dividendAt left right (lastPosition left right))
    (val right) (divisor_floor right divisor)
  have split := Nat.div_add_mod' (dividendAt left right (lastPosition left right)) (val right)
  have left_over := Nat.mod_lt (dividendAt left right (lastPosition left right))
    (divisor_positive right divisor)
  have kept := keeps (lastPosition left right) (Nat.le_refl _)
  rw [of_uint64_value] at product
  rw [Visible, not_or] at hidden
  rw [← current] at hidden high split left_over kept
  rw [← guessed] at hidden high kept
  generalize val (firstRemainder left right) / val right = digit at *
  have hangs := adjust_hangs rounds digit qest.toNat (firstRemainder left right) right p qest divisor
    size (by rw [Nat.add_mul]; omega) (by omega) qest.toNat
    (fun count above reached => kept count (Nat.le_of_lt above) reached) (by omega)
    (Or.inl (Nat.le_refl _)) product normal
  simp only [digitStep, estimated, multiplied, hangs, bind_eq_bind, bind_some, bind_none]

theorem estimate_outside (short : remainder.segment.length ≤ right.segment.length) :
    estimate remainder right = none := by
  have outside : readAt remainder.segment right.segment.length = none := by
    rw [readAt, getElem?_eq_none short]
  simp only [estimate, outside, bind_eq_bind, bind_none]

-- Induction on the position, down to the first remainder that is too short.
theorem short_remainder_faults (divisor : Divisor right) (position : Nat)
    (longer : right.segment.length ≤ left.segment.length)
    (inside : position ≤ lastPosition left right) (remainder : BigInt)
    (size : remainder.segment.length = right.segment.length + 1)
    (current : val remainder = dividendAt left right position)
    (visible : Visible left right position) (clean : ∀ index ≤ position, CleanAt left right index)
    (short : ∃ index, 1 ≤ index ∧ index ≤ position ∧ ¬Long left right index) :
    ∃ enough, ∀ rounds, enough ≤ rounds → moduloLoop rounds left right position remainder = none := by
  induction position generalizing remainder with
  | zero =>
    omega
  | succ position ih =>
    obtain ⟨enough, digit, rest, step, _, restNormal, restValue⟩ :=
      position_step left right divisor longer (position + 1) remainder size current visible
        (clean _ (Nat.le_refl _))
    obtain ⟨next, brought, nextSize, nextCurrent⟩ :=
      bring_down_dividend left right position inside rest restValue
    by_cases long : Long left right (position + 1)
    · rw [rest_length left right rest divisor _ restNormal restValue long] at nextSize
      obtain ⟨later, fails⟩ := ih (by omega) next nextSize nextCurrent
        (long_visible left right divisor position inside long)
        (fun index below => clean index (by omega))
        (by
          obtain ⟨index, low, high, notLong⟩ := short
          have earlier : index ≠ position + 1 := fun same => notLong (same ▸ long)
          exact ⟨index, low, by omega, notLong⟩)
      refine ⟨max enough later, fun rounds many => ?_⟩
      have here := step rounds (by omega)
      have rest_fails := fails rounds (by omega)
      simp only [moduloLoop, here, brought, rest_fails, bind_eq_bind, bind_some]
    · rw [Long, not_or, ← partial_dividend_mod, ← dividendAt, ← restValue] at long
      have positive := length_pos_of_ne_nil divisor.present
      have atMost := normal_length_le rest.segment restNormal (right.segment.length - 1) (by omega)
        (Nat.lt_of_not_le long.2)
      have outside := estimate_outside next right (by omega)
      refine ⟨enough, fun rounds many => ?_⟩
      have here := step rounds many
      have fails : digitStep rounds next right = none := by
        simp only [digitStep, outside, bind_eq_bind, bind_none]
      cases position with
      | zero =>
        simp only [moduloLoop, here, brought, fails, bind_eq_bind, bind_some, bind_none]
      | succ position =>
        simp only [moduloLoop, here, brought, fails, bind_eq_bind, bind_some, bind_none]

theorem divides_safe (divisor : Divisor right) (notLess : lt left right = false)
    (keeps : KeepsBorrows left right) (divides : Divides left right) : Safe left right := by
  have longer := not_lt_longer left right notLess
  obtain ⟨size, current⟩ := first_remainder_exact left right longer
  have clean (index : Nat) (inside : index ≤ lastPosition left right) :=
    keeps_borrows_clean left right divisor keeps index inside
  obtain ⟨enough, ends⟩ := divides
  -- A run of operator% that is `none` for as many rounds as wanted contradicts `divides`.
  have contradiction (later : Nat) (fails : ∀ rounds, later ≤ rounds →
      moduloLoop rounds left right (lastPosition left right) (firstRemainder left right) = none) :
      False := by
    obtain ⟨_, remainder, _, done, _⟩ := ends (max enough later) (Nat.le_max_left _ _)
    rw [mod, notLess] at done
    rw [lastPosition] at fails
    have failed := fails (max enough later) (Nat.le_max_right _ _)
    simp only [Bool.false_eq_true, if_false, failed] at done
    cases done
  have visible : Visible left right (lastPosition left right) := by
    by_contra hidden
    apply contradiction 0
    intro rounds _
    have hangs := hidden_hangs left right divisor longer keeps hidden rounds
    cases lastPosition left right with
    | zero => simp only [moduloLoop, hangs, bind_eq_bind, bind_none]
    | succ position => simp only [moduloLoop, hangs, bind_eq_bind, bind_none]
  refine ⟨visible, clean, ?_⟩
  by_contra short
  obtain ⟨later, fails⟩ := short_remainder_faults left right divisor (lastPosition left right) longer
    (Nat.le_refl _) (firstRemainder left right) size current visible clean (by simpa using short)
  exact contradiction later fails

/-- Both operators are exact when the dividend compares below the divisor or when the
run is safe: the first estimate is right or visibly too high, every later remainder
has all segments of the divisor (a divisor of one segment always has), and no
subtraction loses a borrow. Where no borrow can be lost at all, they are exact only
then. -/
theorem division_exact_when (left right : BigInt) (divisor : Divisor right) :
    ((lt left right = true ∨ Safe left right) → Divides left right) ∧
      (right.segment.length = 1 → Divides left right) ∧
      (KeepsBorrows left right →
        (Divides left right ↔ (lt left right = true ∨ Safe left right))) := by
  have enough : (lt left right = true ∨ Safe left right) → Divides left right := by
    intro condition
    by_cases less : lt left right = true
    · exact lt_divides left right divisor less
    · exact safe_divides left right divisor (by simpa using less) (condition.resolve_left less)
  refine ⟨enough, ?_, ?_⟩
  · intro single
    by_cases less : lt left right = true
    · exact enough (Or.inl less)
    · exact enough (Or.inr (single_divisor_safe left right divisor (by simpa using less) single))
  · intro keeps
    refine ⟨fun divides => ?_, enough⟩
    by_cases less : lt left right = true
    · exact Or.inl less
    · exact Or.inr (divides_safe left right divisor (by simpa using less) keeps divides)

theorem no_slips (left right count : Nat) (small : right < 2 ^ (32 * count))
    (digits : ∀ index < count, right / 2 ^ (32 * index) % 2 ^ 32 ≠ 2 ^ 32 - 1) :
    ¬Slips left right := by
  rintro ⟨index, ones, _⟩
  by_cases inside : index < count
  · exact digits index inside ones
  · have grown : 2 ^ (32 * count) ≤ 2 ^ (32 * index) := Nat.pow_le_pow_right (by omega) (by omega)
    have vanished : right / 2 ^ (32 * index) = 0 := Nat.div_eq_of_lt (by omega)
    omega

theorem division_exact_when_sample : Divides ⟨[0, 9, 5]⟩ ⟨[1, 2]⟩ := by
  have divisor : Divisor ⟨[1, 2]⟩ := ⟨by decide, by decide⟩
  have safe : Safe ⟨[0, 9, 5]⟩ ⟨[1, 2]⟩ := by
    refine ⟨Or.inl (by decide), ?_, ?_⟩
    · intro position inside
      have last : lastPosition ⟨[0, 9, 5]⟩ ⟨[1, 2]⟩ = 1 := rfl
      rcases (by omega : position = 0 ∨ position = 1) with zero | one
      · subst zero
        have exact_guess : guess 2 (dividendAt ⟨[0, 9, 5]⟩ ⟨[1, 2]⟩ 0) (val ⟨[1, 2]⟩) =
            dividendAt ⟨[0, 9, 5]⟩ ⟨[1, 2]⟩ 0 / val ⟨[1, 2]⟩ := by decide
        exact ⟨fun count above atMost => absurd atMost (Nat.not_le_of_gt (exact_guess ▸ above)),
          no_slips _ _ 3 (by decide) (by decide)⟩
      · subst one
        have exact_guess : guess 2 (dividendAt ⟨[0, 9, 5]⟩ ⟨[1, 2]⟩ 1) (val ⟨[1, 2]⟩) =
            dividendAt ⟨[0, 9, 5]⟩ ⟨[1, 2]⟩ 1 / val ⟨[1, 2]⟩ := by decide
        exact ⟨fun count above atMost => absurd atMost (Nat.not_le_of_gt (exact_guess ▸ above)),
          no_slips _ _ 3 (by decide) (by decide)⟩
    · intro position low high
      have last : lastPosition ⟨[0, 9, 5]⟩ ⟨[1, 2]⟩ = 1 := rfl
      have here : position = 1 := by omega
      subst here
      exact Or.inr (by decide)
  exact (division_exact_when _ _ divisor).1 (Or.inr safe)

-- 2^64 by 2^32: after the first digit nothing is left, and the next estimate reads the
-- third segment of a remainder of two.
theorem division_reads_outside : Divisor ⟨[0, 1]⟩ ∧
    (∀ rounds, div rounds ⟨[0, 0, 1]⟩ ⟨[0, 1]⟩ = none) ∧ ¬Divides ⟨[0, 0, 1]⟩ ⟨[0, 1]⟩ := by
  have outside (rounds : Nat) : div rounds ⟨[0, 0, 1]⟩ ⟨[0, 1]⟩ = none := by
    cases rounds with
    | zero => decide
    | succ rounds => rfl
  refine ⟨⟨by decide, by decide⟩, outside, ?_⟩
  rintro ⟨enough, ends⟩
  obtain ⟨quotient, _, done, _⟩ := ends enough (Nat.le_refl _)
  rw [outside] at done
  cases done

end Pvpgn.BigIntDivision
