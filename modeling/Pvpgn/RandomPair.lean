import Mathlib.Tactic.Linarith
import Mathlib.Tactic.Ring

/-!
`_get_pair` of the matches draws settings with `rand`. An `int` expression that overflows is `none`.
-/

namespace Pvpgn.RandomPair
open Option Int

def toInt (value : Int) : Option Int :=
  if -2 ^ 31 ≤ value ∧ value < 2 ^ 31 then some value else none

section Draws
variable (randMax : Int)

/-- `max * rand() / (RAND_MAX + 1)` -/
def draw (max rand : Int) : Option Int := do
  let product ← toInt (max * rand)
  let divisor ← toInt (randMax + 1)
  some (product.tdiv divisor)

/-- The `do` loop with fuel; `rands` are the results of `rand` from now on. -/
def redraw (max i : Int) : Nat → (Nat → Int) → Option Int
  | 0, _ => none
  | fuel + 1, rands => do
    let j ← draw randMax max (rands 0)
    if i = j then redraw max i fuel fun turn => rands (turn + 1) else some j

/-- A setting that is `-2` is drawn. -/
def choose (max setting : Int) (rands : Nat → Int) : Option (Int × (Nat → Int)) :=
  if setting = -2 then
    (draw randMax max (rands 0)).map fun drawn => (drawn, fun turn => rands (turn + 1))
  else some (setting, rands)

def getPair (i j max : Int) (different : Bool) (fuel : Nat) (rands : Nat → Int) :
    Option (Int × Int) := do
  let max ← toInt (max + 1)
  let (i, rands) ← choose randMax max i rands
  let (j, rands) ← choose randMax max j rands
  if different ∧ i = j then
    let j ← redraw randMax max i fuel rands
    some (i, j)
  else some (i, j)

/-! What it is to do. -/

variable (i j max : Int) (different : Bool)

def scaled (rand : Int) : Int := (max + 1) * rand / (randMax + 1)

def chosen (setting : Int) (rands : Nat → Int) : Int × (Nat → Int) :=
  if setting = -2 then (scaled randMax max (rands 0), fun turn => rands (turn + 1))
  else (setting, rands)

/-- For all results of `rand`: the settings as chosen or drawn, and if they must differ and do not,
the first draw that differs as the second. -/
def Drawn : Prop :=
  ∀ rands : Nat → Int, (∀ turn, 0 ≤ rands turn ∧ rands turn ≤ randMax) →
    let first := chosen randMax max i rands
    let second := chosen randMax max j first.2
    if different ∧ first.1 = second.1 then
      ∀ turn, (∀ earlier < turn, scaled randMax max (second.2 earlier) = first.1) →
        scaled randMax max (second.2 turn) ≠ first.1 → ∀ fuel, turn < fuel →
          getPair randMax i j max different fuel rands =
            some (first.1, scaled randMax max (second.2 turn))
    else ∀ fuel, getPair randMax i j max different fuel rands = some (first.1, second.1)

end Draws

variable {randMax i j max : Int} {different : Bool} (least : 32767 ≤ randMax)
  (most : randMax < 2 ^ 31) (small : 7 ≤ max) (large : max ≤ 9)

include least small in
theorem scaled_range {rand : Int} (positive : 0 ≤ rand) (bound : rand ≤ randMax) :
    0 ≤ scaled randMax max rand ∧ scaled randMax max rand ≤ max := by
  constructor
  · exact Int.ediv_nonneg (by positivity) (by omega)
  · exact Int.le_of_lt_add_one (Int.ediv_lt_of_lt_mul (by omega) (by nlinarith))

include least small large in
theorem draw_fits {rand : Int} (positive : 0 ≤ rand) (bound : rand ≤ randMax)
    (fits : (max + 1) * randMax < 2 ^ 31) :
    draw randMax (max + 1) rand = some (scaled randMax max rand) := by
  have product : (max + 1) * rand ≤ (max + 1) * randMax :=
    mul_le_mul_of_nonneg_left bound (by omega)
  have nonneg : 0 ≤ (max + 1) * rand := by positivity
  have divisor : randMax + 1 < 2 ^ 31 := by nlinarith
  rw [draw, toInt, if_pos ⟨by omega, by omega⟩, toInt, if_pos ⟨by omega, divisor⟩]
  exact congrArg some (tdiv_eq_ediv_of_nonneg nonneg)

variable {rands : Nat → Int}

include least small large in
theorem redraw_first (fits : (max + 1) * randMax < 2 ^ 31)
    (range : ∀ turn, 0 ≤ rands turn ∧ rands turn ≤ randMax) (turn fuel : Nat) (enough : turn < fuel)
    (before : ∀ earlier < turn, scaled randMax max (rands earlier) = i)
    (differs : scaled randMax max (rands turn) ≠ i) :
    redraw randMax (max + 1) i fuel rands = some (scaled randMax max (rands turn)) := by
  induction turn generalizing fuel rands with
  | zero =>
    obtain ⟨fuel, rfl⟩ := Nat.exists_eq_add_of_lt enough
    simp [redraw, draw_fits least small large (range 0).1 (range 0).2 fits, differs.symm]
  | succ turn ih =>
    obtain ⟨fuel, rfl⟩ := Nat.exists_eq_add_of_le' (Nat.lt_of_le_of_lt (Nat.zero_le _) enough)
    rw [redraw, draw_fits least small large (range 0).1 (range 0).2 fits, bind_eq_bind,
      bind_some, if_pos (before 0 (Nat.succ_pos turn)).symm]
    exact ih (fun turn => range (turn + 1)) fuel (Nat.lt_of_succ_lt_succ enough)
      (fun earlier less => before (earlier + 1) (Nat.succ_lt_succ less)) differs

include least small large in
theorem choose_fits (setting : Int) (fits : (max + 1) * randMax < 2 ^ 31 ∨ setting ≠ -2)
    (range : ∀ turn, 0 ≤ rands turn ∧ rands turn ≤ randMax) :
    choose randMax (max + 1) setting rands = some (chosen randMax max setting rands) ∧
      ∀ turn, 0 ≤ (chosen randMax max setting rands).2 turn ∧
        (chosen randMax max setting rands).2 turn ≤ randMax := by
  rw [choose, chosen]
  by_cases drawn : setting = -2
  · rw [if_pos drawn, if_pos drawn, draw_fits least small large (range 0).1 (range 0).2
      (fits.resolve_right (not_not.mpr drawn))]
    exact ⟨rfl, fun turn => range (turn + 1)⟩
  · rw [if_neg drawn, if_neg drawn]
    exact ⟨rfl, range⟩

theorem pair_returns (drawn : Drawn randMax i j max different)
    (range : ∀ turn, 0 ≤ rands turn ∧ rands turn ≤ randMax)
    (other : (chosen randMax max i rands).1 =
        (chosen randMax max j (chosen randMax max i rands).2).1 → ∃ turn,
      scaled randMax max ((chosen randMax max j (chosen randMax max i rands).2).2 turn) ≠
        (chosen randMax max i rands).1) :
    ∃ fuel, 0 < fuel ∧ getPair randMax i j max different fuel rands ≠ none := by
  have pair := drawn rands range
  dsimp only at pair
  split at pair
  · next equal =>
    have found := other equal.2
    have first := pair (Nat.find found)
      (fun earlier less => by simpa using Nat.find_min found less) (Nat.find_spec found) _
      (Nat.lt_succ_self _)
    exact ⟨_, Nat.succ_pos _, by rw [first]; simp⟩
  · exact ⟨1, Nat.one_pos, by rw [pair 1]; simp⟩

include least small large in
/-- The largest result, and zeros behind it. -/
theorem first_overflows (wide : 2 ^ 31 ≤ (max + 1) * randMax) :
    draw randMax (max + 1) randMax = none ∧ scaled randMax max randMax = max ∧
      scaled randMax max 0 = 0 := by
  refine ⟨by rw [draw, toInt, if_neg (by omega)]; rfl, ?_, by simp [scaled]⟩
  have split : (max + 1) * randMax = randMax - max + max * (randMax + 1) := by ring
  rw [scaled, split, add_mul_ediv_right _ _ (by omega),
    ediv_eq_zero_of_lt (by omega) (by omega), zero_add]

/-- The pair is drawn as it is to be exactly if the largest product is an `int`, or nothing has to
be drawn. -/
theorem pair_drawn (least : 32767 ≤ randMax) (most : randMax < 2 ^ 31) (small : 7 ≤ max)
    (large : max ≤ 9) :
    (∀ rand, 0 ≤ rand → rand ≤ randMax →
      0 ≤ scaled randMax max rand ∧ scaled randMax max rand ≤ max) ∧
    (Drawn randMax i j max different ↔ (max + 1) * randMax < 2 ^ 31 ∨
      i ≠ -2 ∧ j ≠ -2 ∧ ¬(different = true ∧ i = j)) := by
  refine ⟨fun rand => scaled_range least small, ?_⟩
  have maxInt : toInt (max + 1) = some (max + 1) := if_pos ⟨by omega, by omega⟩
  constructor
  · intro drawn
    by_contra wide
    rw [not_or, not_lt] at wide
    obtain ⟨fails, top, zero⟩ := first_overflows least small large wide.1
    let rands (turn : Nat) : Int := if turn = 0 then randMax else 0
    have range (turn : Nat) : 0 ≤ rands turn ∧ rands turn ≤ randMax := by
      dsimp only [rands]
      split <;> omega
    obtain ⟨fuel, positive, returns⟩ := pair_returns drawn range (by
      intro equal
      by_cases one : i = -2
      · exact ⟨1, by by_cases two : j = -2 <;> simp [chosen, one, two, zero, top, rands] <;> omega⟩
      by_cases two : j = -2
      · refine ⟨0, ?_⟩
        simp [chosen, one, two, zero, top, rands] at equal ⊢
        omega
      · by_cases nothing : i = 0
        · exact ⟨0, by simp [chosen, two, top, rands, nothing]; omega⟩
        · exact ⟨1, by simpa [chosen, one, two, zero, rands] using Ne.symm nothing⟩)
    apply returns
    by_cases one : i = -2
    · simp [getPair, maxInt, choose, one, fails, rands]
    by_cases two : j = -2
    · simp [getPair, maxInt, choose, one, two, fails, rands]
    obtain ⟨fuel, rfl⟩ := Nat.exists_eq_add_of_lt positive
    have equal : different = true ∧ i = j := by
      by_contra apart
      exact wide.2 ⟨one, two, apart⟩
    obtain ⟨rfl, rfl⟩ := equal
    simp [getPair, maxInt, choose, one, redraw, fails, rands]
  · intro holds rands range
    obtain ⟨one, later⟩ := choose_fits least small large i (holds.imp_right And.left) range
    obtain ⟨two, last⟩ := choose_fits least small large j
      (holds.imp_right fun given => given.2.1) later
    have pair (fuel : Nat) : getPair randMax i j max different fuel rands =
        if different ∧ (chosen randMax max i rands).1 =
            (chosen randMax max j (chosen randMax max i rands).2).1 then
          (redraw randMax (max + 1) (chosen randMax max i rands).1 fuel
            (chosen randMax max j (chosen randMax max i rands).2).2).map
              fun j => ((chosen randMax max i rands).1, j)
        else some ((chosen randMax max i rands).1,
          (chosen randMax max j (chosen randMax max i rands).2).1) := by
      simp only [getPair, maxInt, one, two, bind_eq_bind, bind_some]
      split <;> simp [map_eq_bind]
    dsimp only
    split
    · next equal =>
      intro turn before differs fuel enough
      have fits := holds.resolve_right fun given => given.2.2 ⟨equal.1, by
        simpa [chosen, given.1, given.2.1] using equal.2⟩
      rw [pair, if_pos equal, redraw_first least small large fits last turn fuel enough before
        differs]
      rfl
    · next apart => exact fun fuel => by rw [pair, if_neg apart]

theorem pair_drawn_example : Drawn 32767 (-2) (-2) 7 true :=
  (pair_drawn (i := -2) (j := -2) (by decide) (by decide) (by decide)
    (by decide)).2.mpr (Or.inl (by decide))

/-- With the `RAND_MAX` of 2147483647 a product overflows. -/
theorem product_overflows : ¬Drawn 2147483647 (-2) 0 7 true := by
  intro drawn
  have pair := drawn (fun _ => 2147483647) (fun _ => by decide)
  dsimp only at pair
  rw [if_neg (by decide)] at pair
  exact absurd (pair 0) (by decide)

end Pvpgn.RandomPair
