import Mathlib.Algebra.Order.Ring.Abs
import Mathlib.Tactic.FieldSimp
import Mathlib.Tactic.LinearCombination
import Mathlib.Tactic.IntervalCases
import Pvpgn.Knockout

/-!
Rating changes after a ladder game, `ladder_calc.cpp`. The Elo formula knows two
players; the server multiplies it out for up to eight of them, as if they had played a
tournament. Ratings are passed on to `probability` only, which is a parameter here.
-/

namespace Pvpgn.LadderCalc
open List Option Nat

open Knockout

section Formulas

variable {Rating K : Type} [Field K] (probability : Rating → Rating → K)

def twoPlayer (a b : Rating) : K :=
  let ab := probability a b
  ab

def threePlayer (a b c : Rating) : K :=
  let ab := probability a b
  let ac := probability a c
  let bc := probability b c
  let cb := 1 - bc
  (2 * (ab * ac) + (bc * ab) + (cb * ac)) / 3

def fourPlayer (a b c d : Rating) : K :=
  let ab := probability a b
  let ac := probability a c
  let ad := probability a d
  let bc := probability b c
  let bd := probability b d
  let cd := probability c d
  let cb := 1 - bc
  let db := 1 - bd
  let dc := 1 - cd
  (ab * ac * (cd + bd) + ac * ad * (db + cb) + ab * ad * (dc + bc)) / 3

def fiveF2 (a b c : Rating) : K :=
  let ab := probability a b
  let ac := probability a c
  let bc := probability b c
  let cb := 1 - bc
  2 * (ab * ac) + bc * ab + cb * ac

def fiveF1 (a b c d e : Rating) : K :=
  let ab := probability a b
  let ac := probability a c
  let ad := probability a d
  let ae := probability a e
  let bc := probability b c
  let bd := probability b d
  let be := probability b e
  ab * (ac * fiveF2 probability c d e + ad * fiveF2 probability d e c +
    ae * fiveF2 probability e c d + bc * fiveF2 probability a d e +
    bd * fiveF2 probability a c e + be * fiveF2 probability a c d)

def fivePlayer (a b c d e : Rating) : K :=
  (fiveF1 probability a b c d e + fiveF1 probability a c d e b +
    fiveF1 probability a d e b c + fiveF1 probability a e b c d) / 30

-- ABCD is a group of 4, A wins
def sixF3 (a b c d : Rating) : K :=
  let ab := probability a b
  let ac := probability a c
  let ad := probability a d
  let bc := probability b c
  let bd := probability b d
  let cd := probability c d
  let cb := 1 - bc
  let db := 1 - bd
  let dc := 1 - cd
  ab * ac * (cd + bd) + ac * ad * (db + cb) + ab * ad * (dc + bc)

-- ABCD is a group of 4, EF is a group of 2, A must win
def sixF1 (a b c d e f : Rating) : K :=
  let ab := probability a b
  let ac := probability a c
  let ad := probability a d
  let ae := probability a e
  let af := probability a f
  let bc := probability b c
  let bd := probability b d
  let cd := probability c d
  let ef := probability e f
  let cb := 1 - bc
  let db := 1 - bd
  let dc := 1 - cd
  let fe := 1 - ef
  (ab * ac * (cd + bd) + ac * ad * (db + cb) + ab * ad * (dc + bc)) * (ef * ae + fe * af)

-- AB is a group of 2, CDEF is a group of 4, A must win
def sixF2 (a b c d e f : Rating) : K :=
  let ab := probability a b
  let ac := probability a c
  let ad := probability a d
  let ae := probability a e
  let af := probability a f
  sixF3 probability c d e f * ab * ac + sixF3 probability d c e f * ab * ad +
    sixF3 probability e c d f * ab * ae + sixF3 probability f c d e * ab * af

def sixPlayer (a b c d e f : Rating) : K :=
  (sixF1 probability a b c d e f + sixF1 probability a b c e d f +
    sixF1 probability a b e d c f + sixF1 probability a e c d b f +
    sixF1 probability a b c f d e + sixF1 probability a b f d c e +
    sixF1 probability a f c d b e + sixF1 probability a e f b c d +
    sixF1 probability a e f c b d + sixF1 probability a e f d b c +
    sixF2 probability a b c d e f + sixF2 probability a c b d e f +
    sixF2 probability a d b c e f + sixF2 probability a e b c d f +
    sixF2 probability a f b c d e) / 45

def sevenF2 (a b c d e f g : Rating) : K :=
  let ab := probability a b
  let ac := probability a c
  let ad := probability a d
  let ae := probability a e
  let af := probability a f
  let ag := probability a g
  let bc := probability b c
  let bd := probability b d
  let be := probability b e
  let bf := probability b f
  let bg := probability b g
  let cd := probability c d
  let ce := probability c e
  let cf := probability c f
  let cg := probability c g
  let de := probability d e
  let df := probability d f
  let dg := probability d g
  let ef := probability e f
  let eg := probability e g
  let fg := probability f g
  let ed := 1 - de
  let fd := 1 - df
  let gd := 1 - dg
  let fe := 1 - ef
  let ge := 1 - eg
  let gf := 1 - fg
  ab * (
    (ac + bc) *
      (ad * (de * df * (fg + eg) + df * dg * (ge + fe) + de * dg * (gf + ef)) +
       ae * (ed * ef * (fg + dg) + ef * eg * (gd + fd) + ed * eg * (gf + df)) +
       af * (fe * fd * (dg + eg) + fd * fg * (ge + de) + fe * fg * (gd + ed)) +
       ag * (ge * gf * (fd + ed) + gf * gd * (de + fe) + ge * gd * (df + ef))) +
    bc *
      ((bd + cd) * (ae * af * (fg + eg) + af * ag * (ge + fe) + ae * ag * (gf + ef)) +
       -- the line for E as third of the small group has `ad + ad` where the others
       -- would have `gd + fd`
       (be + ce) * (ad * af * (fg + dg) + af * ag * (ad + ad) + ad * ag * (gf + df)) +
       (bf + cf) * (ae * ad * (dg + eg) + ad * ag * (ge + de) + ae * ag * (gd + ed)) +
       (bg + cg) * (ae * af * (fd + ed) + af * ad * (de + fe) + ae * ad * (df + ef))))

def sevenF1 (a b c d e f g : Rating) : K :=
  sevenF2 probability a b c d e f g + sevenF2 probability a b d c e f g +
    sevenF2 probability a b e d c f g + sevenF2 probability a b f d e c g +
    sevenF2 probability a b g d e f c

def sevenPlayer (a b c d e f g : Rating) : K :=
  (sevenF1 probability a b c d e f g + sevenF1 probability a c b d e f g +
    sevenF1 probability a d c b e f g + sevenF1 probability a e c d b f g +
    sevenF1 probability a f c d e b g + sevenF1 probability a g c d e f b) / 45

def eightF3 (a b c d e : Rating) : K :=
  let ab := probability a b
  let ac := probability a c
  let ad := probability a d
  let ae := probability a e
  let bc := probability b c
  let bd := probability b d
  let be := probability b e
  let cd := probability c d
  let ce := probability c e
  let de := probability d e
  let cb := 1 - bc
  let db := 1 - bd
  let dc := 1 - cd
  let eb := 1 - be
  let ec := 1 - ce
  let ed := 1 - de
  (bc * de + be * dc) * ((ab - ad) * bd + ad) + (bd * ce + be * cd) * ((ab - ac) * bc + ac) +
    (cb * de + db * ce) * ((ac - ad) * cd + ad) +
    (cd * eb + cb * ed) * ((ac - ae) * ce + ae) +
    (dc * eb + db * ec) * ((ad - ae) * de + ae) +
    (bd * ec + bc * ed) * ((ae - ab) * eb + ab)

def eightF2 (a b c d e f g : Rating) : K :=
  let ab := probability a b
  let bc := probability b c
  let bd := probability b d
  let be := probability b e
  let bf := probability b f
  let bg := probability b g
  ab * (eightF3 probability a d e f g * bc + eightF3 probability a c e f g * bd +
    eightF3 probability a c d f g * be + eightF3 probability a c d e g * bf +
    eightF3 probability a c d e f * bg)

def eightF1 (a b c d e f g : Rating) : K :=
  eightF2 probability a b c d e f g + eightF2 probability a c b d e f g +
    eightF2 probability a d b c e f g + eightF2 probability a e b c d f g +
    eightF2 probability a f b c d e g + eightF2 probability a g b c d e f

def eightPlayer (a b c d e f g h : Rating) : K :=
  let ab := probability a b
  let ac := probability a c
  let ad := probability a d
  let ae := probability a e
  let af := probability a f
  let ag := probability a g
  let ah := probability a h
  (eightF1 probability a c d e f g h * ab + eightF1 probability a b d e f g h * ac +
    eightF1 probability a b c e f g h * ad + eightF1 probability a b c d f g h * ae +
    eightF1 probability a b c d e g h * af + eightF1 probability a b c d e f h * ag +
    eightF1 probability a b c d e f g * ah) / 315

/-- The switch of ladder_calc_info over `opponent_count`; slot 0 is the player himself. -/
def formula (player : Rating) : List Rating → Option K
  | [b] => some (twoPlayer probability player b)
  | [b, c] => some (threePlayer probability player b c)
  | [b, c, d] => some (fourPlayer probability player b c d)
  | [b, c, d, e] => some (fivePlayer probability player b c d e)
  | [b, c, d, e, f] => some (sixPlayer probability player b c d e f)
  | [b, c, d, e, f, g] => some (sevenPlayer probability player b c d e f g)
  | [b, c, d, e, f, g, h] => some (eightPlayer probability player b c d e f g h)
  | _ => none

end Formulas

section Info

inductive GameResult where
  | none | win | loss | draw | disconnect | observer | playing
  deriving Repr, DecidableEq

/-- What the account keeps for one client and one ladder, and the result of the game. -/
structure Player where
  wins : UInt32
  losses : UInt32
  disconnects : UInt32
  rating : UInt32
  rank : UInt32
  result : GameResult
  deriving Repr, DecidableEq

structure LadderInfo where
  prob : ℚ
  k : UInt32
  adj : Int
  oldrating : UInt32
  oldrank : UInt32
  deriving Repr, DecidableEq

def coefficient (player : Player) : Int :=
  let totalLadderGames := (player.wins + player.losses + player.disconnects).toInt32.toInt
  if totalLadderGames < 30 then 50
  else if player.rating < 2400 then 30
  else 20

/-- The players with another result than his own, in the order of the game. -/
def opponents (players : List Player) (curr : Nat) (player : Player) : List UInt32 :=
  (players.zipIdx.filter fun other => other.2 ≠ curr && other.1.result ≠ player.result).map
    fun other => other.1.rating

-- `(int)delta`, towards zero.
def truncate (delta : ℚ) : Int := delta.num.tdiv delta.den

def playerInfo (probability : UInt32 → UInt32 → ℚ) (players : List Player) (slot : Player × Nat) :
    Option LadderInfo :=
  let player := slot.1
  let others := opponents players slot.2 player
  let k := coefficient player
  let teamMembers := players.length - others.length
  (formula probability player.rating others).map fun prob =>
    let delta : ℚ := if player.result = .win then |k * (1 - prob) / teamMembers| else -|k * prob|
    { prob, k := k.toNat.toUInt32, adj := truncate delta, oldrating := player.rating,
      oldrank := player.rank }

def ladderCalcInfo (probability : UInt32 → UInt32 → ℚ) (clienttag : UInt32)
    (players : List Player) : Option (List LadderInfo) :=
  if clienttag = 0 then none
  else players.zipIdx.mapM (playerInfo probability players)

end Info

section Brackets

variable {Rating K : Type} [Field K] (probability : Rating → Rating → K)

def two : Bracket := .final .single .single

def three : Bracket := .final two .single

def four : Bracket := .final two two

def five : Bracket := .final three two

def six : Bracket := .final four two

def seven : Bracket := .final four three

def eight : Bracket := .final four four

theorem rivals_single : Bracket.single.rivals = 0 := rfl

theorem rivals_two : two.rivals = 1 := rfl

theorem rivals_three : three.rivals = 2 := rfl

theorem rivals_four : four.rivals = 3 := rfl

theorem two_wins (a b : Rating) : two.wins probability a [b] = 2 * probability a b := by
  simp only [two, wins_final, wins_single, Bracket.rivals, splitSum, winsFinal, pickSum]
  ring

variable {probability} (complement : ∀ x y, probability x y + probability y x = 1)
include complement

theorem one_sub_probability (x y : Rating) : 1 - probability x y = probability y x := by
  rw [← complement x y, add_sub_cancel_left]

theorem three_wins (a b c : Rating) :
    three.wins probability a [b, c] = 2 * fiveF2 probability a b c := by
  simp only [three, wins_final, wins_single, rivals_single, rivals_two, splitSum, winsFinal,
    pickSum, two_wins, fiveF2, one_sub_probability complement]
  ring

theorem four_wins (a b c d : Rating) :
    four.wins probability a [b, c, d] = 8 * sixF3 probability a b c d := by
  simp only [four, wins_final, rivals_two, splitSum, winsFinal,
    pickSum, two_wins, sixF3, one_sub_probability complement]
  ring

theorem five_wins [CharZero K] (a b c d e : Rating) :
    five.wins probability a [b, c, d, e] = 120 * fivePlayer probability a b c d e := by
  simp only [five, wins_final, rivals_two, rivals_three, splitSum, winsFinal,
    pickSum, two_wins, three_wins complement, fivePlayer, fiveF1, fiveF2,
    one_sub_probability complement]
  ring

theorem sixF3_swap_left (a b c d : Rating) :
    sixF3 probability a c b d = sixF3 probability a b c d := by
  simp only [sixF3, one_sub_probability complement]
  ring

theorem sixF3_swap_right (a b c d : Rating) :
    sixF3 probability a b d c = sixF3 probability a b c d := by
  simp only [sixF3, one_sub_probability complement]
  ring

theorem sixF1_eq (a b c d e f : Rating) :
    sixF1 probability a b c d e f = sixF3 probability a b c d *
      (probability e f * probability a e + probability f e * probability a f) := by
  rw [← one_sub_probability complement e f]
  rfl

theorem six_wins [CharZero K] (a b c d e f : Rating) :
    six.wins probability a [b, c, d, e, f] = 720 * sixPlayer probability a b c d e f := by
  simp only [six, wins_final, rivals_two, rivals_four, splitSum, winsFinal, pickSum, two_wins,
    four_wins complement, sixPlayer, sixF1_eq complement, sixF2]
  simp only [sixF3_swap_left complement, sixF3_swap_right complement]
  ring

theorem eightF3_eq (a b c d e : Rating) :
    eightF3 probability a b c d e =
      sixF3 probability b c d e * probability a b + sixF3 probability c b d e * probability a c +
        sixF3 probability d b c e * probability a d + sixF3 probability e b c d * probability a e := by
  simp only [eightF3, sixF3, ← one_sub_probability complement c b,
    ← one_sub_probability complement d b,
    ← one_sub_probability complement e b,
    ← one_sub_probability complement d c,
    ← one_sub_probability complement e c,
    ← one_sub_probability complement e d]
  ring

theorem eight_final (a b c d e f g h : Rating) :
    winsFinal probability (four.wins probability) (four.wins probability) a [b, c, d] [e, f, g, h] =
      64 * (sixF3 probability a b c d * eightF3 probability a e f g h) := by
  simp only [winsFinal, pickSum, four_wins complement,
    eightF3_eq complement]
  ring

theorem eight_wins [CharZero K] (a b c d e f g h : Rating) :
    eight.wins probability a [b, c, d, e, f, g, h] =
      40320 * eightPlayer probability a b c d e f g h := by
  simp only [eight, wins_final, rivals_four, splitSum, eight_final complement,
    eightPlayer, eightF1, eightF2]
  simp only [sixF3, one_sub_probability complement]
  ring

variable (probability)

/-- What the line with `ad + ad` adds to the chances of A, and the sums it goes into. -/
def misprintF2 (a b c d e f g : Rating) : K :=
  probability a b * probability b c * (probability b e + probability c e) *
    (probability a f * probability a g) *
    (2 * probability a d - (probability g d + probability f d))

def misprintF1 (a b c d e f g : Rating) : K :=
  misprintF2 probability a b c d e f g + misprintF2 probability a b d c e f g +
    misprintF2 probability a b e d c f g + misprintF2 probability a b f d e c g +
    misprintF2 probability a b g d e f c

def misprint (a b c d e f g : Rating) : K :=
  misprintF1 probability a b c d e f g + misprintF1 probability a c b d e f g +
    misprintF1 probability a d c b e f g + misprintF1 probability a e c d b f g +
    misprintF1 probability a f c d e b g + misprintF1 probability a g c d e f b

def misprints (player : Rating) : List Rating → K
  | [b, c, d, e, f, g] => misprint probability player b c d e f g
  | _ => 0

/-- A beats B, who is the last opponent in a group of three with C. -/
def runnerUp (a b c : Rating) : K := probability a b * (probability a c + probability b c)

variable {probability}

theorem fiveF2_eq (a b c : Rating) :
    fiveF2 probability a b c = runnerUp probability a b c + runnerUp probability a c b := by
  simp only [fiveF2, runnerUp, one_sub_probability complement]
  ring

theorem eightF3_swap_first (a b c d e : Rating) :
    eightF3 probability a c b d e = eightF3 probability a b c d e := by
  rw [eightF3_eq complement, eightF3_eq complement,
    sixF3_swap_left complement d b c e, sixF3_swap_left complement e b c d]
  ring

theorem eightF3_swap_middle (a b c d e : Rating) :
    eightF3 probability a b d c e = eightF3 probability a b c d e := by
  rw [eightF3_eq complement, eightF3_eq complement,
    sixF3_swap_left complement b c d e, sixF3_swap_right complement e b c d]
  ring

theorem eightF3_swap_last (a b c d e : Rating) :
    eightF3 probability a b c e d = eightF3 probability a b c d e := by
  rw [eightF3_eq complement, eightF3_eq complement,
    sixF3_swap_right complement b c d e,
    sixF3_swap_right complement c b d e]
  ring

-- B is the last opponent of A in the first factor, the winner of the group of three in the second.
theorem sevenF2_eq (a b c d e f g : Rating) :
    sevenF2 probability a b c d e f g =
      runnerUp probability a b c * eightF3 probability a d e f g +
        probability a b *
          (runnerUp probability b c d * sixF3 probability a e f g +
            runnerUp probability b c e * sixF3 probability a d f g +
            runnerUp probability b c f * sixF3 probability a d e g +
            runnerUp probability b c g * sixF3 probability a d e f) +
        misprintF2 probability a b c d e f g := by
  simp only [sevenF2, misprintF2, runnerUp, eightF3_eq complement, sixF3,
    one_sub_probability complement]
  ring

theorem seven_final_four (a b c d e f g : Rating) :
    winsFinal probability (four.wins probability) (three.wins probability) a [b, c, d] [e, f, g] =
      16 * (sixF3 probability a b c d *
        (probability a e * (runnerUp probability e f g + runnerUp probability e g f) +
          probability a f * (runnerUp probability f e g + runnerUp probability f g e) +
          probability a g * (runnerUp probability g e f + runnerUp probability g f e))) := by
  simp only [winsFinal, pickSum, four_wins complement,
    three_wins complement, fiveF2_eq complement]
  ring

theorem seven_final_three (a b c d e f g : Rating) :
    winsFinal probability (three.wins probability) (four.wins probability) a [b, c] [d, e, f, g] =
      16 * ((runnerUp probability a b c + runnerUp probability a c b) *
        eightF3 probability a d e f g) := by
  simp only [winsFinal, pickSum, four_wins complement,
    three_wins complement, fiveF2_eq complement, eightF3_eq complement]
  ring

theorem seven_wins [CharZero K] (a b c d e f g : Rating) :
    seven.wins probability a [b, c, d, e, f, g] + 16 * misprint probability a b c d e f g =
      720 * sevenPlayer probability a b c d e f g := by
  simp only [seven, wins_final, rivals_four, rivals_three, splitSum,
    seven_final_four complement, seven_final_three complement,
    sevenPlayer, sevenF1, sevenF2_eq complement, misprint, misprintF1]
  simp only [sixF3_swap_left complement, sixF3_swap_right complement,
    eightF3_swap_first complement, eightF3_swap_middle complement,
    eightF3_swap_last complement]
  ring

end Brackets

section Distribution

variable {Rating K : Type} [Field K] (probability : Rating → Rating → K)

def bracketOf : Nat → Bracket
  | 0 => .single
  | 1 => two
  | 2 => three
  | 3 => four
  | 4 => five
  | 5 => six
  | 6 => seven
  | _ => eight

theorem rivals_bracketOf (count : Nat) (few : count ≤ 7) : (bracketOf count).rivals = count := by
  interval_cases count <;> rfl

/-- The mean over all draws of the chances to win the tournament. -/
def fairChance (player : Rating) (others : List Rating) : K :=
  (bracketOf others.length).wins probability player others / ((others.length + 1).factorial : K)

theorem mapM_some {Item Result : Type} {step : Item → Option Result} {result : Item → Result}
    {items : List Item} (given : ∀ item ∈ items, step item = some (result item)) :
    items.mapM step = some (items.map result) := by
  induction items with
  | nil => rfl
  | cons item rest ih =>
    rw [mapM_cons, given item mem_cons_self,
      ih fun later inside => given later (mem_cons_of_mem _ inside)]
    rfl

theorem fairChance_unordered (player : Rating) {others reordered : List Rating}
    (same : others.Perm reordered) :
    fairChance probability player others = fairChance probability player reordered := by
  rw [fairChance, fairChance, same.length_eq, wins_unordered probability _ player _ _ same]

section
variable [CharZero K] (complement : ∀ x y, probability x y + probability y x = 1)
include complement

theorem fairChance_total (ratings : List Rating) (atLeast : 1 ≤ ratings.length)
    (atMost : ratings.length ≤ 8) :
    pickSum (fairChance probability) ratings = 1 := by
  obtain ⟨count, counted⟩ : ∃ count, ratings.length = count + 1 := ⟨ratings.length - 1, by omega⟩
  have rivals := rivals_bracketOf count (by omega)
  have mean : pickSum (fairChance probability) ratings =
      pickSum (fun player others => ((count + 1).factorial : K)⁻¹ *
        (bracketOf count).wins probability player others) ratings := by
    refine pickSum_congr fun player others picked => ?_
    rw [fairChance, show others.length = count by omega, div_eq_inv_mul]
  have someone := wins_total probability complement (bracketOf count) ratings (by omega)
  rw [mean, pickSum_mul_left, someone, counted]
  exact inv_mul_cancel₀ (cast_ne_zero.mpr (factorial_ne_zero _))

theorem formula_fair (player : Rating) (others : List Rating) (opposed : 1 ≤ others.length)
    (few : others.length ≤ 7) (notSix : others.length ≠ 6) :
    formula probability player others = some (fairChance probability player others) := by
  rcases others with _ | ⟨b, _ | ⟨c, _ | ⟨d, _ | ⟨e, _ | ⟨f, _ | ⟨g, _ | ⟨h, rest⟩⟩⟩⟩⟩⟩⟩
  · simp at opposed
  · simp [formula, fairChance, bracketOf, two_wins, twoPlayer, factorial_succ]
  · simp [formula, fairChance, bracketOf, three_wins complement, threePlayer, fiveF2,
      factorial_succ]
    ring
  · simp [formula, fairChance, bracketOf, four_wins complement, fourPlayer, sixF3,
      factorial_succ]
    ring
  · simp [formula, fairChance, bracketOf, five_wins complement, factorial_succ]
  · simp [formula, fairChance, bracketOf, six_wins complement, factorial_succ]
  · simp at notSix
  · obtain rfl : rest = [] := by
      simp only [length_cons] at few
      exact length_eq_zero_iff.mp (by omega)
    simp [formula, fairChance, bracketOf, eight_wins complement, factorial_succ]

theorem formula_seven (player : Rating) (others : List Rating) (six : others.length = 6) :
    formula probability player others =
      some (7 * fairChance probability player others + misprints probability player others / 45) := by
  obtain ⟨b, c, d, e, f, g, rfl⟩ : ∃ b c d e f g, others = [b, c, d, e, f, g] := by
    rcases others with _ | ⟨b, _ | ⟨c, _ | ⟨d, _ | ⟨e, _ | ⟨f, _ | ⟨g, _ | ⟨h, rest⟩⟩⟩⟩⟩⟩⟩ <;>
      simp_all
  have wins := seven_wins complement player b c d e f g
  simp only [formula, fairChance, misprints, length_cons, length_nil, bracketOf,
    factorial_succ, factorial_zero, Option.some.injEq]
  linear_combination -wins / 720

end

/-- What a formula for tournaments should give: one of the players wins, and the order of
the opponents in slots 1 and on does not matter. -/
structure IsDistribution (ratings : List Rating) : Prop where
  total : ((picks ratings).mapM fun slot => formula probability slot.1 slot.2).map List.sum = some 1
  symmetric : ∀ slot ∈ picks ratings, ∀ others : List Rating, others.Perm slot.2 →
    formula probability slot.1 others = formula probability slot.1 slot.2

/-- With 45 for 315 as the divisor, the seven chances add up to 7; the misprint has to take
the 6 away, and to do so without showing the order of the opponents. -/
structure MisprintCancels (ratings : List Rating) : Prop where
  total : pickSum (misprints probability) ratings = -270
  symmetric : ∀ slot ∈ picks ratings, ∀ others : List Rating, others.Perm slot.2 →
    misprints probability slot.1 others = misprints probability slot.1 slot.2

theorem isDistribution_iff {ratings : List Rating} {value : Rating → List Rating → K}
    (given : ∀ player others, others.length + 1 = ratings.length →
      formula probability player others = some (value player others)) :
    IsDistribution probability ratings ↔
      pickSum value ratings = 1 ∧
        ∀ slot ∈ picks ratings, ∀ others : List Rating, others.Perm slot.2 →
          value slot.1 others = value slot.1 slot.2 := by
  have values : ((picks ratings).mapM fun slot => formula probability slot.1 slot.2) =
      some ((picks ratings).map fun slot => value slot.1 slot.2) :=
    mapM_some fun slot picked => given _ _ (mem_picks_length picked)
  have order : ∀ slot ∈ picks ratings, ∀ others : List Rating, others.Perm slot.2 →
      (formula probability slot.1 others = formula probability slot.1 slot.2 ↔
        value slot.1 others = value slot.1 slot.2) := by
    intro slot picked others same
    have size := mem_picks_length picked
    rw [given _ _ size, given _ others (by rw [same.length_eq, size]), Option.some.injEq]
  constructor
  · rintro ⟨total, symmetric⟩
    rw [values, map_some, Option.some.injEq, pickSum_eq_sum_picks] at total
    exact ⟨total, fun slot picked others same =>
      (order slot picked others same).mp (symmetric slot picked others same)⟩
  · rintro ⟨total, symmetric⟩
    refine ⟨?_, fun slot picked others same =>
      (order slot picked others same).mpr (symmetric slot picked others same)⟩
    rw [values, map_some, pickSum_eq_sum_picks, total]

/-- The formulas describe a tournament for every number of players except seven. -/
theorem distribution_exact [CharZero K]
    (complement : ∀ x y, probability x y + probability y x = 1) (ratings : List Rating)
    (atLeast : 2 ≤ ratings.length) (atMost : ratings.length ≤ 8) :
    IsDistribution probability ratings ↔
      ratings.length ≠ 7 ∨ MisprintCancels probability ratings := by
  have one := fairChance_total probability complement ratings (by omega) atMost
  by_cases seven : ratings.length = 7
  · have given : ∀ player others, others.length + 1 = ratings.length →
        formula probability player others = some (7 * fairChance probability player others +
          misprints probability player others / 45) :=
      fun player others size => formula_seven probability complement player others (by omega)
    have sum : pickSum (fun player others => 7 * fairChance probability player others +
          misprints probability player others / 45) ratings =
        7 + pickSum (misprints probability) ratings / 45 := by
      simp only [div_eq_inv_mul]
      rw [pickSum_add, pickSum_mul_left, pickSum_mul_left, one, mul_one]
    rw [isDistribution_iff probability given, sum]
    constructor
    · rintro ⟨total, symmetric⟩
      refine .inr ⟨by linear_combination 45 * total, fun slot picked others same => ?_⟩
      have equal := symmetric slot picked others same
      rw [fairChance_unordered probability slot.1 same] at equal
      linear_combination 45 * equal
    · rintro (other | ⟨total, symmetric⟩)
      · exact absurd seven other
      · refine ⟨by linear_combination total / 45, fun slot picked others same => ?_⟩
        rw [fairChance_unordered probability slot.1 same, symmetric slot picked others same]
  · have given : ∀ player others, others.length + 1 = ratings.length →
        formula probability player others = some (fairChance probability player others) :=
      fun player others size =>
        formula_fair probability complement player others (by omega) (by omega) (by omega)
    rw [isDistribution_iff probability given]
    have fair : ∀ slot ∈ picks ratings, ∀ others : List Rating, others.Perm slot.2 →
        fairChance probability slot.1 others = fairChance probability slot.1 slot.2 :=
      fun slot _ others same => fairChance_unordered probability slot.1 same
    exact ⟨fun _ => .inl seven, fun _ => ⟨one, fair⟩⟩

theorem distribution_exact_sample :
    IsDistribution (fun _ _ : UInt32 => (1 / 2 : ℚ)) [1000, 1000, 1000] ↔
      [(1000 : UInt32), 1000, 1000].length ≠ 7 ∨
        MisprintCancels (fun _ _ : UInt32 => (1 / 2 : ℚ)) [1000, 1000, 1000] :=
  distribution_exact _ (by intros; norm_num) _ (by decide) (by decide)

/-- Seven players of one rating: each of them gets the chance 1. -/
theorem seven_equal_players :
    (∀ x y : UInt32, (fun _ _ => (1 / 2 : ℚ)) x y + (fun _ _ => (1 / 2 : ℚ)) y x = 1) ∧
      ¬ IsDistribution (fun _ _ : UInt32 => (1 / 2 : ℚ)) (replicate 7 1000) := by
  refine ⟨by intros; norm_num, fun distribution => ?_⟩
  have certain : formula (fun _ _ : UInt32 => (1 / 2 : ℚ)) 1000 (replicate 6 1000) = some 1 := by
    norm_num [formula, replicate, sevenPlayer, sevenF1, sevenF2]
  have slots : picks (replicate 7 (1000 : UInt32)) =
      replicate 7 (1000, replicate 6 1000) := by decide
  have total := distribution.total
  have values := @mapM_some _ _ (fun slot : UInt32 × List UInt32 =>
    formula (fun _ _ : UInt32 => (1 / 2 : ℚ)) slot.1 slot.2) (fun _ => 1)
    (replicate 7 (1000, replicate 6 1000))
    fun slot same => by rw [eq_of_mem_replicate same]; exact certain
  rw [slots, values] at total
  norm_num at total

end Distribution

end Pvpgn.LadderCalc
