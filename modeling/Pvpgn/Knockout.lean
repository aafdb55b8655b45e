import Mathlib.Algebra.BigOperators.Group.List.Basic
import Mathlib.Algebra.Order.Ring.Defs
import Mathlib.Data.Nat.Choose.Basic
import Mathlib.Tactic.Ring
import Mathlib.Tactic.Abel

/-!
Knock-out tournaments over lists of players. A bracket is a tree of matches; its
players are drawn into the leaves in every possible way, and `wins` adds up the
chances of one player over all the draws. Sums over the players and over the ways
to split them in two groups are written by recursion on the list.
-/

namespace Pvpgn.Knockout
open List Nat

variable {Player K : Type}

/-- Every player, with the others in their order. -/
def picks : List Player → List (Player × List Player)
  | [] => []
  | player :: rest =>
    (player, rest) :: (picks rest).map fun pick => (pick.1, player :: pick.2)

section Sums

variable [AddCommMonoid K]

def pickSum (term : Player → List Player → K) : List Player → K
  | [] => 0
  | player :: rest =>
    term player rest + pickSum (fun other left => term other (player :: left)) rest

/-- The sum over every group of `size` players and the rest of them. -/
def splitSum (term : List Player → List Player → K) : Nat → List Player → K
  | 0, rest => term [] rest
  | _ + 1, [] => 0
  | size + 1, player :: rest =>
    splitSum (fun group left => term (player :: group) left) size rest +
      splitSum (fun group left => term group (player :: left)) (size + 1) rest

theorem pickSum_eq_sum_picks (term : Player → List Player → K) (players : List Player) :
    ((picks players).map fun pick => term pick.1 pick.2).sum = pickSum term players := by
  induction players generalizing term with
  | nil => rfl
  | cons player rest ih =>
    have tail := ih fun other left => term other (player :: left)
    simp only [picks, pickSum, map_cons, sum_cons, List.map_map]
    exact congrArg (term player rest + ·) tail

variable {players : List Player}

theorem mem_picks_length {pick : Player × List Player} (picked : pick ∈ picks players) :
    pick.2.length + 1 = players.length := by
  induction players generalizing pick with
  | nil => cases picked
  | cons player rest ih =>
    simp only [picks, mem_cons, List.mem_map] at picked
    rcases picked with same | ⟨earlier, found, same⟩
    · rw [same]; rfl
    · rw [← same]
      simp [ih found]

example : picks [1, 2, 3] = [(1, [2, 3]), (2, [1, 3]), (3, [1, 2])] := by decide +kernel

theorem pickSum_congr {first second : Player → List Player → K}
    (same : ∀ player left, left.length + 1 = players.length →
      first player left = second player left) : pickSum first players = pickSum second players := by
  induction players generalizing first second with
  | nil => rfl
  | cons player rest ih =>
    have tail := @ih (fun other left => first other (player :: left))
      (fun other left => second other (player :: left))
      fun other left size => same other _ (by simp [size])
    rw [pickSum, pickSum, same player rest rfl, tail]

/-- Terms that do not depend on the order of the players left over. -/
def Unordered (term : Player → List Player → K) : Prop :=
  ∀ player left other, left.Perm other → term player left = term player other

theorem pickSum_perm {term : Player → List Player → K} (unordered : Unordered term)
    {others : List Player} (permuted : players.Perm others) :
    pickSum term players = pickSum term others := by
  induction permuted generalizing term with
  | nil => rfl
  | cons player same ih =>
    have tail := @ih (fun other left => term other (player :: left))
      fun other left right moved => unordered other _ _ (moved.cons player)
    rw [pickSum, pickSum, unordered player _ _ same, tail]
  | swap first second rest =>
    have tail : ∀ players : List Player,
        pickSum (fun other left => term other (second :: first :: left)) players =
          pickSum (fun other left => term other (first :: second :: left)) players := by
      intro players
      congr 1
      funext other left
      exact unordered other _ _ (Perm.swap first second left)
    simp only [pickSum, tail]
    abel
  | trans _ _ ih next => exact (ih unordered).trans (next unordered)

theorem splitSum_perm {term : List Player → List Player → K}
    (unordered : ∀ group others left right, group.Perm others → left.Perm right →
      term group left = term others right) (size : Nat) {others : List Player}
    (permuted : players.Perm others) : splitSum term size players = splitSum term size others := by
  induction permuted generalizing term size with
  | nil => rfl
  | cons player same ih =>
    cases size with
    | zero => exact unordered _ _ _ _ (.refl _) (same.cons player)
    | succ size =>
      have inside := @ih (fun group left => term (player :: group) left)
        (fun group others left right moved kept =>
          unordered _ _ _ _ (moved.cons player) kept) size
      have outside := @ih (fun group left => term group (player :: left))
        (fun group others left right moved kept =>
          unordered _ _ _ _ moved (kept.cons player)) (size + 1)
      rw [splitSum, splitSum, inside, outside]
  | swap first second rest =>
    have both : (fun group left => term (second :: first :: group) left) =
        fun group left => term (first :: second :: group) left := by
      funext group left
      exact unordered _ _ _ _ (Perm.swap first second group) (.refl _)
    have neither : (fun group left => term group (second :: first :: left)) =
        fun group left => term group (first :: second :: left) := by
      funext group left
      exact unordered _ _ _ _ (.refl _) (Perm.swap first second left)
    cases size with
    | zero => exact unordered _ _ _ _ (.refl _) (Perm.swap first second rest)
    | succ size =>
      cases size with
      | zero =>
        simp only [splitSum, neither]
        abel
      | succ size =>
        simp only [splitSum, neither, both]
        abel
  | trans _ _ ih next => exact (ih unordered size).trans (next unordered size)

theorem pickSum_add (first second : Player → List Player → K) (players : List Player) :
    pickSum (fun player left => first player left + second player left) players =
      pickSum first players + pickSum second players := by
  induction players generalizing first second with
  | nil => simp [pickSum]
  | cons player rest ih =>
    simp only [pickSum, ih]
    abel

theorem splitSum_add (first second : List Player → List Player → K) (size : Nat)
    (players : List Player) :
    splitSum (fun group left => first group left + second group left) size players =
      splitSum first size players + splitSum second size players := by
  induction players generalizing first second size with
  | nil => cases size <;> simp [splitSum]
  | cons player rest ih =>
    cases size with
    | zero => rfl
    | succ size =>
      simp only [splitSum, ih]
      abel

theorem pickSum_zero (players : List Player) : pickSum (fun _ _ => (0 : K)) players = 0 := by
  induction players with
  | nil => rfl
  | cons player rest ih => rw [pickSum, ih, add_zero]

theorem pickSum_comm {Other : Type} (term : Player → List Player → Other → List Other → K)
    (players : List Player) (others : List Other) :
    pickSum (fun player left => pickSum (fun other right => term player left other right) others)
        players =
      pickSum (fun other right => pickSum (fun player left => term player left other right) players)
        others := by
  induction players generalizing term with
  | nil => exact (pickSum_zero others).symm
  | cons player rest ih =>
    have tail := ih fun picked left other right => term picked (player :: left) other right
    simp only [pickSum, pickSum_add]
    rw [tail]

theorem pickSum_splitSum (term : Player → List Player → List Player → K) (size : Nat)
    (players : List Player) :
    pickSum (fun player left => splitSum (term player) size left) players =
      splitSum (fun group left => pickSum (fun player mates => term player mates left) group)
        (size + 1) players := by
  induction players generalizing term size with
  | nil => rfl
  | cons player rest ih =>
    have outside := ih (fun picked mates left => term picked mates (player :: left))
    cases size with
    | zero =>
      have alone := outside 0
      simp only [splitSum] at alone
      simp only [pickSum, splitSum, alone, add_zero]
    | succ size =>
      have inside := ih (fun picked mates left => term picked (player :: mates) left) size
      simp only [pickSum, splitSum, splitSum_add, pickSum_add, outside (size + 1), inside]
      abel

variable (term : List Player → List Player → K)

theorem splitSum_short (size : Nat) (players : List Player) (short : players.length < size) :
    splitSum term size players = 0 := by
  induction players generalizing term size with
  | nil =>
    cases size with
    | zero => cases short
    | succ size => rfl
  | cons player rest ih =>
    rw [length_cons] at short
    cases size with
    | zero => cases short
    | succ size =>
      rw [splitSum, ih _ size (by omega), ih _ (size + 1) (by omega), add_zero]

theorem splitSum_everyone (players : List Player) :
    splitSum term players.length players = term players [] := by
  induction players generalizing term with
  | nil => rfl
  | cons player rest ih =>
    rw [length_cons, splitSum, ih, splitSum_short _ _ rest (lt_succ_self _), add_zero]

theorem splitSum_swap (size others : Nat) (players : List Player)
    (full : players.length = size + others) :
    splitSum term size players = splitSum (fun group left => term left group) others players := by
  induction players generalizing term size others with
  | nil =>
    obtain ⟨rfl, rfl⟩ : size = 0 ∧ others = 0 := by
      simp only [length_nil] at full
      omega
    rfl
  | cons player rest ih =>
    cases size with
    | zero =>
      rw [show others = (player :: rest).length by omega, splitSum_everyone]
      rfl
    | succ size =>
      cases others with
      | zero =>
        rw [show size + 1 = (player :: rest).length by omega, splitSum_everyone]
        rfl
      | succ others =>
        rw [length_cons] at full
        have inside := ih (fun group left => term (player :: group) left) size (others + 1)
          (by omega)
        have outside := ih (fun group left => term group (player :: left)) (size + 1) others
          (by omega)
        rw [splitSum, splitSum, inside, outside, add_comm]

end Sums

section Weighted

variable [CommSemiring K]

theorem pickSum_mul_left (factor : K) (term : Player → List Player → K) (players : List Player) :
    pickSum (fun player left => factor * term player left) players =
      factor * pickSum term players := by
  induction players generalizing term with
  | nil => simp [pickSum]
  | cons player rest ih => simp only [pickSum, ih, mul_add]

theorem splitSum_const (term : List Player → List Player → K) (size others : Nat) (value : K)
    (players : List Player) (full : players.length = size + others)
    (constant : ∀ group left, group.length = size → left.length = others →
      term group left = value) :
    splitSum term size players = (players.length.choose size : K) * value := by
  induction players generalizing term size others with
  | nil =>
    obtain ⟨rfl, rfl⟩ : size = 0 ∧ others = 0 := by
      simp only [length_nil] at full
      omega
    simp [splitSum, constant [] [] rfl rfl]
  | cons player rest ih =>
    cases size with
    | zero => simp [splitSum, constant [] (player :: rest) rfl (by omega)]
    | succ size =>
      rw [length_cons] at full
      have inside := ih (fun group left => term (player :: group) left) size others (by omega)
        (fun group left grouped remaining => constant _ _ (by simp [grouped]) remaining)
      have outside : splitSum (fun group left => term group (player :: left)) (size + 1) rest =
          (rest.length.choose (size + 1) : K) * value := by
        cases others with
        | zero => rw [splitSum_short _ _ rest (by omega), choose_eq_zero_of_lt (by omega),
            cast_zero, zero_mul]
        | succ others =>
          exact ih _ (size + 1) others (by omega)
            (fun group left grouped remaining => constant _ _ grouped (by simp [remaining]))
      rw [splitSum, inside, outside, length_cons, choose_succ_succ, cast_add, add_mul]

inductive Bracket where
  | single
  | final (left right : Bracket)
  deriving Repr, DecidableEq

/-- How many opponents a player has in the bracket. -/
def Bracket.rivals : Bracket → Nat
  | single => 0
  | final left right => left.rivals + right.rivals + 1

/-- The player wins his own group, and then the final against the winner of the other one. -/
def winsFinal (beats : Player → Player → K) (own foreign : Player → List Player → K)
    (player : Player) (mates rest : List Player) : K :=
  own player mates *
    pickSum (fun rival beaten => foreign rival beaten * beats player rival) rest

/-- The chances of `player` to win the bracket, added up over all the draws of him and
the others into its places. -/
def Bracket.wins (beats : Player → Player → K) : Bracket → Player → List Player → K
  | single => fun _ _ => 1
  | final left right => fun player others =>
    splitSum (winsFinal beats (wins beats left) (wins beats right) player) left.rivals others +
      splitSum (winsFinal beats (wins beats right) (wins beats left) player) right.rivals others

variable (beats : Player → Player → K)

theorem wins_single (player : Player) (others : List Player) :
    Bracket.single.wins beats player others = 1 := rfl

theorem wins_final (left right : Bracket) (player : Player) (others : List Player) :
    (left.final right).wins beats player others =
      splitSum (winsFinal beats (left.wins beats) (right.wins beats) player) left.rivals others +
        splitSum (winsFinal beats (right.wins beats) (left.wins beats) player) right.rivals
          others := rfl

theorem winsFinal_unordered {own foreign : Player → List Player → K} (ownSame : Unordered own)
    (foreignSame : Unordered foreign) (player : Player) (mates others rest left : List Player)
    (moved : mates.Perm others) (kept : rest.Perm left) :
    winsFinal beats own foreign player mates rest =
      winsFinal beats own foreign player others left := by
  have rivals : Unordered fun rival beaten => foreign rival beaten * beats player rival := by
    intro rival beaten other reordered
    exact congrArg (· * beats player rival) (foreignSame rival _ _ reordered)
  rw [winsFinal, winsFinal, ownSame player _ _ moved, pickSum_perm rivals kept]

theorem wins_unordered (bracket : Bracket) : Unordered (bracket.wins beats) := by
  induction bracket with
  | single => exact fun _ _ _ _ => rfl
  | final left right ihLeft ihRight =>
    intro player others permuted same
    rw [wins_final, wins_final,
      splitSum_perm (winsFinal_unordered beats ihLeft ihRight player) _ same,
      splitSum_perm (winsFinal_unordered beats ihRight ihLeft player) _ same]

theorem pickSum_winsFinal (own foreign : Player → List Player → K) (group rest : List Player) :
    pickSum (fun player mates => winsFinal beats own foreign player mates rest) group =
      pickSum (fun player mates => pickSum (fun rival beaten =>
        own player mates * (foreign rival beaten * beats player rival)) rest) group := by
  congr 1
  funext player mates
  rw [winsFinal, pickSum_mul_left]

theorem pickSum_product (first second : Player → List Player → K) (group rest : List Player) :
    pickSum (fun player mates => pickSum (fun rival beaten =>
        first player mates * second rival beaten) rest) group =
      pickSum first group * pickSum second rest := by
  rw [mul_comm, ← pickSum_mul_left]
  congr 1
  funext player mates
  rw [pickSum_mul_left, mul_comm]

section
variable (complement : ∀ first second, beats first second + beats second first = 1)
include complement

theorem winsFinal_total (left right : Player → List Player → K) (group rest : List Player) :
    pickSum (fun player mates => winsFinal beats left right player mates rest) group +
        pickSum (fun player mates => winsFinal beats right left player mates group) rest =
      pickSum left group * pickSum right rest := by
  rw [pickSum_winsFinal, pickSum_winsFinal, pickSum_comm _ rest group, ← pickSum_add,
    ← pickSum_product]
  congr 1
  funext player mates
  rw [← pickSum_add]
  congr 1
  funext rival beaten
  calc left player mates * (right rival beaten * beats player rival) +
        right rival beaten * (left player mates * beats rival player)
      = left player mates * right rival beaten *
          (beats player rival + beats rival player) := by ring
    _ = left player mates * right rival beaten := by rw [complement, mul_one]

/-- One of the players wins: the chances add up to the number of draws. -/
theorem wins_total (bracket : Bracket) (players : List Player)
    (full : players.length = bracket.rivals + 1) :
    pickSum (bracket.wins beats) players = (players.length.factorial : K) := by
  induction bracket generalizing players with
  | single =>
    obtain ⟨player, rfl⟩ := length_eq_one_iff.mp full
    simp [pickSum, wins_single]
  | final left right ihLeft ihRight =>
    rw [Bracket.rivals] at full
    have size : players.length = (left.rivals + 1) + (right.rivals + 1) := by omega
    have split : ∀ group rest : List Player, group.length = left.rivals + 1 →
        rest.length = right.rivals + 1 →
        pickSum (left.wins beats) group * pickSum (right.wins beats) rest =
          ((left.rivals + 1).factorial : K) * ((right.rivals + 1).factorial : K) := by
      intro group rest grouped remaining
      rw [ihLeft group grouped, ihRight rest remaining, grouped, remaining]
    have draws := Nat.add_choose_mul_factorial_mul_factorial (left.rivals + 1) (right.rivals + 1)
    rw [← Nat.choose_symm_add] at draws
    rw [Bracket.wins, pickSum_add, pickSum_splitSum, pickSum_splitSum,
      splitSum_swap _ (right.rivals + 1) (left.rivals + 1) players (by omega), ← splitSum_add]
    simp only [winsFinal_total beats complement]
    rw [splitSum_const _ (left.rivals + 1) (right.rivals + 1) _ players size split, size,
      ← mul_assoc]
    exact_mod_cast congrArg (Nat.cast : Nat → K) draws

end

end Weighted

section Nonneg

variable [AddCommMonoid K] [PartialOrder K] [IsOrderedAddMonoid K]

theorem pickSum_nonneg {term : Player → List Player → K}
    (nonneg : ∀ player left, 0 ≤ term player left) (players : List Player) :
    0 ≤ pickSum term players := by
  induction players generalizing term with
  | nil => exact le_refl 0
  | cons player rest ih => exact add_nonneg (nonneg player rest) (ih fun _ _ => nonneg _ _)

theorem splitSum_nonneg {term : List Player → List Player → K}
    (nonneg : ∀ group left, 0 ≤ term group left) (size : Nat) (players : List Player) :
    0 ≤ splitSum term size players := by
  induction players generalizing term size with
  | nil => cases size with
    | zero => exact nonneg [] []
    | succ size => exact le_refl 0
  | cons player rest ih => cases size with
    | zero => exact nonneg [] _
    | succ size => exact add_nonneg (ih (fun _ _ => nonneg _ _) _) (ih (fun _ _ => nonneg _ _) _)

end Nonneg

theorem wins_nonneg [CommSemiring K] [PartialOrder K] [IsOrderedRing K]
    {beats : Player → Player → K} (nonneg : ∀ first second, 0 ≤ beats first second)
    (bracket : Bracket) (player : Player) (others : List Player) :
    0 ≤ bracket.wins beats player others := by
  induction bracket generalizing player others with
  | single => exact zero_le_one
  | final left right ihLeft ihRight =>
    have final {own foreign : Player → List Player → K} (ownHas : ∀ one mates, 0 ≤ own one mates)
        (foreignHas : ∀ one mates, 0 ≤ foreign one mates) (mates rest : List Player) :
        0 ≤ winsFinal beats own foreign player mates rest :=
      mul_nonneg (ownHas _ _) (pickSum_nonneg (fun _ _ => mul_nonneg (foreignHas _ _) (nonneg _ _)) _)
    exact add_nonneg (splitSum_nonneg (final ihLeft ihRight) _ _)
      (splitSum_nonneg (final ihRight ihLeft) _ _)

end Pvpgn.Knockout
