import Pvpgn.CyclicCursor
import Pvpgn.RealmServer

/-!
The loop of `on_client_gamelistreq`, which goes on behind the cursor that the last request has left
and wraps at the end of the list of games.
-/

namespace Pvpgn.RealmCursor
open Stdio ObjectList RealmServer CyclicCursor List Option
open LinkedList (Cursor)

section Scans

/-- The games that a request reads, until the ones in the reply are as many as the limit. -/
def scan (accept : Nat → Bool) (limit : UInt32) : UInt32 → List Nat → Option Nat × List Nat
  | _, [] => (none, [])
  | count, curr :: rest =>
    let count := if accept curr then count + 1 else count
    if accept curr ∧ limit ≠ 0 ∧ count ≥ limit then (some curr, [curr])
    else
      let (last, examined) := scan accept limit count rest
      (last, curr :: examined)

variable (accept : Nat → Bool) (limit : UInt32)

theorem scan_split (count : UInt32) (elems : List Nat) :
    scan accept limit count elems = (none, elems) ∨ ∃ front back place,
      elems = front ++ place :: back ∧
        scan accept limit count elems = (some place, front ++ [place]) := by
  induction elems generalizing count with
  | nil => exact Or.inl rfl
  | cons curr rest ih =>
    simp only [scan]
    generalize (if accept curr then count + 1 else count) = later
    by_cases full : accept curr = true ∧ limit ≠ 0 ∧ later ≥ limit
    · exact Or.inr ⟨[], rest, curr, rfl, if_pos full⟩
    rw [if_neg full]
    rcases ih later with through | ⟨front, back, place, split, cut⟩
    · exact Or.inl (by rw [through])
    · exact Or.inr ⟨curr :: front, back, place, by rw [split]; rfl, by rw [cut]; rfl⟩

theorem scan_full (count : UInt32) (room : limit ≠ 0 → count < limit) (elems : List Nat) :
    (scan accept limit count elems).1.isSome ↔
      limit ≠ 0 ∧ limit.toNat ≤ count.toNat + elems.countP accept := by
  induction elems generalizing count with
  | nil =>
    simp only [scan, isSome_none, Bool.false_eq_true, countP_nil, false_iff, not_and]
    intro limited
    have small := UInt32.lt_iff_toNat_lt.mp (room limited)
    omega
  | cons curr rest ih =>
    rw [scan, countP_cons]
    by_cases hit : accept curr = true
    · by_cases limited : limit = 0
      · have through := ih (count + 1) (absurd limited)
        simp [hit, limited] at through ⊢
        exact through
      have small := UInt32.lt_iff_toNat_lt.mp (room limited)
      have bound := limit.toNat_lt
      have next : (count + 1).toNat = count.toNat + 1 := by
        exact Nat.mod_eq_of_lt (by simp; omega)
      by_cases full : count + 1 ≥ limit
      · have reached := UInt32.le_iff_toNat_le.mp full
        simp only [hit, if_true, limited, ne_eq, not_false_iff, full, and_self,
          isSome_some, true_and, true_iff]
        omega
      · have through := ih (count + 1) fun _ => UInt32.not_le.mp full
        simp only [hit, if_true, limited, ne_eq, not_false_iff, full, and_false, if_false,
          true_and] at through ⊢
        rw [through]
        omega
    · have through := ih count room
      simp [hit] at through ⊢
      exact through

end Scans

section Loops
variable (env : Env) (conn : Connection) {world : World}

def accepts (world : World) (address : Nat) : Bool :=
  (find world.games address).any (offered env conn)

theorem loop_ahead (before todo after : List Nat)
    (elems : addresses world.games = before ++ todo ++ after)
    (distinct : (addresses world.games).Nodup) (rounds : Nat) (enough : todo.length < rounds)
    (count : UInt32) :
    gamelistLoop env conn world after.head? rounds (todo ++ after).head? count =
      let (last, examined) := scan (accepts env conn world) env.prefs.maxgamelist count todo
      some (last.or after.head?, examined) := by
  induction rounds generalizing before todo count with
  | zero => omega
  | succ rounds ih =>
    rw [gamelistLoop]
    cases todo with
    | nil => simp [scan]
    | cons curr rest =>
      have listed : curr ∈ addresses world.games := by simp [elems]
      have apart : some curr ≠ after.head? := by
        intro same
        have inside := mem_of_head? same.symm
        rw [elems] at distinct
        exact (nodup_append.mp distinct).2.2 curr (by simp) curr inside rfl
      have following : next (addresses world.games) (.elem curr) = some (rest ++ after).head? := by
        have split : addresses world.games = before ++ curr :: (rest ++ after) := by
          simp [elems]
        rw [split] at distinct ⊢
        exact next_elem distinct
      obtain ⟨game, found⟩ := find_listed listed
      have accepted : accepts env conn world curr = offered env conn game := by
        rw [accepts, found, any_some]
      have further := ih (before ++ [curr]) rest (by simp [elems])
        (by simp only [length_cons] at enough; omega)
      simp only [cons_append, head?_cons, some_or, apart, if_false, found,
        bind_eq_bind, bind_some, scan, accepted, following]
      generalize (if offered env conn game then count + 1 else count) = later
      by_cases full : offered env conn game = true ∧ env.prefs.maxgamelist ≠ 0 ∧
          later ≥ env.prefs.maxgamelist
      · simp only [if_pos full, some_or]
      · simp only [if_neg full, further, bind_some]

theorem loop_wrap {start : Option Nat} (started : start ≠ none) (rounds : Nat) (count : UInt32)
    (some_ : (addresses world.games).head? ≠ none) :
    gamelistLoop env conn world start (rounds + 1) none count =
      gamelistLoop env conn world start (rounds + 1) (addresses world.games).head? count := by
  obtain ⟨first, head⟩ := ne_none_iff_exists'.mp some_
  rw [gamelistLoop, gamelistLoop, if_neg (Ne.symm started), head]
  by_cases here : some first = start
  · simp [here]
  · simp [here]

theorem loop_behind (front done todo : List Nat) {place : Nat}
    (elems : addresses world.games = front ++ place :: (done ++ todo))
    (distinct : (addresses world.games).Nodup) (rounds : Nat)
    (enough : todo.length + front.length < rounds) (count : UInt32) :
    gamelistLoop env conn world (some place) rounds todo.head? count =
      let (last, examined) :=
        scan (accepts env conn world) env.prefs.maxgamelist count (todo ++ front)
      some (last.or (some place), examined) := by
  induction rounds generalizing done todo count with
  | zero => omega
  | succ rounds ih =>
    cases todo with
    | nil =>
      rw [head?_nil, loop_wrap env conn (by simp) rounds count (by simp [elems]), elems, append_nil]
      exact loop_ahead env conn [] front (place :: done) (by simp [elems])
        distinct (rounds + 1) (by simp at enough; omega) count
    | cons curr rest =>
      have listed : curr ∈ addresses world.games := by simp [elems]
      have split : addresses world.games = (front ++ place :: done) ++ curr :: rest := by
        simp [elems]
      have apart : curr ≠ place := by
        rintro rfl
        rw [split] at distinct
        exact (nodup_append.mp distinct).2.2 curr (by simp) curr (by simp) rfl
      have following : next (addresses world.games) (.elem curr) = some rest.head? := by
        rw [split] at distinct ⊢
        exact next_elem distinct
      obtain ⟨game, found⟩ := find_listed listed
      have accepted : accepts env conn world curr = offered env conn game := by
        rw [accepts, found, any_some]
      have further := ih (done ++ [curr]) rest (by simp [elems])
        (by simp only [length_cons] at enough; omega)
      rw [gamelistLoop]
      simp only [cons_append, head?_cons, some_or, Option.some.injEq, apart,
        if_false, found, bind_eq_bind, bind_some, scan, accepted, following]
      generalize (if offered env conn game then count + 1 else count) = later
      by_cases full : offered env conn game = true ∧ env.prefs.maxgamelist ≠ 0 ∧
          later ≥ env.prefs.maxgamelist
      · simp only [if_pos full, some_or]
      · simp only [if_neg full, further, bind_some]

end Loops

section Requests
variable (env : Env) (conn : Connection) {world : World}

/-- A request fills its reply without the game of the cursor. -/
def Fills (world : World) : Prop :=
  env.prefs.maxgamelist ≠ 0 ∧ env.prefs.maxgamelist.toNat ≤ world.games.countP fun entry =>
    some entry.1 ≠ world.currElem ∧ offered env conn entry.2

section
variable (distinct : (addresses world.games).Nodup)
  (listed : Listed (addresses world.games) world.currElem)
include distinct listed

theorem accepted_count :
    (route (addresses world.games) world.currElem).countP (accepts env conn world) =
      world.games.countP fun entry => some entry.1 ≠ world.currElem ∧ offered env conn entry.2 := by
  have counted (elems : List Nat) := countP_congr (l := elems)
    (p := accepts env conn world)
    (q := fun elem => decide (some elem ≠ world.currElem ∧ accepts env conn world elem = true))
  have apart := (route_distinct listed distinct).2
  calc (route (addresses world.games) world.currElem).countP (accepts env conn world)
    _ = (route (addresses world.games) world.currElem).countP fun elem =>
          decide (some elem ≠ world.currElem ∧ accepts env conn world elem = true) := by
        apply counted
        intro elem member
        have other : some elem ≠ world.currElem := fun same => apart elem same.symm member
        simp [other]
    _ = (cycle (addresses world.games) world.currElem).countP fun elem =>
          decide (some elem ≠ world.currElem ∧ accepts env conn world elem = true) := by
        rw [cycle, countP_append]
        cases world.currElem <;> simp
    _ = (addresses world.games).countP fun elem =>
          decide (some elem ≠ world.currElem ∧ accepts env conn world elem = true) :=
        (cycle_perm listed).countP_eq _
    _ = _ := by
        rw [addresses, countP_map]
        apply countP_congr
        intro entry member
        have found := mem_find distinct member
        simp [accepts, found]

theorem request_reads :
    ∃ last examined,
      onClientGamelistreq env world conn = some ({ world with currElem := last }, examined) ∧
      Reading (addresses world.games) world.currElem examined last ∧
      (last ≠ world.currElem ↔ Fills env conn world) := by
  have ran : onClientGamelistreq env world conn =
      let (last, examined) := scan (accepts env conn world) env.prefs.maxgamelist 0
        (route (addresses world.games) world.currElem)
      some ({ world with currElem := last.or world.currElem }, examined) := by
    rw [onClientGamelistreq]
    cases start : world.currElem with
    | none =>
      have loop := loop_ahead env conn [] (addresses world.games) [] (by simp)
        distinct (world.games.length + 2) (by simp [addresses]) 0
      simp only [append_nil, head?_nil] at loop
      simp only [bind_eq_bind, bind_some, loop, route]
    | some place =>
      obtain ⟨front, back, elems, absent⟩ := eq_append_cons_of_mem (listed place start)
      have following : next (addresses world.games) (.elem place) = some back.head? := by
        rw [elems] at distinct ⊢
        exact next_elem distinct
      have sizes := congrArg length elems
      simp only [addresses, length_map, length_append, length_cons] at sizes
      have loop := loop_behind env conn front [] back elems distinct
        (world.games.length + 2) (by omega) 0
      simp only [following, bind_eq_bind, bind_some, loop]
      rw [elems, route_split absent]
  have full := scan_full (accepts env conn world) env.prefs.maxgamelist 0
    (fun limited => UInt32.pos_iff_ne_zero.mpr limited)
    (route (addresses world.games) world.currElem)
  rw [accepted_count env conn distinct listed] at full
  rcases scan_split (accepts env conn world) env.prefs.maxgamelist 0
    (route (addresses world.games) world.currElem) with through | ⟨front, back, place, split, cut⟩
  · rw [through] at ran full
    refine ⟨_, _, ran, .whole, ?_⟩
    simpa [Fills] using full
  rw [cut] at ran full
  refine ⟨_, _, ran, .stopped split, ?_⟩
  have moved : some place ≠ world.currElem := by
    intro same
    apply (route_distinct listed distinct).2 place same.symm
    rw [split]
    simp
  simpa [Fills, moved] using full

end

end Requests

end Pvpgn.RealmCursor
