import Pvpgn.GameSlots
import Mathlib.Data.List.Nodup
import Mathlib.Data.List.Pairwise

/-!
The status of a game (`game_set_status` of `game.cpp`) and the names of the games that can still be
joined. A game is looked up by its name when somebody creates or joins one.
-/

namespace Pvpgn.GameNames
open Stdio GameSlots List Option Function Prod

/-- The games, and when each of them was first started: 0 is not yet. -/
structure State where
  world : World
  startTime : Nat → Int

def gameSetStatus (now : Int) (game : Game) (startTime : Int) (status : GameStatus) : Game × Int :=
  if game.status = .started ∧ (status = .opened ∨ status = .full ∨ status = .loaded) then
    (game, startTime)
  else if game.status = .done ∧ status ≠ .done then (game, startTime)
  else ({ game with status }, if status = .started ∧ startTime = 0 then now else startTime)

inductive Event
  | call (call : Call)
  | setStatus (now : Int) (game : Option Nat) (status : GameStatus)

/-- `game_create` clears the start time. -/
def created (state : State) : Call → Nat → Int
  | .create address name pass info type clienttag =>
    if (gameCreate state.world address name pass info type clienttag).1.isSome then
      update state.startTime address 0
    else state.startTime
  | _ => state.startTime

def step (connection : Nat → Connection) (state : State) : Event → Option State
  | .call call => do
    let (_, world) ← GameSlots.step connection state.world call
    some ⟨world, created state call⟩
  | .setStatus _ none _ => some state
  | .setStatus now (some address) status => do
    let game ← gameAt state.world address
    let (game, startTime) := gameSetStatus now game (state.startTime address) status
    some ⟨putGame state.world address game, update state.startTime address startTime⟩

def Fresh (world : World) : Event → Prop
  | .call (.create address ..) => address ∉ world.gamelist.map fst
  | _ => True

inductive Reached (connection : Nat → Connection) : State → Prop
  | start (startTime : Nat → Int) : Reached connection ⟨⟨[], 0, []⟩, startTime⟩
  | step {state after : State} {event : Event} (before : Reached connection state)
      (fresh : Fresh state.world event) (ran : step connection state event = some after) :
      Reached connection after

def Available (game : Game) : Prop := game.status ≠ .started ∧ game.status ≠ .done

instance (game : Game) : Decidable (Available game) := inferInstanceAs (Decidable (_ ∧ _))

def title (game : Game) : Text × UInt32 := (game.name.map tolower, game.clienttag)

/-- A later state of the same game: it has its title, and it is not available again. -/
structure Ages (game later : Game) : Prop where
  title : title later = title game
  available : Available later → Available game

theorem ages_refl (game : Game) : Ages game game := ⟨rfl, id⟩

theorem ages_trans {first second third : Game} (before : Ages first second)
    (after : Ages second third) : Ages first third :=
  ⟨after.title.trans before.title, fun available => before.available (after.available available)⟩

theorem ages_of_same {game later : Game} (name : later.name = game.name)
    (clienttag : later.clienttag = game.clienttag) (status : later.status = game.status) :
    Ages game later := by
  constructor
  · simp only [title, name, clienttag]
  · intro available
    simpa only [Available, status] using available

section Games
variable {connection : Nat → Connection} {game later : Game}

theorem set_status_ages (now startTime : Int) (game : Game) (status : GameStatus) :
    Ages game (gameSetStatus now game startTime status).1 := by
  constructor
  · unfold gameSetStatus
    split_ifs <;> rfl
  by_cases started : game.status = .started ∧ (status = .opened ∨ status = .full ∨ status = .loaded)
  · rw [gameSetStatus, if_pos started]
    exact id
  by_cases done : game.status = .done ∧ status ≠ .done
  · rw [gameSetStatus, if_neg started, if_pos done]
    exact id
  rw [gameSetStatus, if_neg started, if_neg done]
  rintro ⟨notStarted, notDone⟩
  constructor
  · intro was
    -- no status is left for a game that was started
    cases status <;> simp_all
  · intro was
    exact done ⟨was, notDone⟩

theorem choose_host_ages (chosen : gameChooseHost connection game = some later) :
    Ages game later := by
  unfold gameChooseHost at chosen
  split_ifs at chosen
  · cases chosen
    exact ages_refl game
  cases connections : game.connections with
  | none =>
    rw [connections] at chosen
    cases chosen
    exact ages_refl game
  | some slots =>
    simp only [connections, bind_eq_bind, bind_eq_some_iff] at chosen
    obtain ⟨host, _, chosen⟩ := chosen
    cases host <;> cases chosen <;> exact ages_of_same rfl rfl rfl

variable {c : Nat}

theorem refill_slot_ages {i : Nat} (refilled : refillSlot connection game i c = some later) :
    Ages game later := by
  simp only [refillSlot, bind_eq_bind, bind_eq_some_iff] at refilled
  obtain ⟨_, _, _, _, _, _, _, _, _, _, _, _, refilled⟩ := refilled
  cases refilled
  exact ages_of_same rfl rfl rfl

theorem add_slot_ages (added : addSlot connection game c = some later) : Ages game later := by
  simp only [addSlot, bind_eq_bind, bind_eq_some_iff] at added
  obtain ⟨_, _, _, _, _, _, _, _, _, _, _, _, added⟩ := added
  cases added
  exact ages_of_same rfl rfl rfl

theorem take_slot_ages {i : Nat} (taken : takeSlot connection game i c = some later) :
    Ages game later := by
  unfold takeSlot at taken
  split_ifs at taken
  · exact add_slot_ages taken
  · exact refill_slot_ages taken
  · cases taken
    exact ages_refl game

theorem add_player_ages {normalWins : Nat} {pass : Option Text} {startver code : Int}
    (added : gameAddPlayer connection normalWins game pass startver c = some (code, later)) :
    Ages game later := by
  unfold gameAddPlayer at added
  split_ifs at added
  · cases added
    exact ages_refl game
  simp only [bind_eq_bind, bind_eq_some_iff] at added
  obtain ⟨i, _, taken, took, chosen, chose, result⟩ := added
  cases result
  exact ages_trans (take_slot_ages took) (choose_host_ages chose)

theorem del_player_ages {code : Int}
    (left : gameDelPlayer connection game c = some (code, .kept later)) : Ages game later := by
  unfold gameDelPlayer at left
  split at left
  · cases left
    exact ages_refl game
  · cases left
    exact ages_refl game
  simp only [bind_eq_bind, bind_eq_some_iff] at left
  obtain ⟨found, _, left⟩ := left
  cases found with
  | none =>
    cases left
    exact ages_refl game
  | some i =>
    simp only [bind_eq_some_iff] at left
    obtain ⟨connections, _, _, _, left⟩ := left
    split_ifs at left
    · cases left
    simp only [bind_eq_some_iff] at left
    obtain ⟨chosen, chose, left⟩ := left
    cases left
    have vacated : Ages game { game with
        connections := some connections, ref := game.ref - 1 } := ages_of_same rfl rfl rfl
    exact ages_trans vacated (choose_host_ages chose)

end Games

def Apart (first second : Nat × Game) : Prop :=
  Available first.2 → Available second.2 → title first.2 ≠ title second.2

instance : Std.Symm Apart :=
  ⟨fun _ _ apart secondOpen firstOpen same => apart firstOpen secondOpen same.symm⟩

structure Unambiguous (world : World) : Prop where
  addresses : (world.gamelist.map fst).Nodup
  titles : world.gamelist.Pairwise Apart

section Worlds
variable {connection : Nat → Connection} {world : World}

variable {address : Nat} {clienttag : UInt32} {name : Text} {type : GameType}

theorem put_unambiguous (unambiguous : Unambiguous world) {game later : Game}
    (present : gameAt world address = some game) (ages : Ages game later) :
    Unambiguous (putGame world address later) := by
  -- every entry is followed by a later state of its game
  have follows : ∀ entry ∈ world.gamelist,
      Ages entry.2 (if entry.1 = address then (address, later) else entry).2 := by
    intro entry member
    by_cases hit : entry.1 = address
    · subst hit
      have own := game_at_mem unambiguous.addresses member
      obtain rfl : game = entry.2 := Option.some.inj (present.symm.trans own)
      simpa using ages
    · simpa [hit] using ages_refl entry.2
  constructor
  · rw [put_addresses]
    exact unambiguous.addresses
  refine pairwise_map.mpr (unambiguous.titles.imp_of_mem ?_)
  intro first second firstIn secondIn apart firstOpen secondOpen same
  have firstAges := follows first firstIn
  have secondAges := follows second secondIn
  apply apart (firstAges.available firstOpen) (secondAges.available secondOpen)
  rw [← firstAges.title, ← secondAges.title]
  exact same

theorem drop_unambiguous (unambiguous : Unambiguous world) (address : Nat) :
    Unambiguous (dropGame world address) := by
  constructor
  · exact unambiguous.addresses.sublist (filter_sublist.map fst)
  · exact unambiguous.titles.sublist filter_sublist

theorem find_available_hit (name : Text) (clienttag : UInt32) (type : GameType)
    (entry : Nat × Game) :
    ((type = GameType.all || entry.2.type = type) && clienttag = entry.2.clienttag &&
      sameCaseless name entry.2.name && entry.2.status ≠ GameStatus.started &&
      entry.2.status ≠ GameStatus.done) = true ↔
      Available entry.2 ∧ title entry.2 = (name.map tolower, clienttag) ∧
        (type = .all ∨ entry.2.type = type) := by
  simp only [Available, title, sameCaseless, mk.injEq, Bool.and_eq_true, Bool.or_eq_true,
    decide_eq_true_eq]
  constructor
  · rintro ⟨⟨⟨⟨kind, tag⟩, same⟩, started⟩, done⟩
    exact ⟨⟨started, done⟩, ⟨same.symm, tag.symm⟩, kind⟩
  · rintro ⟨⟨started, done⟩, ⟨same, tag⟩, kind⟩
    exact ⟨⟨⟨⟨kind, tag.symm⟩, same.symm⟩, started⟩, done⟩

theorem find_available_none
    (missed : gamelistFindGameAvailable world.gamelist name clienttag type = none) :
    ∀ entry ∈ world.gamelist, Available entry.2 →
      title entry.2 = (name.map tolower, clienttag) → ¬(type = .all ∨ entry.2.type = type) := by
  intro entry member available same kind
  rw [gamelistFindGameAvailable, map_eq_none_iff, find?_eq_none] at missed
  exact missed entry member
    ((find_available_hit name clienttag type entry).mpr ⟨available, same, kind⟩)

theorem find_available_some
    (found : gamelistFindGameAvailable world.gamelist name clienttag type = some address) :
    ∃ game, (address, game) ∈ world.gamelist ∧ Available game ∧
      title game = (name.map tolower, clienttag) ∧ (type = .all ∨ game.type = type) := by
  obtain ⟨entry, hit, rfl⟩ := map_eq_some_iff.mp found
  have fits := find?_some hit
  exact ⟨entry.2, mem_of_find?_eq_some hit, (find_available_hit name clienttag type entry).mp fits⟩

theorem create_unambiguous (unambiguous : Unambiguous world)
    (fresh : address ∉ world.gamelist.map fst) (name pass info : Option Text) (type : GameType)
    (clienttag : UInt32) :
    Unambiguous (gameCreate world address name pass info type clienttag).2 := by
  unfold gameCreate
  split
  · split_ifs with found unknown
    · exact unambiguous
    · exact unambiguous
    have missed := find_available_none (not_isSome_iff_eq_none.mp found)
    constructor
    · exact nodup_cons.mpr ⟨fresh, unambiguous.addresses⟩
    · refine pairwise_cons.mpr ⟨?_, unambiguous.titles⟩
      intro entry member _ available same
      exact missed entry member available same.symm (Or.inl rfl)
  · exact unambiguous

theorem call_unambiguous (unambiguous : Unambiguous world) {call : Call} {code : Int}
    {after : World} (fresh : Fresh world (.call call))
    (ran : GameSlots.step connection world call = some (code, after)) : Unambiguous after := by
  cases call with
  | create address name pass info type clienttag =>
    cases ran
    exact create_unambiguous unambiguous fresh name pass info type clienttag
  | add address normalWins pass startver c =>
    simp only [GameSlots.step, bind_eq_bind, bind_eq_some_iff] at ran
    obtain ⟨game, present, ⟨_, later⟩, added, result⟩ := ran
    cases result
    exact put_unambiguous unambiguous present (add_player_ages added)
  | del address c =>
    simp only [GameSlots.step, bind_eq_bind, bind_eq_some_iff] at ran
    obtain ⟨game, present, ⟨_, left⟩, deleted, result⟩ := ran
    cases left with
    | kept later =>
      cases result
      exact put_unambiguous unambiguous present (del_player_ages deleted)
    | gone _ =>
      cases result
      exact drop_unambiguous unambiguous address

theorem reached_unambiguous {state : State} (reached : Reached connection state) :
    Unambiguous state.world := by
  induction reached with
  | start startTime => exact ⟨nodup_nil, List.Pairwise.nil⟩
  | @step state after event before fresh ran ih =>
    cases event with
    | call call =>
      simp only [step, bind_eq_bind, bind_eq_some_iff] at ran
      obtain ⟨⟨_, world⟩, called, result⟩ := ran
      cases result
      exact call_unambiguous ih fresh called
    | setStatus now game status =>
      cases game with
      | none =>
        cases ran
        exact ih
      | some address =>
        simp only [step, bind_eq_bind, bind_eq_some_iff] at ran
        obtain ⟨game, present, result⟩ := ran
        cases result
        exact put_unambiguous ih present (set_status_ages now _ game status)

theorem title_unique (unambiguous : Unambiguous world) {first second : Nat × Game}
    (firstIn : first ∈ world.gamelist) (secondIn : second ∈ world.gamelist)
    (firstOpen : Available first.2) (secondOpen : Available second.2)
    (same : title first.2 = title second.2) : first = second := by
  by_contra distinct
  exact unambiguous.titles.forall firstIn secondIn distinct firstOpen secondOpen same

theorem titled_length (unambiguous : Unambiguous world) (key : Text × UInt32) :
    (world.gamelist.filter fun entry => Available entry.2 ∧ title entry.2 = key).length ≤ 1 := by
  have titled : ∀ entry ∈ world.gamelist.filter fun entry =>
      Available entry.2 ∧ title entry.2 = key,
      entry ∈ world.gamelist ∧ Available entry.2 ∧ title entry.2 = key := by
    intro entry member
    simpa using mem_filter.mp member
  have distinct := (Nodup.of_map fst unambiguous.addresses).filter fun entry =>
    Available entry.2 ∧ title entry.2 = key
  generalize (world.gamelist.filter fun entry =>
    Available entry.2 ∧ title entry.2 = key) = kept at titled distinct ⊢
  match kept with
  | [] => exact Nat.zero_le 1
  | [_] => exact Nat.le_refl 1
  | first :: second :: rest =>
    obtain ⟨firstIn, firstOpen, firstKey⟩ := titled first (by simp)
    obtain ⟨secondIn, secondOpen, secondKey⟩ := titled second (by simp)
    have same := title_unique unambiguous firstIn secondIn firstOpen secondOpen
      (firstKey.trans secondKey.symm)
    exact absurd same (rel_of_pairwise_cons distinct mem_cons_self)

/-- At most one listed game of a title is available, whatever the case of its name, and a search
for that title finds it. -/
theorem available_titles_unique {state : State} (reached : Reached connection state)
    (name : Text) (clienttag : UInt32) :
    (state.world.gamelist.filter fun entry =>
      Available entry.2 ∧ title entry.2 = (name.map tolower, clienttag)).length ≤ 1 ∧
    ∀ (type : GameType) (address : Nat),
      gamelistFindGameAvailable state.world.gamelist name clienttag type = some address ↔
        ∃ game, (address, game) ∈ state.world.gamelist ∧ Available game ∧
          title game = (name.map tolower, clienttag) ∧ (type = .all ∨ game.type = type) := by
  have unambiguous := reached_unambiguous reached
  refine ⟨titled_length unambiguous _, fun type address => ⟨find_available_some, ?_⟩⟩
  rintro ⟨game, member, available, same, kind⟩
  cases found : gamelistFindGameAvailable state.world.gamelist name clienttag type with
  | none => exact absurd kind (find_available_none found _ member available same)
  | some other =>
    obtain ⟨second, secondIn, secondOpen, secondSame, _⟩ := find_available_some found
    have one := title_unique unambiguous member secondIn available secondOpen
      (same.trans secondSame.symm)
    rw [(mk.inj one).1]

end Worlds

def nameTaken : State :=
  ⟨⟨[(8, { emptyGame with name := [65], id := 2 }), (7, { emptyGame with status := .started })],
    2, []⟩,
    update (update (update (fun _ => 0) 7 0) 7 100) 8 0⟩

theorem name_taken_reached : Reached guest nameTaken := by
  have opened : Reached guest ⟨lobby emptyGame, update (fun _ => 0) 7 0⟩ :=
    .step (.start fun _ => 0) (by simp [Fresh, openGame])
      (show step guest _ (.call openGame) = some _ from rfl)
  have started : Reached guest ⟨lobby { emptyGame with status := .started },
      update (update (fun _ => 0) 7 0) 7 100⟩ :=
    .step opened (show Fresh _ (.setStatus 100 (some 7) .started) from trivial)
      (show step guest _ (.setStatus 100 (some 7) .started) = some _ from rfl)
  exact .step started (show Fresh _ (.call (.create 8 (some [65]) (some []) (some []) .melee 1))
      from by simp [Fresh, lobby])
    (show step guest _ (.call (.create 8 (some [65]) (some []) (some []) .melee 1)) = some _
      from rfl)

/-- The name of a started game can be used again, in another case. -/
theorem started_name_free :
    (nameTaken.world.gamelist.filter fun entry =>
      Available entry.2 ∧ title entry.2 = ([97].map tolower, 1)).length ≤ 1 ∧
    (gamelistFindGameAvailable nameTaken.world.gamelist [97] 1 .all = some 8 ↔
      ∃ game, (8, game) ∈ nameTaken.world.gamelist ∧ Available game ∧
        title game = ([97].map tolower, 1) ∧ (GameType.all = .all ∨ game.type = .all)) := by
  have unique := available_titles_unique name_taken_reached [97] 1
  exact ⟨unique.1, unique.2 .all 8⟩

end Pvpgn.GameNames
