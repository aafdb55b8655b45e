import Pvpgn.ClanMembers
import Pvpgn.LinkedList

/-!
Saving the clans (`clanlist_save`). A traversal of the clan list saves the modified clans, and
`clan_save` takes a clan that was never completed off the same list. An access to a freed element
or clan is `none`.
-/

namespace Pvpgn.ClanlistSave
open LinkedMemory LinkedList ClanMembers List Option Prod

/-- The element that a removal leaves is a local one. -/
def clanlistRemoveClan (list : ListState Nat) (clan : Nat) : Option (Int × ListState Nat) := do
  let (list, _, result) ← listRemoveData list clan
  some (if result < 0 then -1 else 0, list)

/-- `clanlist` of the world follows the linked list. -/
def clanSave (list : ListState Nat) (world : World) (clan : Nat) :
    Option (ListState Nat × World) := do
  let record ← load world.clans clan
  if record.created ≤ 0 then
    if world.now - record.creationTime > 120 then do
      let (_, list) ← clanlistRemoveClan list clan
      let world ← clanDestroy (ClanMembers.clanlistRemoveClan world clan).2 clan
      some (list, world)
    else some (list, world)
  else do
    let clans ← store world.clans clan { record with modified := false }
    some (list, { world with clans, stored := world.stored ++ [.writeClan clan] })

def saveModified (list : ListState Nat) (world : World) (clan : Nat) :
    Option (ListState Nat × World) := do
  let record ← load world.clans clan
  if record.modified then clanSave list world clan else some (list, world)

/-- LIST_TRAVERSE over the clans. The result names the clans that were visited. -/
def saveClans : Nat → ListState Nat → World → Option Nat → Option (ListState Nat × World × List Nat)
  | _, list, world, none => some (list, world, [])
  | 0, _, _, some _ => none
  | rounds + 1, list, world, some curr => do
    let elem ← load list.memory curr
    let (list, world) ← saveModified list world elem.data
    -- The cursor is still the element of the clan, also behind a removal.
    let following ← elemGetNext list (.elem curr)
    let (last, world, visited) ← saveClans rounds list world following
    some (last, world, elem.data :: visited)

def clanlistSave (rounds : Nat) (clanlistHead : Option (ListState Nat)) (world : World) :
    Option (Option (ListState Nat) × World × List Nat) :=
  match clanlistHead with
  | none => some (none, world, [])
  | some list =>
    (saveClans rounds list world list.head).map fun (last, world, visited) =>
      (some last, world, visited)

/-! What a save is meant to do. -/

def isExpired (now : Int) (record : Clan) : Bool :=
  record.modified && record.created ≤ 0 && now - record.creationTime > 120

def expired (world : World) (clan : Nat) : Bool := (load world.clans clan).any (isExpired world.now)

def written (world : World) (clan : Nat) : Bool :=
  (load world.clans clan).any fun record => record.modified && 0 < record.created

structure Listed (list : ListState Nat) (items : List (Nat × Nat)) (world : World) : Prop where
  holds : Holds list items
  once : (items.map snd).Nodup
  allocated : ∀ item ∈ items, Allocated world.clans item.2

/-- Every clan is visited once, the completed ones that changed are written, and those that
expired are gone from the list and from memory. -/
structure Saved (items : List (Nat × Nat)) (world : World) (last : ListState Nat) (after : World)
    (visited : List Nat) : Prop where
  visited : visited = items.map snd
  stored : after.stored = world.stored ++ ((items.map snd).filter (written world)).map .writeClan
  left : Holds last (items.filter fun item => !expired world item.2)
  freed : ∀ item ∈ items, load after.clans item.2 = none ↔ expired world item.2 = true

variable {clan : Nat} {record : Clan}

section Rounds
variable (list : ListState Nat) {world : World}

section
variable (present : load world.clans clan = some record)
  (young : isExpired world.now record = false)
include present young

theorem save_keeps (modified : record.modified = true) :
    ∃ after, clanSave list world clan = some (list, after) ∧ after.now = world.now ∧
      (∀ other, other ≠ clan → load after.clans other = load world.clans other) ∧
      (∃ kept, load after.clans clan = some kept) ∧
      after.stored = world.stored ++ ([clan].filter (written world)).map .writeClan := by
  by_cases unfinished : record.created ≤ 0
  · have fresh : ¬world.now - record.creationTime > 120 := by
      simpa [isExpired, modified, unfinished] using young
    refine ⟨world, ?_, rfl, fun _ _ => rfl, ⟨record, present⟩, ?_⟩
    · simp [clanSave, present, unfinished, fresh]
    · have none : written world clan = false := by simp [written, present, unfinished]
      simp [none]
  have kept := store_allocated world.clans clan record { record with modified := false } present
  refine ⟨{ world with
    clans := world.clans.insert clan { record with modified := false }
    stored := world.stored ++ [.writeClan clan] }, ?_, rfl, ?_,
    ⟨{ record with modified := false }, ?_⟩, ?_⟩
  · simp only [clanSave, present, kept, if_neg unfinished, bind_eq_bind, bind_some]
  · intro other apart
    rw [load_insert, if_neg apart]
  · rw [load_insert, if_pos rfl]
  · have one : written world clan = true := by
      simp only [written, present, any_some, modified, Bool.true_and, decide_eq_true_eq]
      omega
    simp [one]

theorem round_keeps :
    ∃ after, saveModified list world clan = some (list, after) ∧ after.now = world.now ∧
      (∀ other, other ≠ clan → load after.clans other = load world.clans other) ∧
      (∃ kept, load after.clans clan = some kept) ∧
      after.stored = world.stored ++ ([clan].filter (written world)).map .writeClan := by
  rw [saveModified, present, bind_eq_bind, bind_some]
  by_cases modified : record.modified = true
  · rw [if_pos modified]
    exact save_keeps list present young modified
  · have none : written world clan = false := by simp [written, present, modified]
    exact ⟨world, if_neg modified, rfl, fun _ _ => rfl, ⟨record, present⟩, by simp [none]⟩

end

variable (front back : List (Nat × Nat)) (item : Nat × Nat)

theorem removal_frees (holds : Holds list (front ++ item :: back))
    (once : ((front ++ item :: back).map snd).Nodup) :
    ∃ after, clanlistRemoveClan list item.2 = some (0, after) ∧
      load after.memory item.1 = none := by
  have search := get_elem_finds list _ item.2 holds
  have missed : ∀ other ∈ front, ¬decide (other.2 = item.2) = true := by
    intro other member same
    rw [map_append, map_cons] at once
    have apart := (nodup_append.mp once).2.2 other.2 (List.mem_map_of_mem member) item.2
      mem_cons_self
    exact apart (by simpa using same)
  rw [find?_append, find?_eq_none.mpr missed, none_or,
    find?_cons_of_pos (by simp), map_some] at search
  have valid := holds.1
  rw [map_append, map_cons] at valid
  obtain ⟨after, removed, -, freed, -⟩ := remove_links list _ _ item.1 valid
  exact ⟨after, by simp [clanlistRemoveClan, listRemoveData, search, removed], freed⟩

theorem expired_faults (record : Clan) (holds : Holds list (front ++ item :: back))
    (once : ((front ++ item :: back).map snd).Nodup)
    (present : load world.clans item.2 = some record) (old : isExpired world.now record = true)
    (rounds : Nat) : saveClans rounds list world (some item.1) = none := by
  cases rounds with
  | zero => rfl
  | succ rounds =>
    have found := holds.2 item (by simp)
    rw [dataAt, map_eq_some_iff] at found
    obtain ⟨elem, listed, content⟩ := found
    obtain ⟨after, removed, freed⟩ := removal_frees list front back item holds once
    simp only [isExpired, Bool.and_eq_true, decide_eq_true_eq] at old
    obtain ⟨⟨modified, unfinished⟩, late⟩ := old
    have stuck : elemGetNext after (.elem item.1) = none := by simp [elemGetNext, freed]
    simp only [saveClans, listed, content, saveModified, present, modified, clanSave, unfinished,
      late, removed, if_true, bind_eq_bind, bind_some]
    -- `clan_destroy` may go wrong before; if it does not, the element is read.
    cases clanDestroy (ClanMembers.clanlistRemoveClan world item.2).2 item.2 with
    | none => rfl
    | some destroyed => simp [stuck]

theorem next_listed (holds : Holds list (front ++ item :: back)) :
    elemGetNext list (.elem item.1) = some (back.map fst).head? := by
  have valid := holds.1
  rw [append_cons, map_append] at valid
  simpa [cursorBehind] using next_resumes list _ _ valid

end Rounds

section Runs
variable {list : ListState Nat}

theorem expired_other {world after : World} (now : after.now = world.now)
    (same : load after.clans clan = load world.clans clan) :
    expired after clan = expired world clan ∧ written after clan = written world clan := by
  simp only [expired, written, now, same, and_self]

theorem expired_load {world : World} (present : load world.clans clan = some record) :
    expired world clan = isExpired world.now record := by
  simp [expired, present]

variable (front : List (Nat × Nat))

theorem save_round (back : List (Nat × Nat)) (item : Nat × Nat) (world : World)
    (holds : Holds list (front ++ item :: back)) (once : ((item :: back).map snd).Nodup)
    (allocated : Allocated world.clans item.2) (young : expired world item.2 = false) :
    ∃ after, (∀ rounds, saveClans (rounds + 1) list world (some item.1) =
        (saveClans rounds list after (back.map fst).head?).map fun (last, world, visited) =>
          (last, world, item.2 :: visited)) ∧
      after.now = world.now ∧
      (∀ other ∈ back, load after.clans other.2 = load world.clans other.2) ∧
      (∀ clan, Allocated world.clans clan → Allocated after.clans clan) ∧
      after.stored = world.stored ++ ([item.2].filter (written world)).map .writeClan := by
  obtain ⟨record, present⟩ := allocated
  rw [expired_load present] at young
  obtain ⟨after, ran, now, others, ⟨kept, there⟩, stored⟩ := round_keeps list present young
  have found := holds.2 item (by simp)
  rw [dataAt, map_eq_some_iff] at found
  obtain ⟨elem, listed, content⟩ := found
  refine ⟨after, fun rounds => ?_, now, fun other member => ?_, fun clan was => ?_, stored⟩
  · simp only [saveClans, listed, content, ran, next_listed list front back item holds,
      bind_eq_bind, bind_some]
    rw [map_eq_bind]
    rfl
  · apply others
    rintro same
    exact (nodup_cons.mp once).1 (same ▸ List.mem_map_of_mem member)
  · by_cases own : clan = item.2
    · exact own ▸ ⟨kept, there⟩
    · rw [Allocated, others clan own]
      exact was

theorem save_run (rest : List (Nat × Nat)) (world : World) (holds : Holds list (front ++ rest))
    (once : (rest.map snd).Nodup) (allocated : ∀ item ∈ rest, Allocated world.clans item.2)
    (young : ∀ item ∈ rest, expired world item.2 = false) :
    ∃ after, saveClans rest.length list world (rest.map fst).head? =
        some (list, after, rest.map snd) ∧
      after.stored = world.stored ++ ((rest.map snd).filter (written world)).map .writeClan ∧
      ∀ clan, Allocated world.clans clan → Allocated after.clans clan := by
  induction rest generalizing front world with
  | nil => exact ⟨world, rfl, by simp, fun _ was => was⟩
  | cons item rest ih =>
    obtain ⟨after, step, now, others, kept, stored⟩ := save_round front rest item world holds once
      (allocated item mem_cons_self) (young item mem_cons_self)
    have same (other : Nat × Nat) (member : other ∈ rest) := expired_other now (others other member)
    have passed : Holds list ((front ++ [item]) ++ rest) := by simpa using holds
    obtain ⟨last, ran, storedLast, keptLast⟩ := ih (front ++ [item]) after passed
      (nodup_cons.mp once).2
      (fun other member => kept other.2 (allocated other (mem_cons_of_mem item member)))
      (fun other member => by
        rw [(same other member).1]
        exact young other (mem_cons_of_mem item member))
    refine ⟨last, ?_, ?_, fun clan was => keptLast clan (kept clan was)⟩
    · rw [length_cons, map_cons, head?_cons, step, ran]
      rfl
    have filtered : (rest.map snd).filter (written after) =
        (rest.map snd).filter (written world) := by
      apply filter_congr
      intro clan member
      obtain ⟨other, inside, rfl⟩ := List.mem_map.mp member
      exact (same other inside).2
    have split : ((item :: rest).map snd).filter (written world) =
        [item.2].filter (written world) ++ (rest.map snd).filter (written world) := by
      rw [← filter_append]
      rfl
    rw [storedLast, stored, filtered, split, map_append, append_assoc]

theorem save_faults (rest : List (Nat × Nat)) (world : World) (rounds : Nat)
    (holds : Holds list (front ++ rest)) (once : ((front ++ rest).map snd).Nodup)
    (allocated : ∀ item ∈ rest, Allocated world.clans item.2)
    (old : ∃ item ∈ rest, expired world item.2 = true) :
    saveClans rounds list world (rest.map fst).head? = none := by
  induction rest generalizing front world rounds with
  | nil =>
    obtain ⟨item, member, -⟩ := old
    cases member
  | cons item rest ih =>
    rw [map_cons, head?_cons]
    have here := allocated item mem_cons_self
    by_cases gone : expired world item.2 = true
    · obtain ⟨record, present⟩ := here
      rw [expired_load present] at gone
      exact expired_faults list front rest item record holds once present gone rounds
    cases rounds with
    | zero => rfl
    | succ rounds =>
      have later : ((item :: rest).map snd).Nodup := by
        rw [map_append] at once
        exact once.of_append_right
      obtain ⟨after, step, now, others, kept, -⟩ := save_round front rest item world holds
        later here (Bool.eq_false_of_not_eq_true gone)
      have passed : Holds list ((front ++ [item]) ++ rest) := by simpa using holds
      have onceMore : (((front ++ [item]) ++ rest).map snd).Nodup := by simpa using once
      obtain ⟨other, member, late⟩ := old
      have inRest : other ∈ rest := by
        rcases mem_cons.mp member with rfl | inside
        · exact absurd late gone
        · exact inside
      have stillLate : ∃ other ∈ rest, expired after other.2 = true :=
        ⟨other, inRest, by rw [(expired_other now (others other inRest)).1, late]⟩
      have stillThere : ∀ other ∈ rest, Allocated after.clans other.2 := fun other inside =>
        kept other.2 (allocated other (mem_cons_of_mem item inside))
      rw [step, ih (front ++ [item]) after rounds passed onceMore stillThere stillLate]
      rfl

end Runs

/-- A save does what it is meant to do when no modified clan of the list is expired. -/
theorem clanlist_save_iff {list : ListState Nat} {items : List (Nat × Nat)} {world : World}
    (listed : Listed list items world) :
    (∃ rounds last after visited,
        clanlistSave rounds (some list) world = some (some last, after, visited) ∧
        Saved items world last after visited) ↔
      ∀ item ∈ items, expired world item.2 = false := by
  have head : list.head = (items.map fst).head? := listed.holds.1.headFirst
  constructor
  · rintro ⟨rounds, last, after, visited, ran, -⟩ item member
    by_contra late
    have faults := save_faults [] items world rounds listed.holds listed.once listed.allocated
      ⟨item, member, by simpa using late⟩
    rw [clanlistSave, head, faults] at ran
    cases ran
  intro young
  obtain ⟨after, ran, stored, kept⟩ :=
    save_run [] items world listed.holds listed.once listed.allocated young
  have all : (items.filter fun item => !expired world item.2) = items := by
    rw [filter_eq_self]
    intro item member
    rw [young item member]
    rfl
  refine ⟨items.length, list, after, items.map snd, ?_, rfl, stored, ?_, ?_⟩
  · rw [clanlistSave, head, ran]
    rfl
  · rw [all]
    exact listed.holds
  · intro item member
    obtain ⟨record, there⟩ := kept item.2 (listed.allocated item member)
    rw [there, young item member]
    simp

section OneClan

def foundedWorld (seconds : Int) (created : Int) : World where
  clans := (∅ : Memory Clan).insert 1 {
    clanid := 1
    tag := 5
    clanname := [65]
    clanMotd := [66]
    creationTime := 0
    created
    modified := true
    channelType := 0
    members := some [2] }
  members := (∅ : Memory Clanmember).insert 2 ⟨some 7, clanChieftain, 0, 1, true⟩
  clanlist := [1]
  clanmember := fun account => if account = 7 then some 2 else none
  maxClanid := 1
  now := seconds
  stored := []

def oneElem : ListState Nat where
  memory := (∅ : Memory (Elem Nat)).insert 3 ⟨1, none, none⟩
  len := 1
  head := some 3
  tail := some 3

theorem one_listed (seconds created : Int) :
    Listed oneElem [(3, 1)] (foundedWorld seconds created) := by
  refine ⟨⟨⟨⟨⟨1, none, none⟩, rfl, rfl, rfl, trivial⟩, rfl, rfl, rfl, by decide⟩, ?_⟩,
    by decide, ?_⟩
  · intro item member
    obtain rfl := mem_singleton.mp member
    rfl
  · intro item member
    obtain rfl := mem_singleton.mp member
    exact ⟨_, rfl⟩

/-- A clan of age 200 that was completed is written. -/
theorem completed_clan_saved : ∃ rounds last after visited,
    clanlistSave rounds (some oneElem) (foundedWorld 200 1) = some (some last, after, visited) ∧
      Saved [(3, 1)] (foundedWorld 200 1) last after visited := by
  refine (clanlist_save_iff (one_listed 200 1)).mpr fun item member => ?_
  obtain rfl := mem_singleton.mp member
  decide

/-- A clan that was not completed within 120 seconds is freed under the traversal, however long
it may take. -/
theorem expired_clan_followed : Listed oneElem [(3, 1)] (foundedWorld 121 0) ∧
    ∀ rounds, clanlistSave rounds (some oneElem) (foundedWorld 121 0) = none := by
  have listed := one_listed 121 0
  refine ⟨listed, fun rounds => ?_⟩
  have faults := save_faults [] [(3, 1)] (foundedWorld 121 0) rounds listed.holds listed.once
    listed.allocated ⟨(3, 1), by simp, by decide⟩
  have head : oneElem.head = ([(3, 1)].map fst).head? := rfl
  rw [clanlistSave, head, faults]
  rfl

end OneClan

end Pvpgn.ClanlistSave
