import Mathlib.Data.List.Nodup
import Mathlib.Data.List.Perm.Basic

/-!
Ladder lists, `LadderList` and `LadderEntry` of `ladder.cpp`. The rank of an entry is
kept twice, in the entry and with the account or team the entry refers to, and each copy
decides whether the other one is written. Ranks and positions are natural numbers: a list
has one entry for each 32-bit uid at most.
-/

namespace Pvpgn.Ladder
open List

inductive LadderSort where
  | highestrated | mostwins | mostgames | default
  deriving Repr, DecidableEq

inductive LadderTime where
  | active | current | default
  deriving Repr, DecidableEq

inductive LadderId where
  | none | normal | ironman | solo | team | ffa | ateam
  deriving Repr, DecidableEq

inductive ReferenceType where
  | account | team | clan
  deriving Repr, DecidableEq

/-- Every key is built from one of the client tags, and these are not 0. -/
structure LadderKey where
  ladderId : LadderId
  clienttag : UInt32
  ladderSort : LadderSort
  ladderTime : LadderTime
  tagged : clienttag ≠ 0

/-- The pointer to the account or the team, by its uid or team id. -/
inductive LadderReferencedObject where
  | account (uid : UInt32)
  | team (teamid : UInt32)
  deriving Repr, DecidableEq

def LadderReferencedObject.getReferenceType : LadderReferencedObject → ReferenceType
  | account _ => .account
  | team _ => .team

def LadderReferencedObject.uid : LadderReferencedObject → UInt32
  | account uid => uid
  | team teamid => teamid

/-- The ranks stored outside of the lists: `rank` and `active rank` of the accounts, by
client tag and ladder, and the rank of the teams. -/
structure Ranks where
  rank : UInt32 → UInt32 → LadderId → Nat
  activeRank : UInt32 → UInt32 → LadderId → Nat
  teamRank : UInt32 → Nat

def accountGetLadderRank (ranks : Ranks) (account clienttag : UInt32) (id : LadderId) : Nat :=
  if clienttag = 0 then 0 else ranks.rank account clienttag id

def accountSetLadderRank (ranks : Ranks) (account clienttag : UInt32) (id : LadderId)
    (rank : Nat) : Ranks :=
  if clienttag = 0 then ranks
  else { ranks with
    rank := fun other tag ladder =>
      if other = account ∧ tag = clienttag ∧ ladder = id then rank
      else ranks.rank other tag ladder }

def accountGetLadderActiveRank (ranks : Ranks) (account clienttag : UInt32) (id : LadderId) :
    Nat :=
  if clienttag = 0 then 0 else ranks.activeRank account clienttag id

def accountSetLadderActiveRank (ranks : Ranks) (account clienttag : UInt32) (id : LadderId)
    (rank : Nat) : Ranks :=
  if clienttag = 0 then ranks
  else { ranks with
    activeRank := fun other tag ladder =>
      if other = account ∧ tag = clienttag ∧ ladder = id then rank
      else ranks.activeRank other tag ladder }

def teamSetRank (ranks : Ranks) (team : UInt32) (rank : Nat) : Ranks :=
  { ranks with teamRank := fun other => if other = team then rank else ranks.teamRank other }

/-- The account rank is only determined by the highestrated and default ladder sorts. -/
def LadderKey.determinesRank (key : LadderKey) : Bool :=
  key.ladderSort = .default || key.ladderSort = .highestrated

def LadderReferencedObject.getRank (key : LadderKey) (ranks : Ranks) :
    LadderReferencedObject → Nat
  | account uid =>
    if key.determinesRank then
      if key.ladderTime = .active then
        accountGetLadderActiveRank ranks uid key.clienttag key.ladderId
      else accountGetLadderRank ranks uid key.clienttag key.ladderId
    else 0
  | team teamid => ranks.teamRank teamid

def LadderReferencedObject.setRank (key : LadderKey) (ranks : Ranks) (rank : Nat) :
    LadderReferencedObject → Ranks × Bool
  | account uid =>
    if key.determinesRank then
      if key.ladderTime = .active then
        (accountSetLadderActiveRank ranks uid key.clienttag key.ladderId rank, true)
      else (accountSetLadderRank ranks uid key.clienttag key.ladderId rank, true)
    else (ranks, false)
  | team teamid => (teamSetRank ranks teamid rank, true)

/-- The rank among what is copied from the current to the active ladder. -/
def LadderReferencedObject.activate (key : LadderKey) (ranks : Ranks) :
    LadderReferencedObject → Ranks
  | account uid =>
    if key.ladderSort = .highestrated then
      accountSetLadderActiveRank ranks uid key.clienttag key.ladderId
        (accountGetLadderRank ranks uid key.clienttag key.ladderId)
    else ranks
  | team _ => ranks

structure LadderEntry where
  uid : UInt32
  primary : UInt32
  secondary : UInt32
  tertiary : UInt32
  rank : Nat
  referencedObject : LadderReferencedObject
  deriving Repr, DecidableEq

def LadderEntry.setRank (key : LadderKey) (ranks : Ranks) (rank : Nat) (entry : LadderEntry) :
    LadderEntry × Ranks × Bool :=
  if entry.referencedObject.getRank key ranks ≠ rank then
    ({ entry with rank := rank }, entry.referencedObject.setRank key ranks rank)
  else (entry, ranks, false)

def LadderEntry.update (primary secondary tertiary : UInt32) (entry : LadderEntry) : LadderEntry :=
  { entry with primary := primary, secondary := secondary, tertiary := tertiary }

-- `operator<`: the entry stands before the other one.
def LadderEntry.before (left right : LadderEntry) : Bool :=
  if left.primary ≠ right.primary then left.primary > right.primary
  else if left.secondary ≠ right.secondary then left.secondary > right.secondary
  else if left.tertiary ≠ right.tertiary then left.tertiary > right.tertiary
  else left.uid > right.uid

structure LadderList where
  ladderKey : LadderKey
  ladder : List LadderEntry
  dirty : Bool
  saved : Bool
  referenceType : ReferenceType

def create (key : LadderKey) (type : ReferenceType) : LadderList :=
  { ladderKey := key, ladder := [], dirty := true, saved := false, referenceType := type }

def maxRankKeptInLadder : Nat := 1000

/-- The loop over the sorted entries. The first one past the kept ranks is the end marker:
it and those behind it are erased, with rank 0 in their accounts. -/
def rankEntries (key : LadderKey) : Nat → List LadderEntry → Ranks → List LadderEntry × Ranks
  | _, [], ranks => ([], ranks)
  | rank, entry :: rest, ranks =>
    if rank ≤ maxRankKeptInLadder then
      if entry.rank ≠ rank then
        let (moved, stored, _) := entry.setRank key ranks rank
        let (later, final) := rankEntries key (rank + 1) rest stored
        (moved :: later, final)
      else
        let (later, final) := rankEntries key (rank + 1) rest ranks
        (entry :: later, final)
    else
      let (_, stored, _) := entry.setRank key ranks 0
      rankEntries key (rank + 1) rest stored

def sortEntries (entries : List LadderEntry) : List LadderEntry :=
  entries.mergeSort fun left right => !right.before left

def sortAndUpdate (list : LadderList) (ranks : Ranks) : LadderList × Ranks :=
  if !list.dirty then (list, ranks)
  else
    let (kept, stored) := rankEntries list.ladderKey 1 (sortEntries list.ladder) ranks
    ({ list with ladder := kept, saved := false, dirty := false }, stored)

def addEntry (list : LadderList) (uid primary secondary tertiary : UInt32)
    (object : LadderReferencedObject) : LadderList :=
  if list.referenceType ≠ object.getReferenceType then list
  else { list with
    ladder := list.ladder ++ [⟨uid, primary, secondary, tertiary, 0, object⟩], dirty := true }

def updateFirst (uid : UInt32) (change : LadderEntry → LadderEntry) :
    List LadderEntry → List LadderEntry
  | [] => []
  | entry :: rest =>
    if entry.uid = uid then change entry :: rest else entry :: updateFirst uid change rest

def updateEntry (list : LadderList) (uid primary secondary tertiary : UInt32)
    (object : LadderReferencedObject) : LadderList :=
  if list.referenceType ≠ object.getReferenceType then list
  else
    match list.ladder.find? fun entry => entry.uid = uid with
    | none => { list with
        ladder := list.ladder ++ [⟨uid, primary, secondary, tertiary, 0, object⟩], dirty := true }
    | some _ => { list with
        ladder := updateFirst uid (.update primary secondary tertiary) list.ladder, dirty := true }

def delEntry (list : LadderList) (ranks : Ranks) (uid : UInt32) : LadderList × Ranks × Bool :=
  match list.ladder.find? fun entry => entry.uid = uid with
  | none => (list, ranks, false)
  | some entry =>
    let (_, stored, _) := entry.setRank list.ladderKey ranks 0
    ({ list with ladder := list.ladder.eraseP fun entry => entry.uid = uid, dirty := true },
      stored, true)

def getRank (list : LadderList) (uid : UInt32) : Nat :=
  match list.ladder.find? fun entry => entry.uid = uid with
  | none => 0
  | some entry => entry.rank

def activateEntry (list : LadderList) (ranks : Ranks) (entry : LadderEntry) : LadderList × Ranks :=
  (updateEntry list entry.uid entry.primary entry.secondary entry.tertiary entry.referencedObject,
    entry.referencedObject.activate list.ladderKey ranks)

def activateFrom (list : LadderList) (ranks : Ranks) (currentLadder : LadderList) :
    LadderList × Ranks :=
  currentLadder.ladder.foldl (fun state entry => activateEntry state.1 state.2 entry) (list, ranks)

section Objects

variable (key : LadderKey) (ranks : Ranks)

def LadderReferencedObject.stores : LadderReferencedObject → Bool
  | account _ => key.determinesRank
  | team _ => true

variable (object : LadderReferencedObject)

section Stores
attribute [local simp] LadderReferencedObject.getRank LadderReferencedObject.setRank teamSetRank
  accountGetLadderActiveRank accountSetLadderActiveRank accountGetLadderRank accountSetLadderRank
  LadderKey.tagged

theorem getRank_unstored (unstored : object.stores key = false) : object.getRank key ranks = 0 := by
  cases object with
  | account uid =>
    have other : key.determinesRank = false := unstored
    simp [other]
  | team teamid => cases unstored

theorem getRank_setRank_self (rank : Nat) (stored : object.stores key = true) :
    object.getRank key (object.setRank key ranks rank).1 = rank := by
  cases object with
  | account uid =>
    have own : key.determinesRank = true := stored
    by_cases active : key.ladderTime = .active <;> simp [own, active]
  | team teamid => simp

variable (other : LadderReferencedObject)

theorem getRank_setRank_other (rank : Nat) (distinct : other ≠ object) :
    other.getRank key (object.setRank key ranks rank).1 = other.getRank key ranks := by
  cases object with
  | account uid =>
    cases other with
    | account otherUid =>
      have apart : otherUid ≠ uid := fun same => distinct (congrArg _ same)
      by_cases own : key.determinesRank <;> by_cases active : key.ladderTime = .active <;>
        simp [own, active, apart]
    | team teamid =>
      by_cases own : key.determinesRank <;> by_cases active : key.ladderTime = .active <;>
        simp [own, active]
  | team teamid =>
    cases other with
    | account uid => simp
    | team otherTeam =>
      have apart : otherTeam ≠ teamid := fun same => distinct (congrArg _ same)
      simp [apart]

theorem getRank_activate_other (distinct : other ≠ object) :
    other.getRank key (object.activate key ranks) = other.getRank key ranks := by
  cases object with
  | team teamid => rfl
  | account uid =>
    by_cases highest : key.ladderSort = .highestrated
    · cases other with
      | account otherUid =>
        have apart : otherUid ≠ uid := fun same => distinct (congrArg _ same)
        simp [LadderReferencedObject.activate, highest, apart]
      | team teamid => simp [LadderReferencedObject.activate, highest]
    · simp [LadderReferencedObject.activate, highest]

end Stores

variable (entry : LadderEntry)

theorem setRank_stored (rank : Nat) :
    entry.referencedObject.getRank key (entry.setRank key ranks rank).2.1 =
      if entry.referencedObject.stores key then rank else 0 := by
  cases stored : entry.referencedObject.stores key with
  | true =>
    by_cases same : entry.referencedObject.getRank key ranks = rank
    · simp [LadderEntry.setRank, same]
    · simp [LadderEntry.setRank, same, getRank_setRank_self key ranks _ rank stored]
  | false => simp [getRank_unstored key _ _ stored]

theorem setRank_frame (rank : Nat) (other : LadderReferencedObject)
    (distinct : other ≠ entry.referencedObject) :
    other.getRank key (entry.setRank key ranks rank).2.1 = other.getRank key ranks := by
  by_cases same : entry.referencedObject.getRank key ranks = rank
  · simp [LadderEntry.setRank, same]
  · simp [LadderEntry.setRank, same, getRank_setRank_other key ranks _ _ rank distinct]

end Objects

section Ranking

variable (key : LadderKey)

def settledRank (ranks : Ranks) (rank : Nat) (entry : LadderEntry) : Nat :=
  if entry.referencedObject.getRank key ranks = rank then entry.rank else rank

def settledStore (ranks : Ranks) (rank : Nat) (entry : LadderEntry) : Nat :=
  if entry.rank = rank then entry.referencedObject.getRank key ranks
  else if entry.referencedObject.stores key then rank else 0

variable (entries : List LadderEntry) (rank : Nat)

theorem rankEntries_frame (ranks : Ranks) (other : LadderReferencedObject)
    (absent : other ∉ entries.map LadderEntry.referencedObject) :
    other.getRank key (rankEntries key rank entries ranks).2 = other.getRank key ranks := by
  induction entries generalizing rank ranks with
  | nil => rfl
  | cons entry rest ih =>
    rw [map_cons, mem_cons, not_or] at absent
    have frame := fun stored => setRank_frame key ranks entry stored other absent.1
    rw [rankEntries]
    split
    · split
      · exact (ih _ _ absent.2).trans (frame _)
      · exact ih _ _ absent.2
    · exact (ih _ _ absent.2).trans (frame _)

section
variable (ranks : Ranks) (distinct : (entries.map LadderEntry.referencedObject).Nodup)
  (position : Nat)
include ranks distinct position

theorem rankEntries_getElem :
    (rankEntries key rank entries ranks).1[position]? =
      if rank + position ≤ maxRankKeptInLadder then
        entries[position]?.map fun entry =>
          { entry with rank := settledRank key ranks (rank + position) entry }
      else none := by
  induction entries generalizing rank ranks position with
  | nil => simp [rankEntries]
  | cons entry rest ih =>
    rw [map_cons, nodup_cons] at distinct
    have apart : ∀ other ∈ rest, other.referencedObject ≠ entry.referencedObject :=
      fun other inside same => distinct.1 (same ▸ mem_map_of_mem inside)
    -- The writes for this entry are not seen by the rest of them.
    have later : ∀ stored : Ranks,
        (∀ other ∈ rest, other.referencedObject.getRank key stored =
          other.referencedObject.getRank key ranks) → ∀ next,
        (rankEntries key (rank + 1) rest stored).1[next]? =
          if rank + (next + 1) ≤ maxRankKeptInLadder then
            rest[next]?.map fun other =>
              { other with rank := settledRank key ranks (rank + (next + 1)) other }
          else none := by
      intro stored unseen next
      rw [ih (rank + 1) stored distinct.2 next, show rank + 1 + next = rank + (next + 1) by omega]
      congr 1
      refine Option.map_congr fun other found => ?_
      rw [settledRank, settledRank, unseen other (mem_of_getElem? found)]
    have moved := fun value other inside =>
      setRank_frame key ranks entry value other.referencedObject (apart other inside)
    rw [rankEntries]
    split
    · next kept =>
        split
        · next stale =>
            cases position with
            | zero =>
              by_cases same : entry.referencedObject.getRank key ranks = rank <;>
                simp [kept, LadderEntry.setRank, settledRank, same]
            | succ position => simpa using later _ (moved rank) position
        · next fresh =>
            have equal : entry.rank = rank := not_not.mp fresh
            cases position with
            | zero =>
              have itself : { entry with rank := settledRank key ranks rank entry } = entry := by
                rw [settledRank, equal, ite_self, ← equal]
              simp [kept, itself]
            | succ position => simpa using later _ (fun _ _ => rfl) position
    · next beyond =>
        have none := later _ (moved 0) position
        rw [if_neg (by omega)] at none
        rw [if_neg (by omega)]
        exact none

theorem rankEntries_stored (entry : LadderEntry) (found : entries[position]? = some entry) :
    entry.referencedObject.getRank key (rankEntries key rank entries ranks).2 =
      if rank + position ≤ maxRankKeptInLadder then
        settledStore key ranks (rank + position) entry
      else 0 := by
  induction entries generalizing rank ranks position with
  | nil => cases found
  | cons first rest ih =>
    rw [map_cons, nodup_cons] at distinct
    cases position with
    | zero =>
      obtain rfl : first = entry := by simpa using found
      have written := setRank_stored key ranks first
      have frame := fun next stored =>
        rankEntries_frame key rest next stored first.referencedObject distinct.1
      rw [Nat.add_zero, rankEntries]
      split
      · rw [settledStore]
        split
        · exact (frame _ _).trans (written rank)
        · next fresh =>
            rw [if_pos (not_not.mp fresh)]
            exact frame _ _
      · exact (frame _ _).trans ((written 0).trans (ite_self 0))
    | succ position =>
      have inside : rest[position]? = some entry := by simpa using found
      have apart : entry.referencedObject ≠ first.referencedObject :=
        fun same => distinct.1 (same ▸ mem_map_of_mem (mem_of_getElem? inside))
      have later : ∀ stored : Ranks,
          entry.referencedObject.getRank key stored = entry.referencedObject.getRank key ranks →
          entry.referencedObject.getRank key (rankEntries key (rank + 1) rest stored).2 =
            if rank + (position + 1) ≤ maxRankKeptInLadder then
              settledStore key ranks (rank + (position + 1)) entry
            else 0 := by
        intro stored unseen
        rw [ih (rank + 1) stored distinct.2 position inside,
          show rank + 1 + position = rank + (position + 1) by omega, settledStore,
          settledStore, unseen]
      have moved := fun value =>
        setRank_frame key ranks first value entry.referencedObject apart
      rw [rankEntries]
      split
      · split
        · exact later _ (moved rank)
        · exact later _ rfl
      · exact later _ (moved 0)

end

end Ranking

variable {entries : List LadderEntry}

section Order

/-- The order of a ladder: descending by primary, secondary and tertiary value and uid. -/
def LadderEntry.Above (left right : LadderEntry) : Prop :=
  right.primary < left.primary ∨ right.primary = left.primary ∧
    (right.secondary < left.secondary ∨ right.secondary = left.secondary ∧
      (right.tertiary < left.tertiary ∨ right.tertiary = left.tertiary ∧ right.uid < left.uid))

variable (left right : LadderEntry)

theorem before_iff : left.before right = true ↔ left.Above right := by
  simp only [LadderEntry.before, LadderEntry.Above, UInt32.lt_iff_toNat_lt,
    ← UInt32.toNat_inj, ne_eq]
  split
  · simp only [decide_eq_true_eq]
    omega
  split
  · simp only [decide_eq_true_eq]
    omega
  · split <;> simp only [decide_eq_true_eq] <;> omega

theorem above_trichotomy {left right : LadderEntry} (distinct : left.uid ≠ right.uid)
    (under : ¬ right.Above left) : left.Above right := by
  simp only [LadderEntry.Above, UInt32.lt_iff_toNat_lt, ← UInt32.toNat_inj, ne_eq] at *
  omega

theorem under_trans {first second third : LadderEntry} (left : ¬ second.Above first)
    (right : ¬ third.Above second) : ¬ third.Above first := by
  simp only [LadderEntry.Above, UInt32.lt_iff_toNat_lt, ← UInt32.toNat_inj] at *
  omega

theorem under_total : ¬ right.Above left ∨ ¬ left.Above right := by
  simp only [LadderEntry.Above, UInt32.lt_iff_toNat_lt, ← UInt32.toNat_inj]
  omega

theorem sortEntries_perm (entries : List LadderEntry) : (sortEntries entries).Perm entries :=
  mergeSort_perm entries _

theorem not_before : (!right.before left) = true ↔ ¬ right.Above left := by
  rw [Bool.not_eq_true', ← Bool.not_eq_true, before_iff]

theorem sortEntries_descending (entries : List LadderEntry)
    (distinct : (entries.map LadderEntry.uid).Nodup) :
    (sortEntries entries).Pairwise LadderEntry.Above := by
  have trans : ∀ first second third : LadderEntry, (!second.before first) = true →
      (!third.before second) = true → (!third.before first) = true := by
    simp only [not_before]
    exact fun _ _ _ => under_trans
  have total : ∀ left right : LadderEntry, ((!right.before left) || !left.before right) = true := by
    simp only [Bool.or_eq_true, not_before]
    exact under_total
  have ordered : (sortEntries entries).Pairwise fun left right => (!right.before left) = true :=
    pairwise_mergeSort trans total entries
  have apart : (sortEntries entries).Pairwise fun left right => left.uid ≠ right.uid :=
    pairwise_map.mp (((sortEntries_perm entries).map LadderEntry.uid).nodup_iff.mpr distinct)
  exact (ordered.and apart).imp fun both => above_trichotomy both.2 ((not_before _ _).mp both.1)

theorem find_uid (distinct : (entries.map LadderEntry.uid).Nodup) {entry : LadderEntry}
    (listed : entry ∈ entries) :
    (entries.find? fun other => other.uid = entry.uid) = some entry := by
  induction entries with
  | nil => cases listed
  | cons first rest ih =>
    rw [map_cons, nodup_cons] at distinct
    rcases mem_cons.mp listed with same | inside
    · rw [same, find?_cons_of_pos (by simp)]
    · have apart : first.uid ≠ entry.uid :=
        fun same => distinct.1 (same ▸ mem_map_of_mem inside)
      rw [find?_cons_of_neg (by simpa using apart), ih distinct.2 inside]

theorem find_none {uid : UInt32} :
    (entries.find? fun other => other.uid = uid) = none ↔ uid ∉ entries.map LadderEntry.uid := by
  simp

end Order

variable {list : LadderList}

section Consistency

/-- What a ladder owes its readers once it is sorted. `seen` are the entries it had before:
those no longer listed have rank 0 in their accounts. -/
structure Consistent (seen : List LadderEntry) (list : LadderList) (ranks : Ranks) : Prop where
  few : list.ladder.length ≤ maxRankKeptInLadder
  distinct : (list.ladder.map LadderEntry.uid).Nodup
  descending : list.ladder.Pairwise LadderEntry.Above
  ranked : ∀ position entry, list.ladder[position]? = some entry →
    getRank list entry.uid = position + 1
  absent : ∀ uid, uid ∉ list.ladder.map LadderEntry.uid → getRank list uid = 0
  stored : list.ladderKey.determinesRank → ∀ position entry uid,
    list.ladder[position]? = some entry → entry.referencedObject = .account uid →
    entry.referencedObject.getRank list.ladderKey ranks = position + 1
  evicted : ∀ entry ∈ seen, entry.uid ∉ list.ladder.map LadderEntry.uid →
    entry.referencedObject.getRank list.ladderKey ranks = 0

/-- At its new position, an entry has the right rank already if its account has it, and the
account has it if the entry does. -/
def RanksAgree (list : LadderList) (ranks : Ranks) : Prop :=
  ∀ position entry, position < maxRankKeptInLadder →
    (sortEntries list.ladder)[position]? = some entry →
    (entry.referencedObject.getRank list.ladderKey ranks = position + 1 →
      entry.rank = position + 1) ∧
    (list.ladderKey.determinesRank → ∀ uid, entry.referencedObject = .account uid →
      entry.rank = position + 1 →
      entry.referencedObject.getRank list.ladderKey ranks = position + 1)

def LadderEntry.Fits (type : ReferenceType) (entry : LadderEntry) : Prop :=
  entry.referencedObject.uid = entry.uid ∧ entry.referencedObject.getReferenceType = type

structure Listed (seen : List LadderEntry) (list : LadderList) (ranks : Ranks) : Prop where
  distinct : (list.ladder.map LadderEntry.uid).Nodup
  fits : ∀ entry ∈ list.ladder, entry.Fits list.referenceType
  seenFits : ∀ entry ∈ seen, entry.Fits list.referenceType
  gone : ∀ entry ∈ seen, entry.uid ∉ list.ladder.map LadderEntry.uid →
    entry.referencedObject.getRank list.ladderKey ranks = 0

variable {type : ReferenceType}

theorem fits_object {left right : LadderEntry} (first : left.Fits type) (second : right.Fits type)
    (same : left.referencedObject = right.referencedObject) : left.uid = right.uid := by
  rw [← first.1, ← second.1, same]

theorem fits_uid {left right : LadderEntry} (first : left.Fits type) (second : right.Fits type)
    (same : left.uid = right.uid) : left.referencedObject = right.referencedObject := by
  have uids : left.referencedObject.uid = right.referencedObject.uid := by
    rw [first.1, second.1, same]
  have types := first.2.trans second.2.symm
  cases leftObject : left.referencedObject <;> cases rightObject : right.referencedObject <;>
    simp_all [LadderReferencedObject.uid, LadderReferencedObject.getReferenceType]

theorem listed_objects {seen : List LadderEntry} {ranks : Ranks} (listed : Listed seen list ranks) :
    (list.ladder.map LadderEntry.referencedObject).Nodup := by
  have uids := pairwise_map.mp listed.distinct
  refine pairwise_map.mpr (uids.imp_of_mem fun left right apart same => apart ?_)
  exact fits_object (listed.fits _ left) (listed.fits _ right) same

theorem sorted_objects {seen : List LadderEntry} {ranks : Ranks} (listed : Listed seen list ranks) :
    ((sortEntries list.ladder).map LadderEntry.referencedObject).Nodup :=
  ((sortEntries_perm _).map _).nodup_iff.mpr (listed_objects listed)

theorem getRank_of_mem (distinct : (list.ladder.map LadderEntry.uid).Nodup) {entry : LadderEntry}
    (inside : entry ∈ list.ladder) : getRank list entry.uid = entry.rank := by
  rw [getRank, find_uid distinct inside]

theorem getRank_of_not_mem {uid : UInt32} (outside : uid ∉ list.ladder.map LadderEntry.uid) :
    getRank list uid = 0 := by
  rw [getRank, find_none.mpr outside]

section Sorting

variable {seen : List LadderEntry} {list : LadderList} {ranks : Ranks}

theorem sort_dirty (dirty : list.dirty = true) :
    sortAndUpdate list ranks =
      ({ list with
          ladder := (rankEntries list.ladderKey 1 (sortEntries list.ladder) ranks).1
          saved := false
          dirty := false },
        (rankEntries list.ladderKey 1 (sortEntries list.ladder) ranks).2) := by
  simp [sortAndUpdate, dirty]

theorem sort_getElem (listed : Listed seen list ranks) (dirty : list.dirty = true)
    (position : Nat) :
    (sortAndUpdate list ranks).1.ladder[position]? =
      if position < maxRankKeptInLadder then
        (sortEntries list.ladder)[position]?.map fun entry =>
          { entry with rank := settledRank list.ladderKey ranks (position + 1) entry }
      else none := by
  have entries := rankEntries_getElem list.ladderKey _ 1 ranks (sorted_objects listed) position
  rw [Nat.add_comm] at entries
  rw [sort_dirty dirty]
  exact entries

theorem sort_stored (listed : Listed seen list ranks) (dirty : list.dirty = true) {position : Nat}
    {entry : LadderEntry} (found : (sortEntries list.ladder)[position]? = some entry) :
    entry.referencedObject.getRank list.ladderKey (sortAndUpdate list ranks).2 =
      if position < maxRankKeptInLadder then
        settledStore list.ladderKey ranks (position + 1) entry
      else 0 := by
  have stored := rankEntries_stored list.ladderKey _ 1 ranks (sorted_objects listed) position
    entry found
  rw [Nat.add_comm] at stored
  rw [sort_dirty dirty]
  exact stored

def LadderEntry.values (entry : LadderEntry) : LadderEntry := { entry with rank := 0 }

theorem sort_values (listed : Listed seen list ranks) (dirty : list.dirty = true) :
    (sortAndUpdate list ranks).1.ladder.map LadderEntry.values =
      ((sortEntries list.ladder).take maxRankKeptInLadder).map LadderEntry.values := by
  refine ext_getElem? fun position => ?_
  rw [getElem?_map, getElem?_map, sort_getElem listed dirty, getElem?_take]
  split
  · cases (sortEntries list.ladder)[position]? <;> rfl
  · rfl

theorem sort_uids (listed : Listed seen list ranks) (dirty : list.dirty = true) :
    (sortAndUpdate list ranks).1.ladder.map LadderEntry.uid =
      ((sortEntries list.ladder).take maxRankKeptInLadder).map LadderEntry.uid := by
  have values := congrArg (map LadderEntry.uid) (sort_values listed dirty)
  rw [map_map, map_map] at values
  exact values

theorem sort_key (list : LadderList) (ranks : Ranks) :
    (sortAndUpdate list ranks).1.ladderKey = list.ladderKey ∧
      (sortAndUpdate list ranks).1.referenceType = list.referenceType := by
  rw [sortAndUpdate]
  split <;> exact ⟨rfl, rfl⟩

section
variable (listed : Listed seen list ranks) (dirty : list.dirty = true)
include listed dirty

theorem sort_listed :
    Listed (seen ++ list.ladder) (sortAndUpdate list ranks).1 (sortAndUpdate list ranks).2 := by
  obtain ⟨sameKey, sameType⟩ := sort_key list ranks
  have uids := sort_uids listed dirty
  have sub := (take_sublist maxRankKeptInLadder (sortEntries list.ladder))
  have old : ∀ entry ∈ seen ++ list.ladder, entry.Fits list.referenceType := by
    intro entry inside
    exact (mem_append.mp inside).elim (listed.seenFits entry) (listed.fits entry)
  -- An entry of the old list that is not kept stood past the last rank.
  have past : ∀ entry ∈ list.ladder,
      entry.uid ∉ (sortAndUpdate list ranks).1.ladder.map LadderEntry.uid →
      entry.referencedObject.getRank list.ladderKey (sortAndUpdate list ranks).2 = 0 := by
    intro entry inside missing
    obtain ⟨position, found⟩ :=
      mem_iff_getElem?.mp ((sortEntries_perm list.ladder).mem_iff.mpr inside)
    rw [sort_stored listed dirty found, if_neg]
    intro kept
    refine missing (uids ▸ mem_map_of_mem (mem_iff_getElem?.mpr ⟨position, ?_⟩))
    rw [getElem?_take, if_pos kept, found]
  refine ⟨?_, ?_, ?_, ?_⟩
  · rw [uids]
    exact (sub.map _).nodup (((sortEntries_perm _).map _).nodup_iff.mpr listed.distinct)
  · intro entry inside
    rw [sameType]
    have kept : entry.values ∈
        ((sortEntries list.ladder).take maxRankKeptInLadder).map LadderEntry.values :=
      sort_values listed dirty ▸ mem_map_of_mem inside
    obtain ⟨original, found, same⟩ := mem_map.mp kept
    have fits := listed.fits original ((sortEntries_perm _).mem_iff.mp (sub.mem found))
    have object : original.referencedObject = entry.referencedObject :=
      show original.values.referencedObject = entry.values.referencedObject by rw [same]
    have uid : original.uid = entry.uid := show original.values.uid = entry.values.uid by rw [same]
    rw [LadderEntry.Fits, object, uid] at fits
    exact fits
  · rw [sameType]
    exact old
  · intro entry inside missing
    rw [sameKey]
    by_cases listedBefore : entry.uid ∈ list.ladder.map LadderEntry.uid
    · obtain ⟨original, found, same⟩ := mem_map.mp listedBefore
      rw [fits_uid (old entry inside) (listed.fits original found) same.symm]
      exact past original found (same ▸ missing)
    have seenBefore : entry ∈ seen := (mem_append.mp inside).resolve_right
      fun found => listedBefore (mem_map_of_mem found)
    have apart : entry.referencedObject ∉
        (sortEntries list.ladder).map LadderEntry.referencedObject := by
      intro shared
      obtain ⟨other, found, same⟩ := mem_map.mp shared
      have member := (sortEntries_perm _).mem_iff.mp found
      have uid := fits_object (listed.fits other member) (old entry inside) same
      exact listedBefore (uid ▸ mem_map_of_mem member)
    have frame := rankEntries_frame list.ladderKey _ 1 ranks _ apart
    rw [sort_dirty dirty]
    exact frame.trans (listed.gone entry seenBefore listedBefore)

theorem sort_few :
    (sortAndUpdate list ranks).1.ladder.length ≤ maxRankKeptInLadder := by
  have size := congrArg length (sort_values listed dirty)
  rw [length_map, length_map, length_take] at size
  omega

theorem sort_descending :
    (sortAndUpdate list ranks).1.ladder.Pairwise LadderEntry.Above := by
  have sorted := (sortEntries_descending _ listed.distinct).sublist
    (take_sublist maxRankKeptInLadder _)
  have values : ((sortAndUpdate list ranks).1.ladder.map LadderEntry.values).Pairwise
      LadderEntry.Above := by
    rw [sort_values listed dirty]
    exact pairwise_map.mpr sorted
  exact (pairwise_map (f := LadderEntry.values)).mp values

end

theorem settledRank_eq_iff (key : LadderKey) (ranks : Ranks) (rank : Nat) (entry : LadderEntry) :
    settledRank key ranks rank entry = rank ↔
      (entry.referencedObject.getRank key ranks = rank → entry.rank = rank) := by
  rw [settledRank]
  split <;> simp_all

theorem settledStore_eq_iff (key : LadderKey) (ranks : Ranks) (rank : Nat) (entry : LadderEntry)
    (stores : entry.referencedObject.stores key = true) :
    settledStore key ranks rank entry = rank ↔
      (entry.rank = rank → entry.referencedObject.getRank key ranks = rank) := by
  rw [settledStore]
  split <;> simp_all

/-- A ladder is in order after it was sorted exactly when the two copies of each rank agreed
about the new position before. -/
theorem sort_consistent_iff (listed : Listed seen list ranks) (dirty : list.dirty = true) :
    Consistent (seen ++ list.ladder) (sortAndUpdate list ranks).1 (sortAndUpdate list ranks).2 ↔
      RanksAgree list ranks := by
  have after := sort_listed listed dirty
  have key := (sort_key list ranks).1
  constructor
  · intro consistent position entry kept found
    have left := sort_getElem listed dirty position
    rw [if_pos kept, found, Option.map_some] at left
    constructor
    · have ranked := consistent.ranked position _ left
      rw [getRank_of_mem after.distinct (mem_of_getElem? left)] at ranked
      exact (settledRank_eq_iff _ _ _ _).mp ranked
    intro determines uid account
    have stores : entry.referencedObject.stores list.ladderKey = true := by
      rw [account]
      exact determines
    have stored := consistent.stored (key ▸ determines) position _ uid left account
    rw [key, sort_stored listed dirty found, if_pos kept] at stored
    exact (settledStore_eq_iff _ _ _ _ stores).mp stored
  intro agree
  -- Every entry that is left comes from the same position of the sorted list.
  have origin : ∀ position entry, (sortAndUpdate list ranks).1.ladder[position]? = some entry →
      position < maxRankKeptInLadder ∧ ∃ original,
        (sortEntries list.ladder)[position]? = some original ∧
          entry = { original with
            rank := settledRank list.ladderKey ranks (position + 1) original } := by
    intro position entry left
    rw [sort_getElem listed dirty] at left
    split at left
    · next kept =>
        obtain ⟨original, found, same⟩ := Option.map_eq_some_iff.mp left
        exact ⟨kept, original, found, same.symm⟩
    · cases left
  refine ⟨sort_few listed dirty, after.distinct, sort_descending listed dirty, ?_,
    fun uid => getRank_of_not_mem, ?_, after.gone⟩
  · intro position entry left
    obtain ⟨kept, original, found, same⟩ := origin position entry left
    rw [getRank_of_mem after.distinct (mem_of_getElem? left), same]
    exact (settledRank_eq_iff _ _ _ _).mpr (agree position original kept found).1
  intro determines position entry uid left account
  obtain ⟨kept, original, found, same⟩ := origin position entry left
  rw [key] at determines
  have object : entry.referencedObject = original.referencedObject := by rw [same]
  rw [object] at account
  have stores : original.referencedObject.stores list.ladderKey = true := by
    rw [account]
    exact determines
  rw [key, object, sort_stored listed dirty found, if_pos kept]
  exact (settledStore_eq_iff _ _ _ _ stores).mpr
    ((agree position original kept found).2 determines uid account)

end Sorting

end Consistency

variable {currentLadder : LadderList}

section Changes

variable {seen : List LadderEntry} {list : LadderList} {ranks : Ranks}

theorem listed_seen (listed : Listed seen list ranks) :
    Listed (seen ++ list.ladder) list ranks := by
  refine ⟨listed.distinct, listed.fits, ?_, ?_⟩
  · intro entry inside
    exact (mem_append.mp inside).elim (listed.seenFits entry) (listed.fits entry)
  · intro entry inside missing
    refine listed.gone entry ((mem_append.mp inside).resolve_right fun found => ?_) missing
    exact missing (mem_map_of_mem found)

variable {entry : LadderEntry}

theorem listed_append (listed : Listed seen list ranks) (fits : entry.Fits list.referenceType)
    (fresh : entry.uid ∉ list.ladder.map LadderEntry.uid) :
    Listed seen { list with ladder := list.ladder ++ [entry], dirty := true } ranks := by
  refine ⟨?_, ?_, listed.seenFits, ?_⟩
  · rw [map_append, map_singleton, nodup_append]
    refine ⟨listed.distinct, nodup_singleton _, fun uid inside other alone same => fresh ?_⟩
    rw [← mem_singleton.mp alone, ← same]
    exact inside
  · intro other inside
    rcases mem_append.mp inside with old | new
    · exact listed.fits other old
    · rw [mem_singleton.mp new]
      exact fits
  · intro other inside missing
    refine listed.gone other inside fun found => missing ?_
    rw [map_append]
    exact mem_append_left _ found

def LadderEntry.identity (entry : LadderEntry) : UInt32 × LadderReferencedObject :=
  (entry.uid, entry.referencedObject)

theorem updateFirst_identity (entries : List LadderEntry) (uid primary secondary tertiary : UInt32) :
    (updateFirst uid (.update primary secondary tertiary) entries).map LadderEntry.identity =
      entries.map LadderEntry.identity := by
  induction entries with
  | nil => rfl
  | cons entry rest ih =>
    rw [updateFirst]
    split
    · rfl
    · rw [map_cons, map_cons, ih]

theorem listed_identity (listed : Listed seen list ranks)
    (same : entries.map LadderEntry.identity = list.ladder.map LadderEntry.identity) :
    Listed seen { list with ladder := entries, dirty := true } ranks := by
  have uids : entries.map LadderEntry.uid = list.ladder.map LadderEntry.uid := by
    have first := congrArg (map Prod.fst) same
    rw [map_map, map_map] at first
    exact first
  refine ⟨uids ▸ listed.distinct, ?_, listed.seenFits, fun other inside missing => ?_⟩
  · intro entry inside
    have known : entry.identity ∈ list.ladder.map LadderEntry.identity :=
      same ▸ mem_map_of_mem inside
    obtain ⟨original, found, equal⟩ := mem_map.mp known
    have fits := listed.fits original found
    rw [LadderEntry.Fits, show original.uid = entry.uid from congrArg Prod.fst equal,
      show original.referencedObject = entry.referencedObject from congrArg Prod.snd equal] at fits
    exact fits
  · exact listed.gone other inside (uids ▸ missing)

variable (uid primary secondary : UInt32) {object : LadderReferencedObject} (tertiary : UInt32)

theorem updateEntry_type (object : LadderReferencedObject) :
    (updateEntry list uid primary secondary tertiary object).referenceType = list.referenceType ∧
      (updateEntry list uid primary secondary tertiary object).ladderKey = list.ladderKey := by
  rw [updateEntry]
  split
  · exact ⟨rfl, rfl⟩
  · split <;> exact ⟨rfl, rfl⟩

theorem updateEntry_other (other : list.referenceType ≠ object.getReferenceType) :
    updateEntry list uid primary secondary tertiary object = list := by
  rw [updateEntry, if_pos other]

theorem updateEntry_own (own : list.referenceType = object.getReferenceType) :
    (updateEntry list uid primary secondary tertiary object).dirty = true ∧
      uid ∈ (updateEntry list uid primary secondary tertiary object).ladder.map
        LadderEntry.uid := by
  rw [updateEntry, if_neg (not_not.mpr own)]
  split
  · next absent => exact ⟨rfl, by simp⟩
  next entry found =>
    refine ⟨rfl, ?_⟩
    have uids := congrArg (map Prod.fst)
      (updateFirst_identity list.ladder uid primary secondary tertiary)
    rw [map_map, map_map] at uids
    have known : uid ∈ list.ladder.map LadderEntry.uid := by
      by_contra absent
      rw [find_none.mpr absent] at found
      cases found
    exact (show (updateFirst uid (.update primary secondary tertiary) list.ladder).map
      LadderEntry.uid = list.ladder.map LadderEntry.uid from uids) ▸ known

section
variable (listed : Listed seen list ranks)
include listed

theorem updateEntry_listed (uid primary secondary tertiary : UInt32) (named : object.uid = uid) :
    Listed seen (updateEntry list uid primary secondary tertiary object) ranks := by
  rw [updateEntry]
  split
  · exact listed
  next own =>
    split
    · next absent =>
        exact listed_append listed ⟨named, (not_not.mp own).symm⟩ (find_none.mp absent)
    · exact listed_identity listed (updateFirst_identity _ _ _ _ _)

theorem addEntry_listed (uid primary secondary tertiary : UInt32) (named : object.uid = uid)
    (fresh : uid ∉ list.ladder.map LadderEntry.uid) :
    Listed seen (addEntry list uid primary secondary tertiary object) ranks := by
  rw [addEntry]
  split
  · exact listed
  · next own => exact listed_append listed ⟨named, (not_not.mp own).symm⟩ fresh

theorem listed_ranks {others : Ranks}
    (same : ∀ entry ∈ seen, entry.uid ∉ list.ladder.map LadderEntry.uid →
      entry.referencedObject.getRank list.ladderKey others =
        entry.referencedObject.getRank list.ladderKey ranks) : Listed seen list others :=
  ⟨listed.distinct, listed.fits, listed.seenFits, fun entry inside missing =>
    (same entry inside missing).trans (listed.gone entry inside missing)⟩

theorem activateEntry_listed (named : entry.referencedObject.uid = entry.uid) :
    Listed seen (activateEntry list ranks entry).1 (activateEntry list ranks entry).2 := by
  have updated := updateEntry_listed listed entry.uid entry.primary entry.secondary
    entry.tertiary named
  obtain ⟨type, key⟩ := @updateEntry_type list entry.uid entry.primary entry.secondary
    entry.tertiary entry.referencedObject
  refine listed_ranks updated fun other inside missing => ?_
  rw [key]
  refine getRank_activate_other _ _ _ _ fun same => ?_
  have fits := listed.seenFits other inside
  have own : list.referenceType = entry.referencedObject.getReferenceType := by
    rw [← fits.2, same]
  have uid : other.uid = entry.uid := by rw [← fits.1, same, named]
  exact missing (uid ▸ (updateEntry_own entry.uid entry.primary entry.secondary entry.tertiary
    own).2)

theorem activateFrom_listed
    (named : ∀ entry ∈ currentLadder.ladder, entry.referencedObject.uid = entry.uid) :
    Listed seen (activateFrom list ranks currentLadder).1
      (activateFrom list ranks currentLadder).2 := by
  rw [activateFrom]
  generalize currentLadder.ladder = entries at named
  induction entries generalizing list ranks with
  | nil => exact listed
  | cons entry rest ih =>
    exact ih (activateEntry_listed listed (named entry mem_cons_self))
      fun other inside => named other (mem_cons_of_mem _ inside)

theorem delEntry_listed (uid : UInt32) :
    Listed (seen ++ list.ladder) (delEntry list ranks uid).1 (delEntry list ranks uid).2.1 := by
  have old := listed_seen listed
  rw [delEntry]
  split
  · exact old
  next removed found =>
    have named : removed.uid = uid := by simpa using find?_some found
    have inside := mem_of_find?_eq_some found
    have sub : (list.ladder.eraseP fun entry => entry.uid = uid).Sublist list.ladder :=
      eraseP_sublist
    refine ⟨(sub.map _).nodup listed.distinct, fun entry kept => listed.fits entry (sub.mem kept),
      old.seenFits, fun entry earlier missing => ?_⟩
    by_cases same : entry.uid = uid
    · have object := fits_uid (old.seenFits entry earlier) (listed.fits removed inside)
        (same.trans named.symm)
      rw [object]
      exact (setRank_stored _ _ removed 0).trans (ite_self 0)
    have unlisted : entry.uid ∉ list.ladder.map LadderEntry.uid := by
      intro known
      obtain ⟨original, member, equal⟩ := mem_map.mp known
      have kept : original ∈ list.ladder.eraseP fun entry => entry.uid = uid :=
        (mem_eraseP_of_neg (by simpa [equal] using same)).mpr member
      exact missing (equal ▸ mem_map_of_mem kept)
    have apart : entry.referencedObject ≠ removed.referencedObject := fun object =>
      same ((fits_object (old.seenFits entry earlier) (listed.fits removed inside) object).trans
        named)
    exact (setRank_frame _ _ removed 0 _ apart).trans (old.gone entry earlier unlisted)

end

end Changes

section Runs

inductive Operation where
  | addEntry (uid primary secondary tertiary : UInt32) (object : LadderReferencedObject)
  | updateEntry (uid primary secondary tertiary : UInt32) (object : LadderReferencedObject)
  | delEntry (uid : UInt32)
  | activateFrom (currentLadder : LadderList)
  | sortAndUpdate

def step (list : LadderList) (ranks : Ranks) : Operation → LadderList × Ranks
  | .addEntry uid primary secondary tertiary object =>
    (addEntry list uid primary secondary tertiary object, ranks)
  | .updateEntry uid primary secondary tertiary object =>
    (updateEntry list uid primary secondary tertiary object, ranks)
  | .delEntry uid => ((delEntry list ranks uid).1, (delEntry list ranks uid).2.1)
  | .activateFrom currentLadder => activateFrom list ranks currentLadder
  | .sortAndUpdate => sortAndUpdate list ranks

/-- The callers take the uid from the account or team, and add one to a list only once. -/
def Operation.Allowed (list : LadderList) : Operation → Prop
  | addEntry uid _ _ _ object => object.uid = uid ∧ uid ∉ list.ladder.map LadderEntry.uid
  | updateEntry uid _ _ _ object => object.uid = uid
  | activateFrom currentLadder =>
    ∀ entry ∈ currentLadder.ladder, entry.referencedObject.uid = entry.uid
  | _ => True

/-- A check of every step of a run: of the entries seen so far, the state and the operation. -/
def EveryStep (check : List LadderEntry → LadderList → Ranks → Operation → Prop) :
    List LadderEntry → LadderList → Ranks → List Operation → Prop
  | _, _, _, [] => True
  | seen, list, ranks, operation :: rest =>
    check seen list ranks operation ∧
      EveryStep check (seen ++ list.ladder) (step list ranks operation).1
        (step list ranks operation).2 rest

variable {seen : List LadderEntry} {list : LadderList} {ranks : Ranks}

theorem sort_clean (clean : list.dirty = false) : sortAndUpdate list ranks = (list, ranks) := by
  simp [sortAndUpdate, clean]

variable {operation : Operation}

theorem step_listed (listed : Listed seen list ranks) (allowed : operation.Allowed list) :
    Listed (seen ++ list.ladder) (step list ranks operation).1 (step list ranks operation).2 := by
  have old := listed_seen listed
  cases operation with
  | addEntry uid primary secondary tertiary object =>
    exact addEntry_listed old uid primary secondary tertiary allowed.1 allowed.2
  | updateEntry uid primary secondary tertiary object =>
    exact updateEntry_listed old uid primary secondary tertiary allowed
  | delEntry uid => exact delEntry_listed listed uid
  | activateFrom currentLadder => exact activateFrom_listed old allowed
  | sortAndUpdate =>
    cases dirty : list.dirty with
    | true => exact sort_listed listed dirty
    | false =>
      rw [step, sort_clean dirty]
      exact old

def SameRanks (list : LadderList) (ranks others : Ranks) : Prop :=
  ∀ object : LadderReferencedObject, object.getReferenceType = list.referenceType →
    object.getRank list.ladderKey others = object.getRank list.ladderKey ranks

theorem activateEntry_clean {entry : LadderEntry}
    (clean : (activateEntry list ranks entry).1.dirty = false) :
    (activateEntry list ranks entry).1 = list ∧
      SameRanks list ranks (activateEntry list ranks entry).2 := by
  have other : list.referenceType ≠ entry.referencedObject.getReferenceType := by
    intro own
    have dirty := (updateEntry_own entry.uid entry.primary entry.secondary entry.tertiary own).1
    exact Bool.false_ne_true (clean.symm.trans dirty)
  refine ⟨updateEntry_other _ _ _ _ other, fun object own => ?_⟩
  exact getRank_activate_other _ _ _ _ fun same => other (same ▸ own.symm)

theorem activateFrom_clean (clean : (activateFrom list ranks currentLadder).1.dirty = false) :
    (activateFrom list ranks currentLadder).1 = list ∧
      SameRanks list ranks (activateFrom list ranks currentLadder).2 := by
  rw [activateFrom] at clean ⊢
  generalize currentLadder.ladder = entries at clean ⊢
  induction entries generalizing list ranks with
  | nil => exact ⟨rfl, fun _ _ => rfl⟩
  | cons entry rest ih =>
    obtain ⟨sameList, sameRanks⟩ := @ih (activateEntry list ranks entry).1
      (activateEntry list ranks entry).2 clean
    obtain ⟨unchanged, stored⟩ := @activateEntry_clean list ranks entry
      ((congrArg LadderList.dirty sameList).symm.trans clean)
    refine ⟨sameList.trans unchanged, fun object own => ?_⟩
    have later := sameRanks object (own.trans (congrArg LadderList.referenceType unchanged).symm)
    rw [show (activateEntry list ranks entry).1.ladderKey = list.ladderKey from
      congrArg LadderList.ladderKey unchanged] at later
    exact later.trans (stored object own)

theorem step_clean (notSort : operation ≠ .sortAndUpdate)
    (clean : (step list ranks operation).1.dirty = false) :
    (step list ranks operation).1 = list ∧ SameRanks list ranks (step list ranks operation).2 := by
  cases operation with
  | addEntry uid primary secondary tertiary object =>
    refine ⟨?_, fun _ _ => rfl⟩
    rw [step, addEntry] at clean ⊢
    split at clean
    · next other => rw [if_pos other]
    · cases clean
  | updateEntry uid primary secondary tertiary object =>
    refine ⟨?_, fun _ _ => rfl⟩
    by_cases own : list.referenceType = object.getReferenceType
    · have dirty := (updateEntry_own uid primary secondary tertiary own).1
      exact absurd (clean.symm.trans dirty) Bool.false_ne_true
    · exact updateEntry_other _ _ _ _ own
  | delEntry uid =>
    simp only [step, delEntry] at clean ⊢
    split at clean
    · next absent => exact ⟨rfl, fun _ _ => rfl⟩
    · cases clean
  | activateFrom currentLadder => exact activateFrom_clean clean
  | sortAndUpdate => exact absurd rfl notSort

theorem consistent_same (listed : Listed seen list ranks) (consistent : Consistent seen list ranks)
    {others : Ranks} (same : SameRanks list ranks others) :
    Consistent (seen ++ list.ladder) list others := by
  have old := listed_seen listed
  refine ⟨consistent.few, consistent.distinct, consistent.descending, consistent.ranked,
    consistent.absent, ?_, ?_⟩
  · intro determines position entry uid found account
    rw [same _ (listed.fits entry (mem_of_getElem? found)).2]
    exact consistent.stored determines position entry uid found account
  · intro entry earlier missing
    rw [same _ (old.seenFits entry earlier).2]
    exact old.gone entry earlier missing

theorem run_consistent_iff (listed : Listed seen list ranks)
    (clean : list.dirty = false → Consistent seen list ranks) (operations : List Operation)
    (allowed : EveryStep (fun _ list _ operation => operation.Allowed list) seen list ranks
      operations) :
    EveryStep (fun seen list ranks operation => operation = .sortAndUpdate →
        Consistent (seen ++ list.ladder) (step list ranks operation).1
          (step list ranks operation).2) seen list ranks operations ↔
      EveryStep (fun _ list ranks operation => operation = .sortAndUpdate →
        list.dirty = true → RanksAgree list ranks) seen list ranks operations := by
  induction operations generalizing seen list ranks with
  | nil => exact Iff.rfl
  | cons operation rest ih =>
    have after := step_listed listed allowed.1
    have head : (operation = .sortAndUpdate →
          Consistent (seen ++ list.ladder) (step list ranks operation).1
            (step list ranks operation).2) ↔
        (operation = .sortAndUpdate → list.dirty = true → RanksAgree list ranks) := by
      refine imp_congr_right ?_
      rintro rfl
      cases dirty : list.dirty with
      | true => simpa [step] using sort_consistent_iff listed dirty
      | false =>
        have kept := consistent_same listed (clean dirty) fun _ _ => rfl
        simpa [step, sort_clean dirty] using kept
    -- What follows may count on the order of the list while it is not marked as dirty.
    have later : (operation = .sortAndUpdate →
          Consistent (seen ++ list.ladder) (step list ranks operation).1
            (step list ranks operation).2) →
        (step list ranks operation).1.dirty = false →
        Consistent (seen ++ list.ladder) (step list ranks operation).1
          (step list ranks operation).2 := by
      intro sorted cleanAfter
      by_cases sort : operation = .sortAndUpdate
      · exact sorted sort
      · obtain ⟨same, sameRanks⟩ := step_clean sort cleanAfter
        rw [same] at cleanAfter ⊢
        exact consistent_same listed (clean cleanAfter) sameRanks
    constructor
    · rintro ⟨sorted, others⟩
      exact ⟨head.mp sorted, (ih after (later sorted) allowed.2).mp others⟩
    · rintro ⟨agree, others⟩
      have sorted := head.mpr agree
      exact ⟨sorted, (ih after (later sorted) allowed.2).mpr others⟩

/-- In every run from the empty list, the ladder is in order after each `sortAndUpdate` exactly
when each one that has something to do finds the two copies of the ranks in agreement. -/
theorem ladder_consistent_exact (key : LadderKey) (type : ReferenceType) (ranks : Ranks)
    (operations : List Operation)
    (allowed : EveryStep (fun _ list _ operation => operation.Allowed list) []
      (create key type) ranks operations) :
    EveryStep (fun seen list ranks operation => operation = .sortAndUpdate →
        Consistent (seen ++ list.ladder) (step list ranks operation).1
          (step list ranks operation).2) [] (create key type) ranks operations ↔
      EveryStep (fun _ list ranks operation => operation = .sortAndUpdate →
        list.dirty = true → RanksAgree list ranks) [] (create key type) ranks operations := by
  have empty : Listed [] (create key type) ranks :=
    ⟨nodup_nil, fun _ inside => absurd inside not_mem_nil,
      fun _ inside => absurd inside not_mem_nil,
      fun _ inside => absurd inside not_mem_nil⟩
  exact run_consistent_iff empty (fun clean => by cases clean) operations allowed

def starRatings : LadderKey := ⟨.normal, 0x53544152, .highestrated, .current, by decide⟩

def unranked : Ranks := ⟨fun _ _ _ => 0, fun _ _ _ => 0, fun _ => 0⟩

theorem ladder_consistent_exact_sample :
    EveryStep (fun seen list ranks operation => operation = .sortAndUpdate →
        Consistent (seen ++ list.ladder) (step list ranks operation).1
          (step list ranks operation).2) [] (create starRatings .account) unranked
        [.addEntry 7 1500 12 640 (.account 7), .sortAndUpdate] ↔
      EveryStep (fun _ list ranks operation => operation = .sortAndUpdate →
        list.dirty = true → RanksAgree list ranks) [] (create starRatings .account) unranked
        [.addEntry 7 1500 12 640 (.account 7), .sortAndUpdate] :=
  ladder_consistent_exact starRatings .account unranked _
    ⟨⟨rfl, not_mem_nil⟩, trivial, trivial⟩

-- After a restart: the account has rank 1 from before, and the entry made from the file keeps 0.
theorem known_rank_not_taken_over :
    let loaded : Ranks := { unranked with rank := fun account _ _ => if account = 7 then 1 else 0 }
    let added := addEntry (create starRatings .account) 7 1500 12 640 (.account 7)
    let (list, ranks) := sortAndUpdate added loaded
    (Operation.addEntry 7 1500 12 640 (.account 7)).Allowed (create starRatings .account) ∧
      getRank list 7 = 0 ∧ ¬ Consistent added.ladder list ranks := by
  intro loaded added
  have sorted : sortAndUpdate added loaded = ({ added with dirty := false }, loaded) := by
    simp [added, loaded, addEntry, create, sortAndUpdate, sortEntries, rankEntries,
      LadderEntry.setRank, LadderReferencedObject.getRank, LadderReferencedObject.getReferenceType,
      LadderKey.determinesRank, starRatings, accountGetLadderRank, maxRankKeptInLadder]
  have unranked : getRank { added with dirty := false } 7 = 0 := by decide
  rw [sorted]
  refine ⟨⟨rfl, not_mem_nil⟩, unranked, fun consistent => ?_⟩
  have first := consistent.ranked 0 ⟨7, 1500, 12, 640, 0, .account 7⟩ rfl
  cases first

end Runs

end Pvpgn.Ladder
