import Pvpgn.LinkedMemory
import Pvpgn.Stdio

/-!
Clans, their members and the accounts of the members (`clan.cpp`). A member record is held by the
member list of a clan and by its account, and it points back to both. Records and clans lie in
memory and are freed by some of the calls: an access to a freed one is `none`.
-/

namespace Pvpgn.ClanMembers
open Stdio LinkedMemory List Option Function

structure Clanmember where
  memberacc : Option Nat
  status : UInt8
  joinTime : Int
  clan : Nat
  fullmember : Bool

structure Clan where
  clanid : UInt32
  tag : UInt32
  clanname : Text
  clanMotd : Text
  creationTime : Int
  created : Int
  modified : Bool
  channelType : Int
  members : Option (List Nat)

inductive StorageCall
  | writeClan (clan : Nat)
  | removeClanmember (account : Nat)

/-- `clanmember` is the field of each account, and `stored` what the storage was asked to do. -/
structure World where
  clans : Memory Clan
  members : Memory Clanmember
  clanlist : List Nat
  clanmember : Nat → Option Nat
  maxClanid : UInt32
  now : Int
  stored : List StorageCall

def clanChieftain : UInt8 := 4

def accountSetClanmember (world : World) (account : Nat) (member : Option Nat) : World :=
  { world with clanmember := Function.update world.clanmember account member }

/-- The addresses are those of the two blocks that `clan_create` allocates. -/
def clanCreate (world : World) (clan member chieftain : Nat) (clantag : UInt32)
    (clanname motd : Option Text) (channelType : Int) : Option (Option Nat × World) :=
  match clanname with
  | none => some (none, world)
  | some clanname => do
    let clans ← allocate world.clans clan {
      clanid := world.maxClanid + 1
      tag := clantag
      clanname
      clanMotd := motd.getD (text "This is a newly created clan")
      creationTime := world.now
      created := 0
      modified := true
      channelType
      members := some [member] }
    let members ← allocate world.members member {
      memberacc := some chieftain
      status := clanChieftain
      joinTime := world.now
      clan
      fullmember := true }
    some (some clan, accountSetClanmember
      { world with clans, members, maxClanid := world.maxClanid + 1 } chieftain (some member))

def clanlistAddClan (world : World) (clan : Option Nat) : Option (Int × World) :=
  match clan with
  | none => some (-1, world)
  | some clan => do
    let record ← load world.clans clan
    if record.clanid = 0 then do
      let clans ← store world.clans clan { record with clanid := world.maxClanid + 1 }
      some ((world.maxClanid + 1).toInt32.toInt, { world with
        clans
        maxClanid := world.maxClanid + 1
        clanlist := world.clanlist ++ [clan] })
    else some (record.clanid.toInt32.toInt, { world with clanlist := world.clanlist ++ [clan] })

def clanAddMember (world : World) (clan member memberacc : Nat) (status : UInt8) :
    Option (Option Nat × World) := do
  let record ← load world.clans clan
  match record.members with
  | none => some (none, world)
  | some list => do
    let members ← allocate world.members member {
      memberacc := some memberacc
      status
      joinTime := world.now
      clan
      fullmember := false }
    let clans ← store world.clans clan { record with
      members := some (list ++ [member])
      modified := true }
    some (some member, accountSetClanmember { world with clans, members } memberacc (some member))

def leaveAccount (world : World) (record : Clanmember) : World :=
  match record.memberacc with
  | none => world
  | some account => accountSetClanmember world account none

def forgetMember (world : World) (record : Clanmember) : World :=
  match record.memberacc with
  | none => world
  | some account =>
    if record.fullmember then
      { world with stored := world.stored ++ [.removeClanmember account] }
    else world

def clanRemoveMember (world : World) (clan : Nat) (member : Option Nat) : Option (Int × World) :=
  match member with
  | none => some (-1, world)
  | some member => do
    let record ← load world.clans clan
    match record.members with
    | none => some (-1, world)
    | some list =>
      if member ∈ list then do
        let entry ← load world.members member
        let clans ← store world.clans clan { record with
          members := some (list.erase member)
          modified := true }
        let members ← release world.members member
        some (0, forgetMember (leaveAccount { world with clans, members } entry) entry)
      else some (-1, world)

def removeMembers (world : World) : List Nat → Option World
  | [] => some world
  | member :: rest => do
    let entry ← load world.members member
    let members ← release world.members member
    removeMembers (leaveAccount { world with members } entry) rest

def clanRemoveAllMembers (world : World) (clan : Nat) : Option World := do
  let record ← load world.clans clan
  match record.members with
  | none => some world
  | some list => do
    let world ← removeMembers world list
    let clans ← store world.clans clan { record with members := none }
    some { world with clans }

def clanDestroy (world : World) (clan : Nat) : Option World := do
  let world ← clanRemoveAllMembers world clan
  let clans ← release world.clans clan
  some { world with clans }

def clanlistRemoveClan (world : World) (clan : Nat) : Int × World :=
  if clan ∈ world.clanlist then (0, { world with clanlist := world.clanlist.erase clan })
  else (-1, world)

def clanSave (world : World) (clan : Nat) : Option World := do
  let record ← load world.clans clan
  if record.created ≤ 0 then
    if world.now - record.creationTime > 120 then clanDestroy (clanlistRemoveClan world clan).2 clan
    else some world
  else do
    let clans ← store world.clans clan { record with modified := false }
    some { world with clans, stored := world.stored ++ [.writeClan clan] }

inductive Operation
  | create (clan member chieftain : Nat) (clantag : UInt32) (clanname motd : Option Text)
      (channelType : Int)
  | addMember (clan member memberacc : Nat) (status : UInt8)
  | removeMember (clan : Nat) (member : Option Nat)
  | save (clan : Nat)
  | destroy (clan : Nat)
  | setCreated (clan : Nat) (created : Int)
  | setFullmember (member : Nat) (fullmember : Bool)
  | tick (now : Int)

def step (world : World) : Operation → Option World
  | .create clan member chieftain clantag clanname motd channelType => do
    let (created, world) ← clanCreate world clan member chieftain clantag clanname motd
      channelType
    let (_, world) ← clanlistAddClan world created
    some world
  | .addMember clan member memberacc status => do
    let (_, world) ← clanAddMember world clan member memberacc status
    some world
  | .removeMember clan member => do
    let (_, world) ← clanRemoveMember world clan member
    some world
  | .save clan => clanSave world clan
  | .destroy clan => clanDestroy (clanlistRemoveClan world clan).2 clan
  | .setCreated clan created => do
    let record ← load world.clans clan
    let clans ← store world.clans clan { record with created }
    some { world with clans }
  | .setFullmember member fullmember => do
    let entry ← load world.members member
    let members ← store world.members member { entry with fullmember }
    some { world with members }
  | .tick now => some { world with now }

/-- Calls are for listed clans, the allocator gives unused addresses, and an account without a
member record is added. -/
def Permitted (world : World) : Operation → Prop
  | .create clan member chieftain _ _ _ _ =>
    load world.clans clan = none ∧ load world.members member = none ∧
      world.clanmember chieftain = none
  | .addMember clan member memberacc _ =>
    clan ∈ world.clanlist ∧ load world.members member = none ∧ world.clanmember memberacc = none
  | .removeMember clan _ => clan ∈ world.clanlist
  | .save clan => clan ∈ world.clanlist
  | .destroy clan => clan ∈ world.clanlist
  | .setCreated clan _ => clan ∈ world.clanlist
  | .setFullmember member _ => Allocated world.members member
  | .tick _ => True

inductive Reached : World → Prop
  | start (maxClanid : UInt32) (now : Int) : Reached ⟨∅, ∅, [], fun _ => none, maxClanid, now, []⟩
  | step {world after : World} {operation : Operation} (before : Reached world)
      (permitted : Permitted world operation) (ran : step world operation = some after) :
      Reached after

def membersOf (world : World) (clan : Nat) : List Nat :=
  ((load world.clans clan).bind fun record => record.members).getD []

def Belongs (world : World) (member clan account : Nat) : Prop :=
  ∃ entry, load world.members member = some entry ∧ entry.clan = clan ∧
    entry.memberacc = some account

structure Agree (world : World) : Prop where
  clanlist : world.clanlist.Nodup
  clans : ∀ clan ∈ world.clanlist, ∃ record, load world.clans clan = some record ∧
    record.members = some (membersOf world clan)
  once : ∀ clan ∈ world.clanlist, (membersOf world clan).Nodup
  members : ∀ clan ∈ world.clanlist, ∀ member ∈ membersOf world clan,
    ∃ account, Belongs world member clan account ∧ world.clanmember account = some member
  accounts : ∀ account member, world.clanmember account = some member →
    ∃ clan ∈ world.clanlist, member ∈ membersOf world clan ∧ Belongs world member clan account

section Agreement
variable {world after : World}

variable {clan member account : Nat} {list : List Nat} {record : Clan}

theorem members_of_load (present : load world.clans clan = some record)
    (members : record.members = some list) : membersOf world clan = list := by
  simp [membersOf, present, members]

theorem belongs_unique {first second a b : Nat} (left : Belongs world member first a)
    (right : Belongs world member second b) : first = second ∧ a = b := by
  obtain ⟨entry, present, firstClan, firstAccount⟩ := left
  obtain ⟨other, samePresent, secondClan, secondAccount⟩ := right
  obtain rfl := some.inj (present.symm.trans samePresent)
  exact ⟨firstClan.symm.trans secondClan, some.inj (firstAccount.symm.trans secondAccount)⟩

theorem clan_unique (agree : Agree world) {first second : Nat} (one : first ∈ world.clanlist)
    (two : second ∈ world.clanlist) (inFirst : member ∈ membersOf world first)
    (inSecond : member ∈ membersOf world second) : first = second := by
  obtain ⟨a, left, -⟩ := agree.members first one member inFirst
  obtain ⟨b, right, -⟩ := agree.members second two member inSecond
  exact (belongs_unique left right).1

theorem agree_drop (agree : Agree world) (gone : List Nat)
    (clanlist : after.clanlist.Sublist world.clanlist)
    (lists : ∀ clan ∈ after.clanlist, ∃ record, load after.clans clan = some record ∧
      record.members = some ((membersOf world clan).filter fun member => member ∉ gone))
    (left : ∀ clan ∈ world.clanlist, clan ∉ after.clanlist →
      ∀ member ∈ membersOf world clan, member ∈ gone)
    (belongs : ∀ member clan account, member ∉ gone → Belongs world member clan account →
      Belongs after member clan account) (clanmember : ∀ account, after.clanmember account =
      (world.clanmember account).filter fun member => member ∉ gone) : Agree after := by
  have membersAfter : ∀ clan ∈ after.clanlist, membersOf after clan =
      (membersOf world clan).filter fun member => member ∉ gone := by
    intro clan listed
    obtain ⟨record, present, members⟩ := lists clan listed
    exact members_of_load present members
  constructor
  · exact agree.clanlist.sublist clanlist
  · intro clan listed
    rw [membersAfter clan listed]
    exact lists clan listed
  · intro clan listed
    rw [membersAfter clan listed]
    exact (agree.once clan (clanlist.subset listed)).filter _
  · intro clan listed member inside
    rw [membersAfter clan listed] at inside
    obtain ⟨before, stays⟩ := mem_filter.mp inside
    have kept : member ∉ gone := by simpa using stays
    obtain ⟨account, entry, recorded⟩ := agree.members clan (clanlist.subset listed) member before
    refine ⟨account, belongs member clan account kept entry, ?_⟩
    simp [clanmember, recorded, kept]
  · intro account member recorded
    rw [clanmember, filter_eq_some_iff] at recorded
    obtain ⟨before, stays⟩ := recorded
    have kept : member ∉ gone := by simpa using stays
    obtain ⟨clan, listed, inside, entry⟩ := agree.accounts account member before
    have still : clan ∈ after.clanlist := by
      by_contra unlisted
      exact kept (left clan listed unlisted member inside)
    refine ⟨clan, still, ?_, belongs member clan account kept entry⟩
    rw [membersAfter clan still]
    exact mem_filter.mpr ⟨inside, by simpa using kept⟩

theorem agree_grow (agree : Agree world)
    (old : (clan ∈ world.clanlist ∧ list = membersOf world clan) ∨
      (clan ∉ world.clanlist ∧ list = [])) (fresh : load world.members member = none)
    (free : world.clanmember account = none) (nodup : after.clanlist.Nodup)
    (listed : ∀ other, other ∈ after.clanlist ↔ other = clan ∨ other ∈ world.clanlist)
    (own : ∃ record, load after.clans clan = some record ∧ record.members = some (list ++ [member]))
    (others : ∀ other, other ≠ clan → load after.clans other = load world.clans other)
    (new : Belongs after member clan account)
    (belongs : ∀ other place owner, Belongs world other place owner →
      Belongs after other place owner)
    (clanmember : after.clanmember = update world.clanmember account (some member)) :
    Agree after := by
  have ownMembers : membersOf after clan = list ++ [member] := by
    obtain ⟨record, present, members⟩ := own
    exact members_of_load present members
  have otherMembers : ∀ other, other ≠ clan → membersOf after other = membersOf world other := by
    intro other apart
    rw [membersOf, membersOf, others other apart]
  have unused : ∀ place ∈ world.clanlist, member ∉ membersOf world place := by
    intro place inList inside
    obtain ⟨_, ⟨entry, present, _⟩, _⟩ := agree.members place inList member inside
    rw [fresh] at present
    cases present
  have before : ∀ other ∈ list, clan ∈ world.clanlist ∧ other ∈ membersOf world clan := by
    intro other inside
    rcases old with ⟨inList, same⟩ | ⟨-, empty⟩
    · exact ⟨inList, same ▸ inside⟩
    · rw [empty] at inside
      cases inside
  have stays : ∀ {owner other : Nat}, world.clanmember owner = some other →
      after.clanmember owner = some other := by
    intro owner other recorded
    have apart : owner ≠ account := by
      rintro rfl
      rw [free] at recorded
      cases recorded
    rw [clanmember, update_of_ne apart, recorded]
  constructor
  · exact nodup
  · intro other inList
    by_cases same : other = clan
    · subst same
      rw [ownMembers]
      exact own
    · rw [otherMembers other same, others other same]
      exact agree.clans other (((listed other).mp inList).resolve_left same)
  · intro other inList
    by_cases same : other = clan
    · subst same
      rw [ownMembers]
      have distinct : list.Nodup := by
        rcases old with ⟨inList, rfl⟩ | ⟨-, rfl⟩
        · exact agree.once other inList
        · exact nodup_nil
      refine nodup_append.mpr ⟨distinct, by simp, ?_⟩
      intro first inside second last same
      rw [mem_singleton.mp last] at same
      obtain ⟨inList, inside⟩ := before first inside
      exact unused other inList (same ▸ inside)
    · rw [otherMembers other same]
      exact agree.once other (((listed other).mp inList).resolve_left same)
  · intro other inList one inside
    by_cases same : other = clan
    · subst same
      rw [ownMembers] at inside
      rcases mem_append.mp inside with earlier | last
      · obtain ⟨inList, inside⟩ := before one earlier
        obtain ⟨owner, entry, recorded⟩ := agree.members other inList one inside
        exact ⟨owner, belongs one other owner entry, stays recorded⟩
      · rw [mem_singleton.mp last]
        exact ⟨account, new, by rw [clanmember, update_self]⟩
    · rw [otherMembers other same] at inside
      obtain ⟨owner, entry, recorded⟩ :=
        agree.members other (((listed other).mp inList).resolve_left same) one inside
      exact ⟨owner, belongs one other owner entry, stays recorded⟩
  · intro owner one recorded
    by_cases same : owner = account
    · subst same
      rw [clanmember, update_self] at recorded
      obtain rfl := some.inj recorded
      refine ⟨clan, (listed clan).mpr (Or.inl rfl), ?_, new⟩
      rw [ownMembers]
      exact mem_append_right _ (mem_singleton_self _)
    rw [clanmember, update_of_ne same] at recorded
    obtain ⟨place, inList, inside, entry⟩ := agree.accounts owner one recorded
    refine ⟨place, (listed place).mpr (Or.inr inList), ?_, belongs one place owner entry⟩
    by_cases here : place = clan
    · subst here
      rw [ownMembers]
      rcases old with ⟨_, rfl⟩ | ⟨absent, -⟩
      · exact mem_append_left _ inside
      · exact absurd inList absent
    · rw [otherMembers place here]
      exact inside

structure Released (world after : World) (gone : List Nat) : Prop where
  clans : after.clans = world.clans
  clanlist : after.clanlist = world.clanlist
  members : ∀ member, load after.members member =
    if member ∈ gone then none else load world.members member
  clanmember : ∀ account, after.clanmember account =
    (world.clanmember account).filter fun member => member ∉ gone

theorem released_belongs {gone : List Nat} (released : Released world after gone)
    (kept : member ∉ gone) :
    Belongs after member clan account ↔ Belongs world member clan account := by
  rw [Belongs, Belongs, released.members, if_neg kept]

theorem release_one (world : World) (entry : Clanmember)
    (present : load world.members member = some entry) (belongs : Belongs world member clan account)
    (recorded : world.clanmember account = some member)
    (single : ∀ other, world.clanmember other = some member → other = account) :
    ∃ members, release world.members member = some members ∧
      Released world (leaveAccount { world with members } entry) [member] := by
  obtain ⟨same, samePresent, -, owner⟩ := belongs
  obtain rfl := some.inj (present.symm.trans samePresent)
  refine ⟨_, release_allocated world.members member entry present, ?_⟩
  rw [leaveAccount, owner]
  refine ⟨rfl, rfl, fun other => ?_, fun other => ?_⟩
  · simp only [mem_singleton]
    exact load_erase world.members member other
  change update world.clanmember account none other = _
  by_cases own : other = account
  · subst own
    simp [recorded, Option.filter]
  rw [update_of_ne own]
  cases found : world.clanmember other with
  | none => rfl
  | some held =>
    have apart : held ≠ member := by
      rintro rfl
      exact own (single other found)
    simp [apart, Option.filter]

theorem remove_members_spec (world : World) (list : List Nat) (nodup : list.Nodup)
    (held : ∀ member ∈ list, ∃ clan account, Belongs world member clan account ∧
      world.clanmember account = some member ∧
      ∀ other, world.clanmember other = some member → other = account) :
    ∃ after, removeMembers world list = some after ∧ Released world after list := by
  induction list generalizing world with
  | nil =>
    refine ⟨world, rfl, rfl, rfl, by simp, fun account => ?_⟩
    cases world.clanmember account <;> simp [Option.filter]
  | cons member rest ih =>
    obtain ⟨clan, account, belongs, recorded, single⟩ := held member (by simp)
    obtain ⟨entry, present, -, -⟩ := id belongs
    obtain ⟨members, freed, first⟩ := release_one world entry present belongs recorded single
    obtain ⟨absent, restNodup⟩ := nodup_cons.mp nodup
    have heldRest : ∀ other ∈ rest, ∃ clan account,
        Belongs (leaveAccount { world with members } entry) other clan account ∧
        (leaveAccount { world with members } entry).clanmember account = some other ∧
        ∀ owner, (leaveAccount { world with members } entry).clanmember owner = some other →
          owner = account := by
      intro other inside
      have apart : other ∉ [member] := by
        rw [mem_singleton]
        rintro rfl
        exact absent inside
      obtain ⟨place, owner, otherBelongs, otherRecorded, otherSingle⟩ :=
        held other (mem_cons_of_mem member inside)
      refine ⟨place, owner, (released_belongs first apart).mpr otherBelongs, ?_, ?_⟩
      · rw [first.clanmember, otherRecorded]
        simpa using apart
      · intro someone has
        rw [first.clanmember, filter_eq_some_iff] at has
        exact otherSingle someone has.1
    obtain ⟨after, ran, later⟩ := ih _ restNodup heldRest
    refine ⟨after, ?_, ?_⟩
    · simp only [removeMembers, present, freed, bind_eq_bind, bind_some]
      exact ran
    refine ⟨later.clans.trans first.clans, later.clanlist.trans first.clanlist, ?_, ?_⟩
    · intro other
      rw [later.members, first.members]
      by_cases one : other = member <;> by_cases two : other ∈ rest <;> simp [one, two]
    intro owner
    rw [later.clanmember, first.clanmember, Option.filter_filter]
    congr 1
    funext other
    simp

section
variable (agree : Agree world)
include agree

theorem agree_held {clan member : Nat} (listed : clan ∈ world.clanlist)
    (inside : member ∈ membersOf world clan) :
    ∃ place account, Belongs world member place account ∧ world.clanmember account = some member ∧
      ∀ other, world.clanmember other = some member → other = account := by
  obtain ⟨account, belongs, recorded⟩ := agree.members clan listed member inside
  refine ⟨clan, account, belongs, recorded, fun other has => ?_⟩
  obtain ⟨place, _, _, otherBelongs⟩ := agree.accounts other member has
  exact (belongs_unique otherBelongs belongs).2

theorem agree_keep (clanlist : after.clanlist = world.clanlist)
    (lists : ∀ clan ∈ world.clanlist, ∃ record, load after.clans clan = some record ∧
      record.members = some (membersOf world clan))
    (belongs : ∀ member clan account, Belongs world member clan account →
      Belongs after member clan account)
    (clanmember : after.clanmember = world.clanmember) : Agree after := by
  refine agree_drop agree [] (by rw [clanlist]) ?_ ?_ ?_ ?_
  · intro clan listed
    obtain ⟨record, present, members⟩ := lists clan (clanlist ▸ listed)
    exact ⟨record, present, by simpa using members⟩
  · intro clan listed unlisted
    exact absurd (clanlist.symm ▸ listed) unlisted
  · exact fun member clan account _ entry => belongs member clan account entry
  · intro account
    rw [clanmember]
    cases world.clanmember account <;> simp [Option.filter]

theorem replaced_lists (present : load world.clans clan = some record) (change : Clan)
    (members : change.members = record.members) :
    ∀ other ∈ world.clanlist, ∃ found, load (world.clans.insert clan change) other = some found ∧
      found.members = some (membersOf world other) := by
  intro other listed
  obtain ⟨found, there, list⟩ := agree.clans other listed
  rw [load_insert]
  by_cases own : other = clan
  · subst own
    obtain rfl := some.inj (present.symm.trans there)
    exact ⟨change, if_pos rfl, members.trans list⟩
  · exact ⟨found, by rw [if_neg own, there], list⟩

theorem destroy_agree (listed : clan ∈ world.clanlist) :
    ∃ after, clanDestroy (clanlistRemoveClan world clan).2 clan = some after ∧ Agree after := by
  obtain ⟨record, present, members⟩ := agree.clans clan listed
  obtain ⟨freed, ran, released⟩ := remove_members_spec
    { world with clanlist := world.clanlist.erase clan } (membersOf world clan) (agree.once
    clan listed) fun member inside => agree_held agree listed inside
  have there : load freed.clans clan = some record := by rw [released.clans]; exact present
  have unlist : (clanlistRemoveClan world clan).2 =
      { world with clanlist := world.clanlist.erase clan } := by
    rw [clanlistRemoveClan, if_pos listed]
  refine ⟨{ freed with clans := (freed.clans.insert clan
    { record with members := none }).erase clan },
    ?_, ?_⟩
  · have emptied := store_allocated freed.clans clan record { record with members := none } there
    have gone := release_allocated (freed.clans.insert clan { record with members := none }) clan
      { record with members := none } (by rw [load_insert, if_pos rfl])
    rw [unlist, clanDestroy, clanRemoveAllMembers]
    simp [present, members, ran, emptied, gone]
  have shorter : freed.clanlist = world.clanlist.erase clan := released.clanlist
  refine agree_drop agree (membersOf world clan) ?_ ?_ ?_ ?_ released.clanmember
  · rw [shorter]
    exact erase_sublist
  · intro other inside
    rw [shorter] at inside
    obtain ⟨apart, before⟩ := (agree.clanlist.mem_erase_iff).mp inside
    obtain ⟨found, foundThere, list⟩ := agree.clans other before
    refine ⟨found, ?_, ?_⟩
    · rw [load_erase, if_neg apart, load_insert, if_neg apart, released.clans]
      exact foundThere
    rw [list, some.injEq, eq_comm, filter_eq_self]
    intro member inOther
    have outside : member ∉ membersOf world clan := fun inClan =>
      apart (clan_unique agree before listed inOther inClan)
    simpa using outside
  · intro other before unlisted member inside
    rw [shorter, agree.clanlist.mem_erase_iff] at unlisted
    have same : other = clan := by
      by_contra apart
      exact unlisted ⟨apart, before⟩
    rwa [same] at inside
  · intro member place account kept entry
    exact (released_belongs released kept).mpr entry

theorem save_agree (listed : clan ∈ world.clanlist) :
    ∃ after, clanSave world clan = some after ∧ Agree after := by
  obtain ⟨record, present, -⟩ := agree.clans clan listed
  rw [clanSave, present]
  by_cases unfinished : record.created ≤ 0
  · by_cases expired : world.now - record.creationTime > 120
    · simpa [unfinished, expired] using destroy_agree agree listed
    · exact ⟨world, by simp [unfinished, expired], agree⟩
  have written := store_allocated world.clans clan record
    { record with modified := false } present
  refine ⟨{ world with
    clans := world.clans.insert clan { record with modified := false }
    stored := world.stored ++ [.writeClan clan] }, by simp [unfinished, written], ?_⟩
  exact agree_keep agree rfl (replaced_lists agree present _ rfl) (fun _ _ _ entry => entry) rfl

theorem set_created_agree (listed : clan ∈ world.clanlist) (created : Int) :
    ∃ after, step world (.setCreated clan created) = some after ∧ Agree after := by
  obtain ⟨record, present, -⟩ := agree.clans clan listed
  have written := store_allocated world.clans clan record { record with created } present
  refine ⟨{ world with clans := world.clans.insert clan { record with created } },
    by simp [step, present, written], ?_⟩
  exact agree_keep agree rfl (replaced_lists agree present _ rfl) (fun _ _ _ entry => entry) rfl

theorem set_fullmember_agree (allocated : Allocated world.members member) (fullmember : Bool) :
    ∃ after, step world (.setFullmember member fullmember) = some after ∧ Agree after := by
  obtain ⟨entry, present⟩ := allocated
  have written := store_allocated world.members member entry { entry with fullmember } present
  refine ⟨{ world with members := world.members.insert member { entry with fullmember } },
    by simp [step, present, written], ?_⟩
  refine agree_keep agree rfl agree.clans ?_ rfl
  rintro other clan account ⟨found, there, place, owner⟩
  by_cases same : other = member
  · subst same
    obtain rfl := some.inj (present.symm.trans there)
    exact ⟨{ entry with fullmember }, by rw [load_insert, if_pos rfl], place, owner⟩
  · exact ⟨found, by rw [load_insert, if_neg same, there], place, owner⟩

end

theorem forget_same (world : World) (entry : Clanmember) :
    (forgetMember world entry).clans = world.clans ∧
      (forgetMember world entry).members = world.members ∧
      (forgetMember world entry).clanlist = world.clanlist ∧
      (forgetMember world entry).clanmember = world.clanmember := by
  rw [forgetMember]
  split
  · exact ⟨rfl, rfl, rfl, rfl⟩
  · split <;> exact ⟨rfl, rfl, rfl, rfl⟩

theorem filter_out (nodup : list.Nodup) (member : Nat) :
    (list.filter fun other => other ∉ [member]) = list.erase member := by
  rw [nodup.erase_eq_filter]
  congr 1
  funext other
  by_cases same : other = member <;> simp [same]

theorem remove_member_agree (agree : Agree world) (listed : clan ∈ world.clanlist)
    (member : Option Nat) :
    ∃ after, step world (.removeMember clan member) = some after ∧ Agree after := by
  obtain ⟨record, present, list⟩ := agree.clans clan listed
  cases member with
  | none => exact ⟨world, by simp [step, clanRemoveMember], agree⟩
  | some member =>
    by_cases inside : member ∈ membersOf world clan
    · obtain ⟨account, belongs, recorded⟩ := agree.members clan listed member inside
      obtain ⟨_, _, _, _, single⟩ := agree_held agree listed inside
      have alone : ∀ other, world.clanmember other = some member → other = account :=
        fun other has => (single other has).trans (single account recorded).symm
      obtain ⟨entry, there, -, -⟩ := id belongs
      obtain ⟨change, changed⟩ : ∃ change : Clan, change = { record with
        members := some ((membersOf world clan).erase member)
        modified := true } := ⟨_, rfl⟩
      have written := store_allocated world.clans clan record change present
      obtain ⟨members, freed, released⟩ := release_one
        { world with clans := world.clans.insert clan change } entry there belongs recorded alone
      refine ⟨forgetMember (leaveAccount { world with
        clans := world.clans.insert clan change
        members } entry) entry, ?_, ?_⟩
      · rw [step, clanRemoveMember]
        simp only [present, list, if_pos inside, there, ← changed, written, freed,
          bind_eq_bind, bind_some]
      obtain ⟨clans, sameMembers, clanlist, clanmember⟩ := forget_same (leaveAccount { world with
        clans := world.clans.insert clan change
        members } entry) entry
      refine agree_drop agree [member] ?_ ?_ ?_ ?_ ?_
      · rw [clanlist, released.clanlist]
      · intro other still
        rw [clanlist, released.clanlist] at still
        rw [clans, released.clans]
        by_cases own : other = clan
        · subst own
          refine ⟨change, by rw [load_insert, if_pos rfl], ?_⟩
          rw [filter_out (agree.once other still), changed]
        obtain ⟨found, foundThere, others⟩ := agree.clans other still
        refine ⟨found, by rw [load_insert, if_neg own, foundThere], ?_⟩
        have outside : member ∉ membersOf world other := fun inOther =>
          own (clan_unique agree still listed inOther inside)
        rw [others, filter_out (agree.once other still), erase_of_not_mem outside]
      · intro other before unlisted
        rw [clanlist, released.clanlist] at unlisted
        exact absurd before unlisted
      · intro other place owner kept belongsOther
        have moved := (released_belongs released kept).mpr belongsOther
        rwa [Belongs, sameMembers]
      · intro owner
        rw [clanmember, released.clanmember]
    · exact ⟨world, by simp [step, clanRemoveMember, present, list, inside], agree⟩

theorem belongs_insert {other : Nat} {entry : Clanmember} (fresh : load world.members member = none)
    (same : after.members = world.members.insert member entry)
    (belongs : Belongs world other clan account) : Belongs after other clan account := by
  obtain ⟨found, there, place, owner⟩ := belongs
  have apart : other ≠ member := by
    rintro rfl
    rw [fresh] at there
    cases there
  exact ⟨found, by rw [same, load_insert, if_neg apart, there], place, owner⟩

theorem add_member_agree (agree : Agree world) {memberacc : Nat} {status : UInt8}
    (permitted : Permitted world (.addMember clan member memberacc status)) :
    ∃ after, step world (.addMember clan member memberacc status) = some after ∧ Agree after := by
  obtain ⟨listed, fresh, free⟩ := permitted
  obtain ⟨record, present, list⟩ := agree.clans clan listed
  obtain ⟨entry, made⟩ : ∃ entry : Clanmember, entry =
    { memberacc := some memberacc, status, joinTime := world.now, clan, fullmember := false } :=
    ⟨_, rfl⟩
  obtain ⟨change, changed⟩ : ∃ change : Clan, change = { record with
    members := some (membersOf world clan ++ [member])
    modified := true } := ⟨_, rfl⟩
  have allocated := allocate_fresh world.members member entry fresh
  have written := store_allocated world.clans clan record change present
  refine ⟨accountSetClanmember { world with
    clans := world.clans.insert clan change
    members := world.members.insert member entry } memberacc (some member), ?_, ?_⟩
  · rw [step, clanAddMember]
    simp only [present, list, ← made, allocated, ← changed, written, bind_eq_bind, bind_some]
  refine agree_grow agree (Or.inl ⟨listed, rfl⟩) fresh free agree.clanlist ?_ ?_ ?_ ?_ ?_ rfl
  · intro other
    exact ⟨Or.inr, fun inside => inside.elim (fun same => same ▸ listed) id⟩
  · refine ⟨change, ?_, by rw [changed]⟩
    change load (world.clans.insert clan change) clan = _
    rw [load_insert, if_pos rfl]
  · intro other apart
    change load (world.clans.insert clan change) other = _
    rw [load_insert, if_neg apart]
  · refine ⟨entry, ?_, by rw [made], by rw [made]⟩
    change load (world.members.insert member entry) member = _
    rw [load_insert, if_pos rfl]
  · intro other place owner belongs
    exact belongs_insert fresh rfl belongs

theorem add_clan_spec (present : load world.clans clan = some record) :
    ∃ code after, clanlistAddClan world (some clan) = some (code, after) ∧
      after.clanlist = world.clanlist ++ [clan] ∧ after.members = world.members ∧
      after.clanmember = world.clanmember ∧
      (∃ change, load after.clans clan = some change ∧ change.members = record.members) ∧
      ∀ other, other ≠ clan → load after.clans other = load world.clans other := by
  by_cases zero : record.clanid = 0
  · have written := store_allocated world.clans clan record
      { record with clanid := world.maxClanid + 1 } present
    refine ⟨(world.maxClanid + 1).toInt32.toInt, { world with
      clans := world.clans.insert clan { record with clanid := world.maxClanid + 1 }
      maxClanid := world.maxClanid + 1
      clanlist := world.clanlist ++ [clan] }, ?_, rfl, rfl, rfl, ?_, ?_⟩
    · simp only [clanlistAddClan, present, if_pos zero, written, bind_eq_bind, bind_some]
    · refine ⟨{ record with clanid := world.maxClanid + 1 }, ?_, rfl⟩
      rw [load_insert, if_pos rfl]
    · intro other apart
      rw [load_insert, if_neg apart]
  · refine ⟨record.clanid.toInt32.toInt, { world with clanlist := world.clanlist ++ [clan] }, ?_,
      rfl, rfl, rfl, ⟨record, present, rfl⟩, fun other _ => rfl⟩
    simp only [clanlistAddClan, present, if_neg zero, bind_eq_bind, bind_some]

theorem create_agree (agree : Agree world) {clan member chieftain : Nat} {clantag : UInt32}
    {clanname motd : Option Text} {channelType : Int}
    (permitted : Permitted world
      (.create clan member chieftain clantag clanname motd channelType)) :
    ∃ after, step world (.create clan member chieftain clantag clanname motd channelType) =
      some after ∧ Agree after := by
  obtain ⟨freshClan, freshMember, free⟩ := permitted
  cases clanname with
  | none => exact ⟨world, by simp [step, clanCreate, clanlistAddClan], agree⟩
  | some clanname =>
    obtain ⟨record, recorded⟩ : ∃ record : Clan, record = {
      clanid := world.maxClanid + 1, tag := clantag, clanname
      clanMotd := motd.getD (text "This is a newly created clan")
      creationTime := world.now, created := 0, modified := true, channelType
      members := some [member] } := ⟨_, rfl⟩
    obtain ⟨entry, made⟩ : ∃ entry : Clanmember, entry =
      { memberacc := some chieftain, status := clanChieftain, joinTime := world.now, clan
        fullmember := true } := ⟨_, rfl⟩
    have clanBlock := allocate_fresh world.clans clan record freshClan
    have memberBlock := allocate_fresh world.members member entry freshMember
    obtain ⟨middle, built⟩ : ∃ middle : World, middle = accountSetClanmember { world with
      clans := world.clans.insert clan record
      members := world.members.insert member entry
      maxClanid := world.maxClanid + 1 } chieftain (some member) := ⟨_, rfl⟩
    have created : clanCreate world clan member chieftain clantag
      (some clanname) motd channelType = some (some clan, middle) := by
      simp only [clanCreate, ← recorded, ← made, clanBlock, memberBlock, bind_eq_bind,
        bind_some, built]
    have present : load middle.clans clan = some record := by
      rw [built]
      change load (world.clans.insert clan record) clan = _
      rw [load_insert, if_pos rfl]
    obtain ⟨code, after, added, clanlist, members, clanmember, own, others⟩ := add_clan_spec present
    have unlisted : clan ∉ world.clanlist := by
      intro listed
      obtain ⟨_, there, _⟩ := agree.clans clan listed
      rw [freshClan] at there
      cases there
    have oldList : middle.clanlist = world.clanlist := by rw [built]; rfl
    have newMembers : after.members = world.members.insert member entry := by
      rw [members, built]
      rfl
    refine ⟨after, by simp [step, created, added], ?_⟩
    refine agree_grow agree (Or.inr ⟨unlisted, rfl⟩) freshMember free ?_ ?_ ?_ ?_ ?_ ?_ ?_
    · rw [clanlist, oldList]
      refine nodup_append.mpr ⟨agree.clanlist, by simp, ?_⟩
      intro other listed last new same
      rw [mem_singleton.mp new] at same
      exact unlisted (same ▸ listed)
    · intro other
      rw [clanlist, oldList, mem_append, mem_singleton, or_comm]
    · obtain ⟨change, there, list⟩ := own
      exact ⟨change, there, by rw [list, recorded]; rfl⟩
    · intro other apart
      rw [others other apart, built]
      change load (world.clans.insert clan record) other = _
      rw [load_insert, if_neg apart]
    · exact ⟨entry, by rw [newMembers, load_insert, if_pos rfl], by rw [made], by rw [made]⟩
    · intro other place owner belongs
      exact belongs_insert freshMember newMembers belongs
    · rw [clanmember, built]
      rfl

theorem step_agree (agree : Agree world) {operation : Operation}
    (permitted : Permitted world operation) :
    ∃ after, step world operation = some after ∧ Agree after := by
  cases operation with
  | create clan member chieftain clantag clanname motd channelType =>
    exact create_agree agree permitted
  | addMember clan member memberacc status => exact add_member_agree agree permitted
  | removeMember clan member => exact remove_member_agree agree permitted member
  | save clan => exact save_agree agree permitted
  | destroy clan => exact destroy_agree agree permitted
  | setCreated clan created => exact set_created_agree agree permitted created
  | setFullmember member fullmember => exact set_fullmember_agree agree permitted fullmember
  | tick now => exact ⟨{ world with now }, rfl, agree_keep agree rfl agree.clans
      (fun _ _ _ entry => entry) rfl⟩

theorem start_agree (maxClanid : UInt32) (now : Int) :
    Agree ⟨∅, ∅, [], fun _ => none, maxClanid, now, []⟩ := by
  constructor <;> simp

theorem reached_agree (reached : Reached world) : Agree world := by
  induction reached with
  | start maxClanid now => exact start_agree maxClanid now
  | step before permitted ran ih =>
    obtain ⟨after, same, agree⟩ := step_agree ih permitted
    rw [ran, some.injEq] at same
    exact same ▸ agree

/-- In every reachable world the records of the accounts are the members of the listed clans, and no
permitted call uses a record that was freed. -/
theorem clan_members_agree (reached : Reached world) :
    (∀ account, world.clanmember account = none ∨ ∃ member clan,
      world.clanmember account = some member ∧ clan ∈ world.clanlist ∧
      member ∈ membersOf world clan ∧ Belongs world member clan account ∧
      ∀ other ∈ world.clanlist, member ∈ membersOf world other → other = clan) ∧
    (∀ clan ∈ world.clanlist, ∀ member ∈ membersOf world clan, ∃ account,
      Belongs world member clan account ∧ world.clanmember account = some member) ∧
    ∀ operation, Permitted world operation → ∃ after, step world operation = some after := by
  have agree := reached_agree reached
  refine ⟨fun account => ?_, agree.members, fun operation permitted => ?_⟩
  · cases recorded : world.clanmember account with
    | none => exact Or.inl rfl
    | some member =>
      obtain ⟨clan, listed, inside, belongs⟩ := agree.accounts account member recorded
      refine Or.inr ⟨member, clan, rfl, listed, inside, belongs, fun other otherListed also => ?_⟩
      exact clan_unique agree otherListed listed also inside
  · obtain ⟨after, ran, -⟩ := step_agree agree permitted
    exact ⟨after, ran⟩

end Agreement

theorem founded_clan_agrees : ∃ world, Reached world ∧ world.clanlist = [1] ∧
    ∃ account, Belongs world 2 1 account ∧ world.clanmember account = some 2 := by
  have found : Permitted ⟨∅, ∅, [], fun _ => none, 0, 0, []⟩
      (.create 1 2 7 5 (some [65]) none 0) := ⟨rfl, rfl, rfl⟩
  obtain ⟨world, ran, -⟩ := step_agree (start_agree 0 0) found
  have reached := Reached.step (Reached.start 0 0) found ran
  have listed : world.clanlist = [1] := by
    obtain rfl := Option.some.inj ran
    rfl
  have inside : 2 ∈ membersOf world 1 := by
    obtain rfl := Option.some.inj ran
    decide
  exact ⟨world, reached, listed, (clan_members_agree reached).2.1 1 (by rw [listed]; simp) 2 inside⟩

end Pvpgn.ClanMembers
