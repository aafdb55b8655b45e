import Pvpgn.Stdio

/-!
Friends of accounts: the attributes `friend\count`, `friend\N\uid` and the older `friend\N\name`,
the list kept in memory with its mutual flags, and the calls that change both. Accounts are named by
their uids.
-/

namespace Pvpgn.Friends
open Stdio List Option

structure Friend where
  account : UInt32
  /-- `mutual`. -/
  flag : Int
  deriving Repr, DecidableEq

structure Account where
  count : Nat
  /-- 0 where there is no such attribute. -/
  uid : Nat → UInt32
  name : Nat → Option Text
  /-- None before `account_load_friends`, which sets `ACCOUNT_FLAG_FLOADED`. -/
  friends : Option (List Friend)

/-- What the functions read of the preferences and of the account list. -/
structure Server where
  maxFriends : Nat
  /-- `accountlist_find_account_by_uid` gives an account. -/
  known : UInt32 → Bool
  /-- `accountlist_find_account`. -/
  find : Text → Option UInt32
  /-- `account_get_name`. -/
  username : UInt32 → Text

abbrev World := UInt32 → Account

def modify (world : World) (account : UInt32) (change : Account → Account) : World :=
  fun other => if other = account then change (world other) else world other

def accountSetFriend (server : Server) (account : Account) (friendnum : Nat) (frienduid : UInt32) :
    Int × Account :=
  if frienduid = 0 ∨ server.maxFriends ≤ friendnum then (-1, account)
  else (0, { account with
    uid := fun index => if index = friendnum then frienduid else account.uid index })

def removeName (account : Account) (friendnum : Nat) : Account :=
  { account with name := fun index => if index = friendnum then none else account.name index }

def accountGetFriend (server : Server) (account : Account) (friendnum : Nat) : UInt32 × Account :=
  if server.maxFriends ≤ friendnum then (0, account)
  else if account.uid friendnum = 0 then
    -- friends still stored in old format
    match account.name friendnum with
    | none => (0, account)
    | some name =>
      match server.find name with
      | none => (0, removeName account friendnum)
      | some found =>
        (found, removeName (accountSetFriend server account friendnum found).2 friendnum)
  else (account.uid friendnum, account)

def accountSetFriendcount (server : Server) (account : Account) (count : Nat) : Int × Account :=
  if server.maxFriends < count then (-1, account) else (0, { account with count := count })

/-- The loop of `account_remove_friend`, from `index` on. -/
def shiftFriends (server : Server) : Nat → Nat → Account → Account
  | 0, _, account => account
  | remaining + 1, index, account =>
    let (frienduid, account) := accountGetFriend server account (index + 1)
    shiftFriends server remaining (index + 1)
      (accountSetFriend server account index frienduid).2

def accountRemoveFriend (server : Server) (account : Account) (friendnum : Nat) : Int × Account :=
  let count := account.count
  if count ≤ friendnum then (-1, account)
  else
    let account := shiftFriends server (count - 1 - friendnum) friendnum account
    let account := (accountSetFriend server account (count - 1) 0).2
    (0, (accountSetFriendcount server account (count - 1)).2)

def friendlistFindUid (list : List Friend) (uid : UInt32) : Option Friend :=
  list.find? fun entry => entry.account = uid

/-- `friend_set_mutual` on the entry that is found first. -/
def setMutual (uid : UInt32) (flag : Int) : List Friend → List Friend
  | [] => []
  | entry :: rest =>
    if entry.account = uid then { entry with flag := flag } :: rest
    else entry :: setMutual uid flag rest

/-- The loop over the attributes in `account_check_mutual`. -/
def hasFriend (server : Server) (myuserid : UInt32) : Nat → Nat → Account → Bool × Account
  | 0, _, account => (false, account)
  | remaining + 1, index, account =>
    let (frienduid, account) := accountGetFriend server account index
    if frienduid ≠ 0 ∧ frienduid = myuserid then (true, account)
    else hasFriend server myuserid remaining (index + 1) account

def accountCheckMutual (server : Server) (world : World) (account myuserid : UInt32) :
    Int × World :=
  if myuserid = 0 then (-1, world)
  else
    match (world account).friends with
    | some list =>
      match friendlistFindUid list myuserid with
      | some _ => (0, modify world account fun old =>
        { old with friends := some (setMutual myuserid 1 list) })
      | none => (-1, world)
    | none =>
      let (found, checked) := hasFriend server myuserid (world account).count 0 (world account)
      (if found then 0 else -1, modify world account fun _ => checked)

def friendlistAddAccount (world : World) (account : UInt32) (friend : Friend) : World :=
  modify world account fun old => { old with friends := some (old.friends.getD [] ++ [friend]) }

/-- The loop of `account_load_friends` for a list that has just been created. -/
def loadFriends (server : Server) (account : UInt32) : Nat → Nat → World → World
  | 0, _, world => world
  | remaining + 1, index, world =>
    let (frienduid, checked) := accountGetFriend server (world account) index
    let world := modify world account fun _ => checked
    if frienduid = 0 then
      loadFriends server account remaining (index + 1)
        (modify world account fun old => (accountRemoveFriend server old index).2)
    else if server.known frienduid = false then
      let (result, removed) := accountRemoveFriend server (world account) index
      loadFriends server account remaining (if result = 0 then index else index + 1)
        (modify world account fun _ => removed)
    else
      let (result, world) := accountCheckMutual server world frienduid account
      loadFriends server account remaining (index + 1)
        (friendlistAddAccount world account ⟨frienduid, if result = 0 then 1 else 0⟩)

def accountGetFriends (server : Server) (world : World) (account : UInt32) : World :=
  match (world account).friends with
  | some _ => world
  | none =>
    loadFriends server account (world account).count 0
      (modify world account fun old => { old with friends := some [] })

def accountAddFriend (server : Server) (world : World) (myAcc facc : UInt32) : Int × World :=
  if myAcc = facc then (-2, world)
  else
    let nf := (world myAcc).count
    if server.maxFriends ≤ nf then (-3, world)
    else
      let world := accountGetFriends server world myAcc
      if (friendlistFindUid ((world myAcc).friends.getD []) facc).isSome then (-4, world)
      else
        let world := modify world myAcc fun old => (accountSetFriend server old nf facc).2
        let world := modify world myAcc fun old => (accountSetFriendcount server old (nf + 1)).2
        let (result, world) := accountCheckMutual server world facc myAcc
        (0, friendlistAddAccount world myAcc ⟨facc, if result = 0 then 1 else 0⟩)

/-- `friendlist_find_username`. -/
def namedFriend (server : Server) (username : Text) (entry : Friend) : Bool :=
  sameCaseless (server.username entry.account) username

def findFriend (server : Server) (uid : UInt32) : Nat → Nat → Account → Option Nat × Account
  | 0, _, account => (none, account)
  | remaining + 1, index, account =>
    let (frienduid, account) := accountGetFriend server account index
    if frienduid = uid then (some index, account)
    else findFriend server uid remaining (index + 1) account

def accountRemoveFriend2 (server : Server) (world : World) (account : UInt32) (frienduid : Text) :
    Int × World :=
  let world := accountGetFriends server world account
  match ((world account).friends.getD []).find? (namedFriend server frienduid) with
  | none => (-2, world)
  | some fr =>
    match findFriend server fr.account (world account).count 0 (world account) with
    | (none, checked) => (-2, modify world account fun _ => checked)
    | (some index, checked) =>
      let world := modify world account fun _ => (accountRemoveFriend server checked index).2
      let world := accountGetFriends server world fr.account
      let world := modify world fr.account fun old =>
        { old with friends := old.friends.map (setMutual account 0) }
      (index, modify world account fun old =>
        { old with friends := old.friends.map fun list =>
            list.eraseP (namedFriend server frienduid) })

inductive Operation where
  | addFriend (myAcc facc : UInt32)
  | removeFriend2 (account : UInt32) (frienduid : Text)

def step (server : Server) (world : World) : Operation → World
  | .addFriend myAcc facc => (accountAddFriend server world myAcc facc).2
  | .removeFriend2 account frienduid => (accountRemoveFriend2 server world account frienduid).2

def run (server : Server) (world : World) (operations : List Operation) : World :=
  operations.foldl (step server) world

def Operation.Allowed (server : Server) : Operation → Prop
  | .addFriend myAcc facc => server.known myAcc = true ∧ server.known facc = true
  | .removeFriend2 account _ => server.known account = true

def Account.uids (account : Account) : List UInt32 := (range' 0 account.count).map account.uid

/-- The attributes, the list once it is loaded and the mutual flags say the same. -/
structure Agree (server : Server) (world : World) : Prop where
  few : ∀ account, server.known account = true → (world account).count ≤ server.maxFriends
  distinct : ∀ account, server.known account = true → (world account).uids.Nodup
  others : ∀ account, server.known account = true → account ∉ (world account).uids
  existing : ∀ account, server.known account = true →
    ∀ frienduid ∈ (world account).uids, server.known frienduid = true
  listed : ∀ account list, server.known account = true → (world account).friends = some list →
    list.map Friend.account = (world account).uids
  flagged : ∀ account list, server.known account = true → (world account).friends = some list →
    ∀ entry ∈ list, entry.flag = if account ∈ (world entry.account).uids then 1 else 0

section Attributes
variable (server : Server)

structure Stored (account : Account) : Prop where
  few : account.count ≤ server.maxFriends
  nonzero : ∀ index < account.count, account.uid index ≠ 0

theorem uids_mem (account : Account) (uid : UInt32) :
    uid ∈ account.uids ↔ ∃ index < account.count, account.uid index = uid := by
  simp [Account.uids, mem_range'_1]

theorem uids_getElem (account : Account) (slot : Nat) :
    account.uids[slot]? = if slot < account.count then some (account.uid slot) else none := by
  by_cases inside : slot < account.count
  · simp [Account.uids, inside]
  · rw [if_neg inside, getElem?_eq_none]
    simp [Account.uids]
    omega

variable {account : Account} {friendnum : Nat}

theorem get_friend_stored (small : friendnum < server.maxFriends)
    (nonzero : account.uid friendnum ≠ 0) :
    accountGetFriend server account friendnum = (account.uid friendnum, account) := by
  rw [accountGetFriend, if_neg (not_le.mpr small), if_neg nonzero]

theorem has_friend_stored (stored : Stored server account) (myuserid : UInt32)
    (remaining index : Nat) (total : index + remaining = account.count) :
    hasFriend server myuserid remaining index account =
      (decide (myuserid ∈ (range' index remaining).map account.uid), account) := by
  induction remaining generalizing index with
  | zero => simp [hasFriend]
  | succ remaining ih =>
    have few := stored.few
    have nonzero := stored.nonzero index (by omega)
    simp only [hasFriend, get_friend_stored server (show index < server.maxFriends by omega)
      nonzero, ne_eq, nonzero, not_false_eq_true, true_and, range'_succ]
    by_cases here : account.uid index = myuserid
    · simp [here]
    · rw [if_neg here, ih (index + 1) (by omega)]
      simp [Ne.symm here]

theorem find_friend_stored (stored : Stored server account) (uid : UInt32) (remaining index : Nat)
    (total : index + remaining = account.count)
    (inside : uid ∈ (range' index remaining).map account.uid) :
    findFriend server uid remaining index account =
      (some (index + ((range' index remaining).map account.uid).idxOf uid), account) := by
  induction remaining generalizing index with
  | zero => simp at inside
  | succ remaining ih =>
    have few := stored.few
    have nonzero := stored.nonzero index (by omega)
    simp only [findFriend, get_friend_stored server (show index < server.maxFriends by omega)
      nonzero, range'_succ, map_cons, idxOf_cons]
    rw [range'_succ, map_cons, mem_cons] at inside
    by_cases here : account.uid index = uid
    · simp [here]
    · have other : (account.uid index == uid) = false := by simpa using here
      rw [if_neg here, ih (index + 1) (by omega) (inside.resolve_left (Ne.symm here)), other,
        cond_false, add_right_comm, add_assoc]

def shifted (account : Account) (index remaining : Nat) : Account :=
  { account with
    uid := fun slot =>
      if index ≤ slot ∧ slot < index + remaining then account.uid (slot + 1)
      else account.uid slot }

theorem shift_friends_stored (remaining index : Nat) (small : index + remaining < server.maxFriends)
    (nonzero : ∀ slot, index < slot → slot ≤ index + remaining → account.uid slot ≠ 0) :
    shiftFriends server remaining index account = shifted account index remaining := by
  induction remaining generalizing index account with
  | zero =>
    have none : ∀ slot, ¬(index ≤ slot ∧ slot < index) := fun slot => by omega
    simp only [shiftFriends, shifted, Nat.add_zero, none, if_false]
  | succ remaining ih =>
    have here := nonzero (index + 1) (by omega) (by omega)
    have written : accountSetFriend server account index (account.uid (index + 1)) =
        (0, { account with
          uid := fun slot => if slot = index then account.uid (index + 1)
            else account.uid slot }) := by
      rw [accountSetFriend, if_neg]
      rintro (zero | large)
      · exact here zero
      · omega
    simp only [shiftFriends, get_friend_stored server (show index + 1 < server.maxFriends by omega)
      here, written]
    rw [ih (index + 1) (by omega)]
    · simp only [shifted, Account.mk.injEq, true_and, and_true]
      funext slot
      by_cases same : slot = index
      · subst same
        simp
      by_cases later : slot + 1 = index
      · have out : ¬(index + 1 ≤ slot ∧ slot < index + 1 + remaining) := by omega
        have out' : ¬(index ≤ slot ∧ slot < index + (remaining + 1)) := by omega
        rw [if_neg out, if_neg out', if_neg same]
      · have range : (index + 1 ≤ slot ∧ slot < index + 1 + remaining) ↔
            (index ≤ slot ∧ slot < index + (remaining + 1)) := by omega
        simp only [range, same, if_false, show slot + 1 ≠ index from later]
    · intro slot above below
      have other : slot ≠ index := by omega
      simpa [other] using nonzero slot (by omega) (by omega)

theorem remove_friend_stored (stored : Stored server account) (inside : friendnum < account.count) :
    accountRemoveFriend server account friendnum =
      (0, { shifted account friendnum (account.count - 1 - friendnum) with
        count := account.count - 1 }) := by
  have few := stored.few
  have shifts := @shift_friends_stored server account (account.count - 1 - friendnum) friendnum
    (by omega) fun slot _ below => stored.nonzero slot (by omega)
  simp only [accountRemoveFriend, if_neg (not_le.mpr inside), shifts, accountSetFriend,
    true_or, if_true, accountSetFriendcount, if_neg (show ¬server.maxFriends < account.count - 1
      by omega)]

theorem shifted_uids (account : Account) (inside : friendnum < account.count) :
    Account.uids { shifted account friendnum (account.count - 1 - friendnum) with
      count := account.count - 1 } = account.uids.eraseIdx friendnum := by
  apply ext_getElem?
  intro slot
  rw [getElem?_eraseIdx, uids_getElem, uids_getElem, uids_getElem]
  simp only [shifted]
  by_cases before : slot < friendnum
  · rw [if_pos before, if_pos (show slot < account.count - 1 by omega), if_neg (by omega),
      if_pos (show slot < account.count by omega)]
  rw [if_neg before]
  by_cases last : slot + 1 < account.count
  · rw [if_pos (show slot < account.count - 1 by omega), if_pos (by omega), if_pos last]
  · rw [if_neg (show ¬slot < account.count - 1 by omega), if_neg last]

end Attributes

variable {list : List Friend}

section Lists

variable (uid : UInt32)

theorem set_mutual_accounts (flag : Int) (list : List Friend) :
    (setMutual uid flag list).map Friend.account = list.map Friend.account := by
  induction list with
  | nil => rfl
  | cons entry rest ih =>
    rw [setMutual]
    split
    · rfl
    · rw [map_cons, ih, map_cons]

theorem set_mutual_map (flag : Int) (list : List Friend)
    (distinct : (list.map Friend.account).Nodup) :
    setMutual uid flag list =
      list.map fun entry => if entry.account = uid then { entry with flag := flag } else entry := by
  induction list with
  | nil => rfl
  | cons entry rest ih =>
    rw [map_cons, nodup_cons] at distinct
    rw [setMutual, map_cons]
    by_cases here : entry.account = uid
    · have apart : rest.map (fun other => if other.account = uid then { other with flag := flag }
          else other) = rest := by
        refine map_congr_left (fun other member => ?_) |>.trans (map_id' rest)
        refine if_neg fun same => distinct.1 ?_
        rw [here, ← same]
        exact mem_map_of_mem member
      rw [if_pos here, if_pos here, apart]
    · rw [if_neg here, if_neg here, ih distinct.2]

theorem set_mutual_same {uid : UInt32} {flag : Int}
    (already : ∀ entry ∈ list, entry.account = uid → entry.flag = flag) :
    setMutual uid flag list = list := by
  induction list with
  | nil => rfl
  | cons entry rest ih =>
    rw [setMutual]
    by_cases here : entry.account = uid
    · have kept := already entry mem_cons_self here
      rw [if_pos here, ← kept]
    · rw [if_neg here, ih fun other member => already other (mem_cons_of_mem entry member)]

theorem erase_found {accepts : Friend → Bool} {found : Friend}
    (first : list.find? accepts = some found) (distinct : (list.map Friend.account).Nodup) :
    (list.eraseP accepts).map Friend.account = (list.map Friend.account).erase found.account := by
  induction list with
  | nil => cases first
  | cons entry rest ih =>
    rw [map_cons, nodup_cons] at distinct
    by_cases here : accepts entry = true
    · rw [find?_cons_of_pos here] at first
      rw [eraseP_cons_of_pos here, map_cons, some.inj first, erase_cons_head]
    rw [find?_cons_of_neg here] at first
    have inside := mem_map_of_mem (f := Friend.account) (mem_of_find?_eq_some first)
    have other : entry.account ≠ found.account := fun same => distinct.1 (same ▸ inside)
    rw [eraseP_cons_of_neg here, map_cons, ih first distinct.2, map_cons,
      erase_cons_tail (by simpa using other)]

end Lists

section Worlds
variable {server : Server} {world : World}

theorem modify_own (world : World) (account : UInt32) (change : Account → Account) :
    modify world account change account = change (world account) := if_pos rfl

variable {account : UInt32}

theorem modify_other (world : World) {other : UInt32} (change : Account → Account)
    (apart : other ≠ account) : modify world account change other = world other := if_neg apart

theorem modify_congr {first second : Account → Account}
    (same : first (world account) = second (world account)) :
    modify world account first = modify world account second := by
  funext other
  by_cases here : other = account
  · rw [here, modify_own, modify_own, same]
  · rw [modify_other _ _ here, modify_other _ _ here]

theorem modify_id {change : Account → Account} (same : change (world account) = world account) :
    modify world account change = world := by
  funext other
  by_cases here : other = account
  · rw [here, modify_own, same]
  · exact modify_other _ _ here

def Account.Has (account : Account) (uid : UInt32) : Prop :=
  match account.friends with
  | some list => uid ∈ list.map Friend.account
  | none => uid ∈ account.uids

instance (account : Account) (uid : UInt32) : Decidable (account.Has uid) := by
  unfold Account.Has
  split <;> infer_instance

theorem check_mutual_spec {myuserid : UInt32} (stored : Stored server (world account))
    (nonzero : myuserid ≠ 0) :
    accountCheckMutual server world account myuserid =
      (if (world account).Has myuserid then 0 else -1, modify world account fun old =>
        { old with friends := old.friends.map (setMutual myuserid 1) }) := by
  have has := has_friend_stored server stored myuserid (world account).count 0 (zero_add _)
  rw [accountCheckMutual, if_neg nonzero]
  cases loaded : (world account).friends with
  | none =>
    have unlisted : (world account).Has myuserid ↔ myuserid ∈ (world account).uids := by
      rw [Account.Has, loaded]
    have unchanged : (modify world account fun old =>
        { old with friends := old.friends.map (setMutual myuserid 1) }) =
        modify world account fun _ => world account :=
      modify_congr (by rw [loaded, map_none, ← loaded])
    simp only [has, unchanged, unlisted, Account.uids, decide_eq_true_eq]
  | some list =>
    have listed : (world account).Has myuserid ↔ myuserid ∈ list.map Friend.account := by
      rw [Account.Has, loaded]
    simp only [listed]
    cases found : friendlistFindUid list myuserid with
    | none =>
      have absent : ∀ entry ∈ list, entry.account ≠ myuserid := by
        simpa [friendlistFindUid] using found
      have missing : myuserid ∉ list.map Friend.account := by
        rw [List.mem_map]
        rintro ⟨entry, inside, same⟩
        exact absent entry inside same
      have unchanged : setMutual myuserid 1 list = list :=
        set_mutual_same fun entry inside same => absurd same (absent entry inside)
      rw [if_neg missing]
      dsimp only
      rw [modify_id (by rw [loaded, map_some, unchanged, ← loaded])]
    | some entry =>
      have inside := mem_map_of_mem (f := Friend.account) (mem_of_find?_eq_some found)
      have same : entry.account = myuserid := by simpa using find?_some found
      rw [same] at inside
      rw [if_pos inside]
      exact congrArg (Prod.mk 0) (modify_congr (by rw [loaded, map_some]))

def entryFor (world : World) (account frienduid : UInt32) : Friend :=
  ⟨frienduid, if (world frienduid).Has account then 1 else 0⟩

theorem load_friends_spec (nonzero : account ≠ 0) (stored : Stored server (world account))
    (remaining index : Nat) (total : index + remaining = (world account).count) (list : List Friend)
    (loading : (world account).friends = some list)
    (existing : ∀ frienduid ∈ (range' index remaining).map (world account).uid,
      frienduid ≠ account ∧ server.known frienduid = true ∧ Stored server (world frienduid))
    (quiet : ∀ frienduid ∈ (range' index remaining).map (world account).uid,
      ∀ friends, (world frienduid).friends = some friends →
        ∀ entry ∈ friends, entry.account = account → entry.flag = 1) :
    loadFriends server account remaining index world =
      modify world account fun old => { old with
        friends := some (list ++ ((range' index remaining).map (world account).uid).map
          (entryFor world account)) } := by
  induction remaining generalizing index list world with
  | zero =>
    rw [modify_id (by simp [← loading]), loadFriends]
  | succ remaining ih =>
    obtain ⟨other, known, kept⟩ := existing _ mem_cons_self
    have few := stored.few
    have here := stored.nonzero index (by omega)
    have unchanged : (modify world account fun _ => world account) = world := modify_id rfl
    have silent : (modify world ((world account).uid index) fun old =>
        { old with friends := old.friends.map (setMutual account 1) }) = world := by
      refine modify_id ?_
      cases loaded : (world ((world account).uid index)).friends with
      | none => rw [map_none, ← loaded]
      | some friends =>
        rw [map_some, set_mutual_same (quiet _ mem_cons_self friends loaded), ← loaded]
    have result : (if (if (world ((world account).uid index)).Has account then 0 else (-1 : Int)) = 0
        then (1 : Int) else 0) = if (world ((world account).uid index)).Has account then 1 else 0 := by
      split <;> simp
    have added : friendlistAddAccount world account (entryFor world account
        ((world account).uid index)) = modify world account fun old => { old with
          friends := some (list ++ [entryFor world account ((world account).uid index)]) } :=
      modify_congr (by rw [loading, getD_some])
    simp only [loadFriends, get_friend_stored server (show index < server.maxFriends by omega) here,
      unchanged, here, if_false, known, Bool.true_eq_false, check_mutual_spec kept nonzero, silent,
      result]
    rw [show (⟨(world account).uid index, if (world ((world account).uid index)).Has account then 1
      else 0⟩ : Friend) = entryFor world account ((world account).uid index) from rfl, added]
    have own := modify_own world account fun old => { old with
      friends := some (list ++ [entryFor world account ((world account).uid index)]) }
    have apart {someone : UInt32} (different : someone ≠ account) := modify_other world
      (fun old => { old with
        friends := some (list ++ [entryFor world account ((world account).uid index)]) }) different
    generalize (modify world account fun old => { old with
      friends := some (list ++ [entryFor world account ((world account).uid index)]) }) = next
      at own apart ⊢
    have uids : (next account).uid = (world account).uid := by rw [own]
    have later := @ih next (by rw [own]; exact ⟨stored.few, stored.nonzero⟩) (index + 1)
      (by rw [own]; dsimp only; omega)
      (list ++ [entryFor world account ((world account).uid index)]) (by rw [own])
      (by
        rw [uids]
        intro frienduid member
        obtain ⟨different, present, whole⟩ := existing _ (mem_cons_of_mem _ member)
        exact ⟨different, present, by rw [apart different]; exact whole⟩)
      (by
        rw [uids]
        intro frienduid member
        rw [apart (existing _ (mem_cons_of_mem _ member)).1]
        exact quiet _ (mem_cons_of_mem _ member))
    rw [later]
    funext someone
    by_cases same : someone = account
    · have entries : ((range' (index + 1) remaining).map (next account).uid).map
          (entryFor next account) =
          ((range' (index + 1) remaining).map (world account).uid).map
            (entryFor world account) := by
        rw [uids]
        refine map_congr_left fun frienduid member => ?_
        rw [entryFor, apart (existing _ (mem_cons_of_mem _ member)).1, entryFor]
      rw [same, modify_own, modify_own, entries, own, range'_succ, map_cons,
        map_cons, append_assoc, singleton_append]
    · rw [modify_other _ _ same, modify_other _ _ same, apart same]

theorem get_friends_spec (nonzero : account ≠ 0) (stored : Stored server (world account))
    (existing : ∀ frienduid ∈ (world account).uids,
      frienduid ≠ account ∧ server.known frienduid = true ∧ Stored server (world frienduid))
    (quiet : ∀ frienduid ∈ (world account).uids,
      ∀ friends, (world frienduid).friends = some friends →
        ∀ entry ∈ friends, entry.account = account → entry.flag = 1) :
    accountGetFriends server world account = modify world account fun old => { old with
      friends := some (old.friends.getD (old.uids.map (entryFor world account))) } := by
  cases loaded : (world account).friends with
  | some list =>
    have same : accountGetFriends server world account = world := by
      rw [accountGetFriends, loaded]
    rw [same, modify_id (by rw [loaded, getD_some, ← loaded])]
  | none =>
    have own := modify_own world account fun old => { old with friends := some [] }
    have apart {someone : UInt32} (different : someone ≠ account) := modify_other world
      (fun old => { old with friends := some [] }) different
    have starts : accountGetFriends server world account =
        loadFriends server account (world account).count 0
          (modify world account fun old => { old with friends := some [] }) := by
      rw [accountGetFriends, loaded]
    rw [starts]
    generalize (modify world account fun old => { old with friends := some [] }) = next
      at own apart ⊢
    have uids : (next account).uid = (world account).uid := by rw [own]
    have later := @load_friends_spec server next account nonzero
      (by rw [own]; exact ⟨stored.few, stored.nonzero⟩) (world account).count 0
      (by rw [own, zero_add]) [] (by rw [own])
      (by
        rw [uids]
        intro frienduid member
        obtain ⟨different, present, whole⟩ := existing frienduid member
        exact ⟨different, present, by rw [apart different]; exact whole⟩)
      (by
        rw [uids]
        intro frienduid member
        rw [apart (existing frienduid member).1]
        exact quiet frienduid member)
    rw [later, uids, nil_append]
    funext someone
    by_cases same : someone = account
    · have entries : (world account).uids.map (entryFor next account) =
          (world account).uids.map (entryFor world account) := by
        refine map_congr_left fun frienduid member => ?_
        rw [entryFor, apart (existing frienduid member).1, entryFor]
      rw [same, modify_own, modify_own, ← Account.uids, entries, own, loaded, getD_none]
    · rw [modify_other _ _ same, modify_other _ _ same, apart same]

end Worlds

section Agreement
variable {server : Server} {world : World}

variable {account : UInt32}

theorem agree_stored (agree : Agree server world) (absent : server.known 0 = false)
    (known : server.known account = true) : Stored server (world account) := by
  refine ⟨agree.few account known, fun index inside zero => ?_⟩
  have member := agree.existing account known _ ((uids_mem _ _).mpr ⟨index, inside, rfl⟩)
  rw [zero, absent] at member
  cases member

theorem known_nonzero (absent : server.known 0 = false) (known : server.known account = true) :
    account ≠ 0 := by
  rintro rfl
  rw [absent] at known
  cases known

theorem agree_has (agree : Agree server world) {account : UInt32}
    (known : server.known account = true) (uid : UInt32) :
    (world account).Has uid ↔ uid ∈ (world account).uids := by
  rw [Account.Has]
  split
  · next list loaded => rw [agree.listed account list known loaded]
  · rfl

theorem agree_pair (agree : Agree server world) {my friend_ : UInt32} (next : World)
    (rest : ∀ other, other ≠ my → other ≠ friend_ → next other = world other)
    (few : (next my).count ≤ server.maxFriends) (distinct : (next my).uids.Nodup)
    (others : my ∉ (next my).uids)
    (existing : ∀ frienduid ∈ (next my).uids, server.known frienduid = true)
    (only : ∀ uid, uid ≠ friend_ → (uid ∈ (next my).uids ↔ uid ∈ (world my).uids))
    (theirCount : (next friend_).count = (world friend_).count)
    (theirUids : (next friend_).uids = (world friend_).uids)
    (mine : ∀ list, (next my).friends = some list → list.map Friend.account = (next my).uids ∧
      ∀ entry ∈ list, entry.flag = if my ∈ (world entry.account).uids then 1 else 0)
    (theirs : ∀ list, (next friend_).friends = some list →
      list.map Friend.account = (world friend_).uids ∧
        ∀ entry ∈ list, entry.flag = if friend_ ∈ (next entry.account).uids then 1 else 0) :
    Agree server next := by
  have uids {other : UInt32} (different : other ≠ my) : (next other).uids = (world other).uids := by
    by_cases same : other = friend_
    · rw [same, theirUids]
    · rw [rest other different same]
  refine ⟨fun account present => ?_, fun account present => ?_, fun account present => ?_,
    fun account present => ?_, fun account list present loaded => ?_,
    fun account list present loaded => ?_⟩
  · by_cases here : account = my
    · rw [here]
      exact few
    by_cases same : account = friend_
    · rw [same, theirCount]
      exact agree.few friend_ (same ▸ present)
    · rw [rest account here same]
      exact agree.few account present
  · by_cases here : account = my
    · rw [here]
      exact distinct
    · rw [uids here]
      exact agree.distinct account present
  · by_cases here : account = my
    · rw [here]
      exact others
    · rw [uids here]
      exact agree.others account present
  · by_cases here : account = my
    · rw [here]
      exact existing
    · rw [uids here]
      exact agree.existing account present
  · by_cases here : account = my
    · rw [here] at loaded ⊢
      exact (mine list loaded).1
    rw [uids here]
    by_cases same : account = friend_
    · rw [same] at loaded ⊢
      exact (theirs list loaded).1
    · rw [rest account here same] at loaded
      exact agree.listed account list present loaded
  · intro entry member
    by_cases here : account = my
    · rw [here] at loaded ⊢
      obtain ⟨accounts, flags⟩ := mine list loaded
      have apart : entry.account ≠ my := by
        intro same
        have inside := mem_map_of_mem (f := Friend.account) member
        rw [accounts, same] at inside
        exact others inside
      rw [uids apart]
      exact flags entry member
    · by_cases same : account = friend_
      · rw [same] at loaded ⊢
        exact (theirs list loaded).2 entry member
      rw [rest account here same] at loaded
      rw [agree.flagged account list present loaded entry member]
      by_cases back : entry.account = my
      · rw [back]
        exact if_congr (only account same).symm rfl rfl
      · rw [uids back]

theorem entry_for_accounts (world : World) (account : UInt32) (uids : List UInt32) :
    (uids.map (entryFor world account)).map Friend.account = uids := by
  rw [List.map_map]
  exact map_id' uids

theorem agree_get_friends (agree : Agree server world) (absent : server.known 0 = false)
    (known : server.known account = true) :
    Agree server (accountGetFriends server world account) ∧
      (∀ other, other ≠ account → accountGetFriends server world account other = world other) ∧
      (accountGetFriends server world account account).count = (world account).count ∧
      (accountGetFriends server world account account).uids = (world account).uids ∧
      ∃ list, (accountGetFriends server world account account).friends = some list := by
  have quiet : ∀ frienduid ∈ (world account).uids, ∀ friends,
      (world frienduid).friends = some friends →
        ∀ entry ∈ friends, entry.account = account → entry.flag = 1 := by
    intro frienduid member friends loaded entry inside same
    rw [agree.flagged frienduid friends (agree.existing account known frienduid member) loaded entry
      inside, same, if_pos member]
  have spec := get_friends_spec (known_nonzero absent known) (agree_stored agree absent known)
    (fun frienduid member => ⟨fun same => agree.others account known (same ▸ member),
      agree.existing account known frienduid member,
      agree_stored agree absent (agree.existing account known frienduid member)⟩) quiet
  have own := modify_own world account fun old => { old with
    friends := some (old.friends.getD (old.uids.map (entryFor world account))) }
  have apart (other : UInt32) (different : other ≠ account) := modify_other world
    (fun old => { old with
      friends := some (old.friends.getD (old.uids.map (entryFor world account))) }) different
  rw [← spec] at own apart
  have uids : (accountGetFriends server world account account).uids = (world account).uids := by
    rw [own]
    rfl
  have entries : ∀ list, (accountGetFriends server world account account).friends = some list →
      list.map Friend.account = (world account).uids ∧
        ∀ entry ∈ list, entry.flag = if account ∈ (world entry.account).uids then 1 else 0 := by
    intro list made
    rw [own] at made
    obtain rfl := some.inj made
    cases loaded : (world account).friends with
    | some list =>
      exact ⟨agree.listed account list known loaded, agree.flagged account list known loaded⟩
    | none =>
      refine ⟨entry_for_accounts world account _, fun entry member => ?_⟩
      obtain ⟨frienduid, inside, rfl⟩ := mem_map.mp member
      exact if_congr (agree_has agree (agree.existing account known frienduid inside) account)
        rfl rfl
  have same (uid : UInt32) :
      (accountGetFriends server world account uid).uids = (world uid).uids := by
    by_cases here : uid = account
    · rw [here, uids]
    · rw [apart uid here]
  refine ⟨@agree_pair server world agree account account _
    (fun other different _ => apart other different) (by rw [own]; exact agree.few account known)
    (by rw [uids]; exact agree.distinct account known)
    (by rw [uids]; exact agree.others account known)
    (by rw [uids]; exact agree.existing account known) (fun uid _ => by rw [uids])
    (by rw [own]) uids ?_ ?_, apart, by rw [own], uids, _, by rw [own]⟩
  · rw [uids]
    exact entries
  · intro list made
    refine ⟨(entries list made).1, fun entry member => ?_⟩
    rw [same]
    exact (entries list made).2 entry member

def Account.grown (account : Account) (frienduid : UInt32) : Account :=
  { account with
    uid := fun index => if index = account.count then frienduid else account.uid index
    count := account.count + 1 }

theorem grown_uids (account : Account) (frienduid : UInt32) :
    (account.grown frienduid).uids = account.uids ++ [frienduid] := by
  have before : (range' 0 account.count).map (account.grown frienduid).uid = account.uids := by
    refine map_congr_left fun index inside => ?_
    rw [mem_range'_1] at inside
    exact if_neg (by omega)
  have last : (account.grown frienduid).uid (0 + 1 * account.count) = frienduid := if_pos (by omega)
  rw [Account.uids, show (account.grown frienduid).count = account.count + 1 from rfl,
    range'_concat, map_append, before, map_singleton, last]

variable {facc : UInt32}

variable {list : List Friend} {myAcc : UInt32}

theorem added_agree (agree : Agree server world) (known : server.known myAcc = true)
    (knownFriend : server.known facc = true) (apart : myAcc ≠ facc)
    (room : ¬server.maxFriends ≤ (world myAcc).count) (unlisted : facc ∉ (world myAcc).uids)
    (loaded : (world myAcc).friends = some list) :
    Agree server (friendlistAddAccount
      (modify (modify world myAcc fun _ => (world myAcc).grown facc) facc fun old =>
        { old with friends := old.friends.map (setMutual myAcc 1) }) myAcc
      ⟨facc, if myAcc ∈ (world facc).uids then 1 else 0⟩) := by
  generalize nextIs : friendlistAddAccount (modify _ facc _) myAcc _ = next
  have mine : next myAcc = { (world myAcc).grown facc with
      friends := some (list ++ [⟨facc, if myAcc ∈ (world facc).uids then 1 else 0⟩]) } := by
    rw [← nextIs, friendlistAddAccount, modify_own, modify_other _ _ apart, modify_own]
    simp only [Account.grown, loaded, getD_some]
  have theirs : next facc =
      { world facc with friends := (world facc).friends.map (setMutual myAcc 1) } := by
    rw [← nextIs, friendlistAddAccount, modify_other _ _ (Ne.symm apart), modify_own,
      modify_other _ _ (Ne.symm apart)]
  have rest : ∀ other, other ≠ myAcc → other ≠ facc → next other = world other := by
    intro other here same
    rw [← nextIs, friendlistAddAccount, modify_other _ _ here, modify_other _ _ same,
      modify_other _ _ here]
  have uids : (next myAcc).uids = (world myAcc).uids ++ [facc] := by
    rw [mine]
    exact grown_uids (world myAcc) facc
  refine agree_pair agree next rest ?_ ?_ ?_ ?_ ?_ (by rw [theirs]) (by rw [theirs]; rfl) ?_ ?_
  · rw [mine]
    exact Nat.succ_le_of_lt (Nat.lt_of_not_le room)
  · rw [uids]
    exact nodup_append.mpr ⟨agree.distinct myAcc known, by simp,
      fun first inside second last same => unlisted (by
        rw [mem_singleton] at last
        rwa [← last, ← same])⟩
  · rw [uids, mem_append, mem_singleton]
    rintro (inside | same)
    · exact agree.others myAcc known inside
    · exact apart same
  · rw [uids]
    intro frienduid inside
    rcases mem_append.mp inside with old | last
    · exact agree.existing myAcc known frienduid old
    · rw [mem_singleton.mp last]
      exact knownFriend
  · intro uid other
    rw [uids, mem_append, mem_singleton]
    exact or_iff_left other
  · intro all made
    rw [mine] at made
    obtain rfl := some.inj made
    rw [uids, map_append, agree.listed myAcc list known loaded]
    refine ⟨rfl, fun entry member => ?_⟩
    rcases mem_append.mp member with old | last
    · exact agree.flagged myAcc list known loaded entry old
    · rw [mem_singleton.mp last]
  · intro all made
    rw [theirs] at made
    obtain ⟨friends, theirList, rfl⟩ := map_eq_some_iff.mp made
    have accounts := agree.listed facc friends knownFriend theirList
    refine ⟨(set_mutual_accounts myAcc 1 friends).trans accounts, fun entry member => ?_⟩
    rw [set_mutual_map _ _ _ (by rw [accounts]; exact agree.distinct facc knownFriend)] at member
    obtain ⟨old, inside, rfl⟩ := mem_map.mp member
    by_cases back : old.account = myAcc
    · rw [if_pos back]
      rw [back, uids, if_pos (mem_append_right _ (mem_singleton.mpr rfl))]
    rw [if_neg back, agree.flagged facc friends knownFriend theirList old inside]
    by_cases self : old.account = facc
    · have listed := mem_map_of_mem (f := Friend.account) inside
      rw [accounts, self] at listed
      exact absurd listed (agree.others facc knownFriend)
    · rw [rest old.account back self]

theorem add_friend_agree (agree : Agree server world) (absent : server.known 0 = false)
    (known : server.known myAcc = true) (knownFriend : server.known facc = true) :
    Agree server (accountAddFriend server world myAcc facc).2 := by
  rw [accountAddFriend]
  split
  · exact agree
  next apart =>
    dsimp only
    split
    · exact agree
    next room =>
      obtain ⟨agree, rest, count, _, list, loaded⟩ := agree_get_friends agree absent known
      rw [← count] at room ⊢
      generalize accountGetFriends server world myAcc = loadedWorld at agree rest loaded room ⊢
      split
      · exact agree
      next missing =>
        have fuid := known_nonzero absent knownFriend
        have myUid := known_nonzero absent known
        have grows : modify (modify loadedWorld myAcc fun old =>
            (accountSetFriend server old (loadedWorld myAcc).count facc).2) myAcc (fun old =>
            (accountSetFriendcount server old ((loadedWorld myAcc).count + 1)).2) =
            modify loadedWorld myAcc fun _ => (loadedWorld myAcc).grown facc := by
          funext other
          by_cases here : other = myAcc
          · rw [here, modify_own, modify_own, modify_own, accountSetFriend, if_neg]
            · rw [accountSetFriendcount, if_neg (by omega)]
              rfl
            · exact not_or_intro fuid room
          · rw [modify_other _ _ here, modify_other _ _ here, modify_other _ _ here]
        have stored : Stored server (modify loadedWorld myAcc
            (fun _ => (loadedWorld myAcc).grown facc) facc) := by
          rw [modify_other _ _ (Ne.symm apart)]
          exact agree_stored agree absent knownFriend
        have knows : (modify loadedWorld myAcc
            (fun _ => (loadedWorld myAcc).grown facc) facc).Has myAcc ↔
            myAcc ∈ (loadedWorld facc).uids := by
          rw [modify_other _ _ (Ne.symm apart)]
          exact agree_has agree knownFriend myAcc
        have result : (if (if (modify loadedWorld myAcc
            (fun _ => (loadedWorld myAcc).grown facc) facc).Has myAcc then 0 else (-1 : Int)) = 0
            then (1 : Int) else 0) = if myAcc ∈ (loadedWorld facc).uids then 1 else 0 := by
          by_cases back : myAcc ∈ (loadedWorld facc).uids <;> simp [knows, back]
        rw [grows, check_mutual_spec stored myUid]
        rw [result]
        have unlisted : facc ∉ (loadedWorld myAcc).uids := by
          rw [← agree.listed myAcc list known loaded]
          intro inside
          obtain ⟨entry, member, same⟩ := mem_map.mp inside
          refine missing ?_
          rw [loaded, getD_some, friendlistFindUid, find?_isSome]
          exact ⟨entry, member, by simpa using same⟩
        exact added_agree agree known knownFriend apart room unlisted loaded

def Account.cut (account : Account) (friendnum : Nat) : Account :=
  { shifted account friendnum (account.count - 1 - friendnum) with count := account.count - 1 }

theorem cut_stored {account : Account} (stored : Stored server account) {friendnum : Nat} :
    Stored server (account.cut friendnum) := by
  have few := stored.few
  refine ⟨le_trans (Nat.sub_le _ 1) few, fun index inside => ?_⟩
  have small : index < account.count - 1 := inside
  simp only [Account.cut, shifted]
  split
  · exact stored.nonzero _ (by omega)
  · exact stored.nonzero _ (by omega)

section
variable (agree : Agree server world) (absent : server.known 0 = false)
include agree absent

theorem friend_list_loaded (knownFriend : server.known facc = true)
    (known : server.known account = true) (apart : account ≠ facc) (friendnum : Nat) :
    ∃ list, list.map Friend.account = (world facc).uids ∧
      (∀ entry ∈ list, entry.account ≠ account →
        entry.flag = if facc ∈ (world entry.account).uids then 1 else 0) ∧
      accountGetFriends server (modify world account fun _ => (world account).cut friendnum) facc =
        modify (modify world account fun _ => (world account).cut friendnum) facc fun old =>
          { old with friends := some list } := by
  have own : modify world account (fun _ => (world account).cut friendnum) account =
      (world account).cut friendnum := modify_own _ _ _
  have others {other : UInt32} (different : other ≠ account) :
      modify world account (fun _ => (world account).cut friendnum) other = world other :=
    modify_other _ _ different
  generalize modify world account (fun _ => (world account).cut friendnum) = cut at own others ⊢
  have friend_ := others (Ne.symm apart)
  have stored (other : UInt32) (there : server.known other = true) : Stored server (cut other) := by
    by_cases here : other = account
    · rw [here, own]
      exact cut_stored (agree_stored agree absent known)
    · rw [others here]
      exact agree_stored agree absent there
  have lists (other : UInt32) : (cut other).friends = (world other).friends := by
    by_cases here : other = account
    · rw [here, own]
      rfl
    · rw [others here]
  have spec := get_friends_spec (known_nonzero absent knownFriend) (stored facc knownFriend)
    (by
      rw [friend_]
      exact fun frienduid member => ⟨fun same => agree.others facc knownFriend (same ▸ member),
        agree.existing facc knownFriend frienduid member,
        stored frienduid (agree.existing facc knownFriend frienduid member)⟩)
    (by
      rw [friend_]
      intro frienduid member friends loaded entry inside same
      rw [lists] at loaded
      rw [agree.flagged frienduid friends (agree.existing facc knownFriend frienduid member) loaded
        entry inside, same, if_pos member])
  refine ⟨(world facc).friends.getD ((world facc).uids.map (entryFor cut facc)), ?_, ?_, ?_⟩
  · cases loaded : (world facc).friends with
    | some list => exact agree.listed facc list knownFriend loaded
    | none => exact entry_for_accounts cut facc _
  · cases loaded : (world facc).friends with
    | some list =>
      intro entry member _
      exact agree.flagged facc list knownFriend loaded entry member
    | none =>
      intro entry member different
      obtain ⟨frienduid, inside, rfl⟩ := mem_map.mp member
      have same : (cut frienduid).Has facc ↔ facc ∈ (world frienduid).uids := by
        rw [@others frienduid different]
        exact agree_has agree (agree.existing facc knownFriend frienduid inside) facc
      exact if_congr same rfl rfl
  · rw [spec]
    exact modify_congr (by rw [friend_])

theorem removed_agree (known : server.known account = true)
    (loaded : (world account).friends = some list) {accepts : Friend → Bool} {found : Friend}
    (first : list.find? accepts = some found) :
    Agree server (modify (modify (accountGetFriends server (modify world account fun _ =>
        (world account).cut ((world account).uids.idxOf found.account)) found.account) found.account
      fun old => { old with friends := old.friends.map (setMutual account 0) }) account fun old =>
        { old with friends := old.friends.map fun list => list.eraseP accepts }) := by
  have accounts := agree.listed account list known loaded
  have distinct := agree.distinct account known
  have member : found.account ∈ (world account).uids := by
    rw [← accounts]
    exact mem_map_of_mem (mem_of_find?_eq_some first)
  have knownFriend := agree.existing account known _ member
  have apart : account ≠ found.account :=
    fun same => agree.others account known (same ▸ member)
  have inside : (world account).uids.idxOf found.account < (world account).count := by
    have bound := idxOf_lt_length_of_mem member
    simpa [Account.uids] using bound
  have cutUids : ((world account).cut ((world account).uids.idxOf found.account)).uids =
      (world account).uids.erase found.account := by
    rw [Account.cut, shifted_uids _ inside, erase_eq_eraseIdx_of_idxOf rfl]
  obtain ⟨friends, friendAccounts, flags, loads⟩ := friend_list_loaded agree absent knownFriend known
    apart ((world account).uids.idxOf found.account)
  have cutFew : ((world account).cut ((world account).uids.idxOf found.account)).count ≤
      server.maxFriends :=
    le_trans (Nat.sub_le _ 1) (agree.few account known)
  have cutFriends : ((world account).cut ((world account).uids.idxOf found.account)).friends =
      some list := loaded
  rw [loads]
  generalize (world account).cut ((world account).uids.idxOf found.account) = cut
    at cutUids cutFew cutFriends ⊢
  generalize nextIs : modify (modify _ found.account _) account _ = next
  have mine : next account = { cut with friends := some (list.eraseP accepts) } := by
    rw [← nextIs, modify_own, modify_other _ _ apart, modify_other _ _ apart, modify_own,
      cutFriends, map_some]
  have theirs : next found.account =
      { world found.account with friends := some (setMutual account 0 friends) } := by
    rw [← nextIs, modify_other _ _ (Ne.symm apart), modify_own, modify_own,
      modify_other _ _ (Ne.symm apart), map_some]
  have rest : ∀ other, other ≠ account → other ≠ found.account → next other = world other := by
    intro other here same
    rw [← nextIs, modify_other _ _ here, modify_other _ _ same, modify_other _ _ same,
      modify_other _ _ here]
  have uids : (next account).uids = (world account).uids.erase found.account := by
    rw [mine, ← cutUids]
    rfl
  have erased := erase_found first (by rw [accounts]; exact distinct)
  rw [accounts] at erased
  refine agree_pair agree next rest (by rw [mine]; exact cutFew)
    (by rw [uids]; exact distinct.erase _)
    (by rw [uids]; exact fun inside => agree.others account known (mem_of_mem_erase inside))
    (by rw [uids]; exact fun frienduid inside =>
      agree.existing account known frienduid (mem_of_mem_erase inside))
    (fun uid other => by rw [uids]; exact mem_erase_of_ne other)
    (by rw [theirs]) (by rw [theirs]; rfl) ?_ ?_
  · intro all made
    rw [mine] at made
    obtain rfl := some.inj made
    rw [uids]
    refine ⟨erased, fun entry inside => ?_⟩
    exact agree.flagged account list known loaded entry (mem_of_mem_eraseP inside)
  intro all made
  rw [theirs] at made
  obtain rfl := some.inj made
  have friendDistinct : (friends.map Friend.account).Nodup := by
    rw [friendAccounts]
    exact agree.distinct _ knownFriend
  refine ⟨(set_mutual_accounts account 0 friends).trans friendAccounts, fun entry inside => ?_⟩
  rw [set_mutual_map _ _ _ friendDistinct] at inside
  obtain ⟨old, there, rfl⟩ := mem_map.mp inside
  by_cases back : old.account = account
  · rw [if_pos back]
    rw [back, uids, if_neg distinct.not_mem_erase]
  rw [if_neg back, flags old there back]
  by_cases self : old.account = found.account
  · have listed := mem_map_of_mem (f := Friend.account) there
    rw [friendAccounts, self] at listed
    exact absurd listed (agree.others _ knownFriend)
  · rw [rest old.account back self]

theorem remove_friend2_agree (known : server.known account = true) (frienduid : Text) :
    Agree server (accountRemoveFriend2 server world account frienduid).2 := by
  obtain ⟨agree, _, _, _, list, loaded⟩ := agree_get_friends agree absent known
  rw [accountRemoveFriend2]
  generalize accountGetFriends server world account = world at agree loaded ⊢
  simp only [loaded, getD_some]
  cases first : list.find? (namedFriend server frienduid) with
  | none => exact agree
  | some fr =>
    have stored := agree_stored agree absent known
    have member : fr.account ∈ (world account).uids := by
      rw [← agree.listed account list known loaded]
      exact mem_map_of_mem (mem_of_find?_eq_some first)
    have inside : (world account).uids.idxOf fr.account < (world account).count := by
      have bound := idxOf_lt_length_of_mem member
      simpa [Account.uids] using bound
    have position := find_friend_stored server stored fr.account (world account).count 0
      (zero_add _) member
    rw [zero_add, ← Account.uids] at position
    simp only [position, remove_friend_stored server stored inside]
    exact removed_agree agree absent known loaded first

end

end Agreement

theorem run_agree (server : Server) (absent : server.known 0 = false) (world : World)
    (agree : Agree server world) (operations : List Operation)
    (allowed : ∀ operation ∈ operations, operation.Allowed server) :
    Agree server (run server world operations) := by
  induction operations generalizing world with
  | nil => exact agree
  | cons operation rest ih =>
    refine ih _ ?_ fun later member => allowed later (mem_cons_of_mem operation member)
    have here := allowed operation mem_cons_self
    cases operation with
    | addFriend myAcc facc => exact add_friend_agree agree absent here.1 here.2
    | removeFriend2 account frienduid => exact remove_friend2_agree agree absent here frienduid

theorem agree_loaded {server : Server} {world : World} (agree : Agree server world)
    {account : UInt32} (known : server.known account = true)
    (loaded : (world account).friends = some list) :
    (world account).count = list.length ∧ list.length ≤ server.maxFriends ∧
      (∀ index entry, list[index]? = some entry → (world account).uid index = entry.account) ∧
      (list.map Friend.account).Nodup ∧ account ∉ list.map Friend.account ∧
      ∀ entry ∈ list, (entry.flag = 1 ↔ (world entry.account).Has account) := by
  have accounts := agree.listed account list known loaded
  have length : (world account).count = list.length := by
    have lengths := congrArg length accounts
    simpa [Account.uids] using lengths.symm
  rw [accounts, ← length]
  refine ⟨rfl, agree.few account known, fun index entry found => ?_, agree.distinct account known,
    agree.others account known, fun entry member => ?_⟩
  · have here := congrArg (·[index]?) accounts
    simp only [getElem?_map, found, uids_getElem] at here
    split at here
    · exact (some.inj here).symm
    · cases here
  · have inside := mem_map_of_mem (f := Friend.account) member
    rw [accounts] at inside
    rw [agree.flagged account list known loaded entry member,
      agree_has agree (agree.existing account known _ inside)]
    split
    · next back => exact iff_of_true rfl back
    · next other => exact iff_of_false (by decide) other

/-- Whatever friends are added and removed, the attributes, the lists and the mutual flags of all
accounts go on saying the same: the list of an account that has one is its attributes in order,
without the account itself and without repetition, and an entry is mutual exactly when its account
has this one as a friend. -/
theorem friends_consistent (server : Server) (absent : server.known 0 = false) (world : World)
    (agree : Agree server world) (operations : List Operation)
    (allowed : ∀ operation ∈ operations, operation.Allowed server) :
    Agree server (run server world operations) ∧
      ∀ account list, server.known account = true →
        (run server world operations account).friends = some list →
        (run server world operations account).count = list.length ∧
          list.length ≤ server.maxFriends ∧
          (∀ index entry, list[index]? = some entry →
            (run server world operations account).uid index = entry.account) ∧
          (list.map Friend.account).Nodup ∧ account ∉ list.map Friend.account ∧
          ∀ entry ∈ list,
            (entry.flag = 1 ↔ (run server world operations entry.account).Has account) := by
  have kept := run_agree server absent world agree operations allowed
  exact ⟨kept, fun _ _ known loaded => agree_loaded kept known loaded⟩

def exampleServer : Server :=
  { maxFriends := 1, known := fun uid => uid = 1 || uid = 2, find := fun _ => none,
    username := fun uid => if uid = 1 then text "Ann" else text "Bob" }

def exampleWorld : World := fun uid =>
  { count := 0, uid := fun _ => 0, name := fun _ => none,
    friends := if uid = 1 then some [] else none }

theorem example_agree : Agree exampleServer exampleWorld where
  few _ _ := Nat.zero_le _
  distinct _ _ := nodup_nil
  others _ _ := not_mem_nil
  existing _ _ _ inside := absurd inside not_mem_nil
  listed account list _ loaded := by
    by_cases first : account = 1
    · obtain rfl : [] = list := by simpa [exampleWorld, first] using loaded
      rfl
    · simp [exampleWorld, first] at loaded
  flagged account list _ loaded := by
    by_cases first : account = 1
    · obtain rfl : [] = list := by simpa [exampleWorld, first] using loaded
      exact fun _ inside => absurd inside not_mem_nil
    · simp [exampleWorld, first] at loaded

theorem friends_consistent_pair :
    let operations : List Operation :=
      [.addFriend 1 2, .addFriend 2 1, .removeFriend2 1 (text "bob")]
    Agree exampleServer (run exampleServer exampleWorld operations) := by
  intro operations
  refine (friends_consistent exampleServer rfl exampleWorld example_agree operations ?_).1
  intro operation member
  simp only [operations, mem_cons, not_mem_nil, or_false] at member
  rcases member with rfl | rfl | rfl
  · exact ⟨rfl, rfl⟩
  · exact ⟨rfl, rfl⟩
  · exact rfl

-- After the first two calls the friends are mutual, after the third no longer.
example : (run exampleServer exampleWorld [.addFriend 1 2, .addFriend 2 1] 1).friends =
    some [⟨2, 1⟩] ∧
    (run exampleServer exampleWorld [.addFriend 1 2, .addFriend 2 1,
      .removeFriend2 1 (text "bob")] 2).friends = some [⟨1, 0⟩] := by
  constructor <;> decide +kernel

end Pvpgn.Friends
