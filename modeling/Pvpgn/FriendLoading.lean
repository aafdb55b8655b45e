import Pvpgn.Friends
import Mathlib.Data.List.Nodup

/-!
The first `account_load_friends` of an account on any stored attributes: which of them are loaded
rightly. The functions read an entry through `account_get_friend`, so the loop is followed by what
that call gives for each index.
-/

namespace Pvpgn.FriendLoading
open Friends List Option Nat

/-- The friend that an index is stored with, in the new or the old format; 0 for none. -/
def entry (server : Server) (account : Account) (index : Nat) : UInt32 :=
  if account.uid index ≠ 0 then account.uid index
  else ((account.name index).bind server.find).getD 0

/-- No index from the limit on is read. -/
def readable (server : Server) (account : Account) (index : Nat) : UInt32 :=
  if index < server.maxFriends then entry server account index else 0

def existing (known : UInt32 → Bool) (entries : List UInt32) : List UInt32 :=
  entries.filter fun uid => uid ≠ 0 && known uid

def storedEntries (server : Server) (account : Account) : List UInt32 :=
  (List.range account.count).map (entry server account)

def readableEntries (server : Server) (account : Account) : List UInt32 :=
  (List.range account.count).map (readable server account)

/-- Every missing entry is right behind one of a deleted account, or behind another missing one that
is; `behind` says so of the first entry. -/
def Covered (known : UInt32 → Bool) : Bool → List UInt32 → Prop
  | _, [] => True
  | behind, uid :: rest =>
    if uid = 0 then behind = true ∧ Covered known true rest else Covered known (!known uid) rest

/-- Behind friends that exist, the last entry or the one before it is missing. -/
def Lone (known : UInt32 → Bool) (entries : List UInt32) : Prop :=
  ∃ front back, entries = front ++ 0 :: back ∧
    (∀ uid ∈ front, uid ≠ 0 ∧ known uid = true) ∧
      (back = [] ∨ ∃ uid, back = [uid] ∧ uid ≠ 0 ∧ known uid = true)

/-- The list holds every stored friend that still exists once, in the order of the attributes, and
the attributes hold exactly that list. -/
structure Loaded (server : Server) (before after : Account) : Prop where
  listed : ∃ list, after.friends = some list ∧ after.uids = list.map Friend.account
  once : after.uids.Nodup
  complete : ∀ uid, uid ∈ after.uids ↔ uid ∈ existing server.known (storedEntries server before)
  ordered : after.uids.Sublist (existing server.known (storedEntries server before))

/-- The attributes that are loaded rightly. -/
structure Loadable (server : Server) (account : Account) : Prop where
  few : account.count ≤ server.maxFriends + 1
  distinct : (existing server.known (readableEntries server account)).Nodup
  reached : ∀ uid ∈ existing server.known (storedEntries server account),
    uid ∈ existing server.known (readableEntries server account)
  order : Covered server.known false (readableEntries server account) ∨
    Lone server.known (readableEntries server account)

/-- The loop as it looks through `account_get_friend`. -/
structure Loading where
  view : Nat → UInt32
  count : Nat
  index : Nat
  out : List UInt32

/-- `account_remove_friend` at the index. -/
def Loading.remove (limit : Nat) (state : Loading) : Loading :=
  if state.index < state.count then
    { state with
      view := fun slot =>
        if state.index ≤ slot ∧ slot + 1 < state.count ∧ state.view (slot + 1) ≠ 0 then
          state.view (slot + 1)
        else state.view slot
      count := if limit < state.count - 1 then state.count else state.count - 1 }
  else state

def Loading.skip (state : Loading) : Loading := { state with index := state.index + 1 }

def Loading.load (state : Loading) : Loading :=
  { state with
    index := state.index + 1
    out := state.out ++ [state.view state.index] }

def Loading.step (limit : Nat) (known : UInt32 → Bool) (state : Loading) : Loading :=
  if state.view state.index = 0 then (state.remove limit).skip
  else if known (state.view state.index) = false then
    if state.index < state.count then state.remove limit else state.skip
  else state.load

def loadViews (limit : Nat) (known : UInt32 → Bool) : Nat → Loading → Loading
  | 0, state => state
  | remaining + 1, state => loadViews limit known remaining (state.step limit known)

/-- What the attributes show, and that the entries below the index are in the new format. -/
structure Shows (server : Server) (account : Account) (view : Nat → UInt32) (index : Nat) :
    Prop where
  read : ∀ slot, readable server account slot = view slot
  converted : ∀ slot, slot < index → slot < server.maxFriends → account.uid slot = view slot

section Attributes
variable {server : Server} {account : Account} {view : Nat → UInt32}

variable (index : Nat)

theorem get_friend_readable :
    (accountGetFriend server account index).1 = readable server account index := by
  unfold accountGetFriend readable entry
  by_cases far : server.maxFriends ≤ index
  · simp [far, not_lt.mpr far]
  rw [if_neg far, if_pos (Nat.lt_of_not_le far)]
  by_cases old : account.uid index = 0
  · rw [if_pos old, if_neg (not_not.mpr old)]
    cases named : account.name index with
    | none => rfl
    | some name => cases found : server.find name <;> simp [found]
  · rw [if_neg old, if_pos old]

def setView (limit : Nat) (view : Nat → UInt32) (index : Nat) (uid : UInt32) : Nat → UInt32 :=
  fun slot => if slot = index ∧ index < limit ∧ uid ≠ 0 then uid else view slot

theorem set_friend_shows (index below : Nat) (uid : UInt32)
    (shows : Shows server account view below) :
    let after := (accountSetFriend server account index uid).2
    Shows server after (setView server.maxFriends view index uid) below ∧
      after.count = account.count ∧ after.friends = account.friends ∧
      after.uid index =
        if index < server.maxFriends ∧ uid ≠ 0 then uid else account.uid index := by
  intro after
  by_cases refused : uid = 0 ∨ server.maxFriends ≤ index
  · have none : ¬(index < server.maxFriends ∧ uid ≠ 0) := by
      rcases refused with zero | far
      · exact fun both => both.2 zero
      · exact fun both => absurd both.1 (not_lt.mpr far)
    have same : after = account := by simp only [after, accountSetFriend, if_pos refused]
    have kept : setView server.maxFriends view index uid = view := by
      funext slot
      exact if_neg fun both => none both.2
    rw [same, kept, if_neg none]
    exact ⟨shows, rfl, rfl, rfl⟩
  obtain ⟨nonzero, near⟩ := not_or.mp refused
  have small : index < server.maxFriends := Nat.lt_of_not_le near
  have set : after = { account with
      uid := fun slot => if slot = index then uid else account.uid slot } := by
    simp only [after, accountSetFriend, if_neg refused]
  have shown : ∀ slot, setView server.maxFriends view index uid slot =
      if slot = index then uid else view slot := by
    intro slot
    simp [setView, small, nonzero]
  refine ⟨⟨fun slot => ?_, fun slot under inside => ?_⟩, by rw [set], by rw [set], ?_⟩
  · rw [shown, set]
    by_cases here : slot = index
    · simp [readable, entry, here, small, nonzero]
    · simp only [here, if_false, ← shows.read slot, readable, entry]
  · rw [shown, set]
    by_cases here : slot = index
    · simp [here]
    · simp only [shows.converted slot under inside]
  · rw [set]
    simp [small, nonzero]

theorem remove_name_shows (below : Nat) (shows : Shows server account view below)
    (empty : entry server account index = account.uid index) :
    Shows server (removeName account index) view below := by
  refine ⟨fun slot => ?_, shows.converted⟩
  rw [← shows.read slot, readable, readable]
  by_cases here : slot = index
  · subst here
    rw [empty]
    by_cases old : account.uid slot = 0
    · simp [entry, removeName, old]
    · simp [entry, removeName, old]
  · simp only [entry, removeName, here, if_false]

theorem get_friend_shows (index below : Nat) (shows : Shows server account view below) :
    let after := (accountGetFriend server account index).2
    Shows server after view below ∧ after.count = account.count ∧ after.friends = account.friends ∧
      (index < server.maxFriends → after.uid index = view index) := by
  intro after
  have read := shows.read index
  by_cases far : server.maxFriends ≤ index
  · have same : after = account := by simp only [after, accountGetFriend, if_pos far]
    rw [same]
    exact ⟨shows, rfl, rfl, fun near => absurd near (not_lt.mpr far)⟩
  have near : index < server.maxFriends := Nat.lt_of_not_le far
  rw [readable, if_pos near] at read
  by_cases old : account.uid index = 0
  · cases named : account.name index with
    | none =>
      have same : after = account := by
        simp only [after, accountGetFriend, if_neg far, if_pos old, named]
      rw [same, ← read]
      exact ⟨shows, rfl, rfl, fun _ => by simp [entry, old, named]⟩
    | some name =>
      cases found : server.find name with
      | none =>
        have same : after = removeName account index := by
          simp only [after, accountGetFriend, if_neg far, if_pos old, named, found]
        have empty : entry server account index = account.uid index := by
          simp [entry, old, named, found]
        rw [same, ← read, empty]
        exact ⟨remove_name_shows index below shows empty, rfl, rfl, fun _ => rfl⟩
      | some uid =>
        have value : entry server account index = uid := by simp [entry, old, named, found]
        obtain ⟨set, count, friends, own⟩ := set_friend_shows index below uid shows
        have unchanged : setView server.maxFriends view index uid = view := by
          funext slot
          by_cases here : slot = index ∧ index < server.maxFriends ∧ uid ≠ 0
          · rw [setView, if_pos here, here.1, ← read, value]
          · rw [setView, if_neg here]
        rw [unchanged] at set
        have converted : (accountSetFriend server account index uid).2.uid index = uid := by
          rw [own]
          by_cases zero : uid = 0
          · simp [zero, old]
          · simp [near, zero]
        have empty : entry server (accountSetFriend server account index uid).2 index =
            (accountSetFriend server account index uid).2.uid index := by
          have seen := set.read index
          rw [readable, if_pos near] at seen
          rw [seen, ← read, value, converted]
        have same : after = removeName (accountSetFriend server account index uid).2 index := by
          simp only [after, accountGetFriend, if_neg far, if_pos old, named, found]
        rw [same]
        refine ⟨remove_name_shows index below set empty, count, friends, fun _ => ?_⟩
        rw [← read, value]
        exact converted
  · have same : after = account := by simp only [after, accountGetFriend, if_neg far, if_neg old]
    rw [same, ← read]
    exact ⟨shows, rfl, rfl, fun _ => by simp [entry, old]⟩

theorem shows_near {below slot : Nat} (shows : Shows server account view below)
    (nonzero : view slot ≠ 0) : slot < server.maxFriends := by
  by_contra far
  exact nonzero (by rw [← shows.read slot, readable, if_neg far])

def shiftView (view : Nat → UInt32) (index remaining : Nat) : Nat → UInt32 := fun slot =>
  if index ≤ slot ∧ slot < index + remaining ∧ view (slot + 1) ≠ 0 then view (slot + 1)
  else view slot

theorem shift_friends_shows (remaining index below : Nat)
    (shows : Shows server account view below) :
    let after := shiftFriends server remaining index account
    Shows server after (shiftView view index remaining) below ∧ after.count = account.count ∧
      after.friends = account.friends := by
  induction remaining generalizing index account view with
  | zero =>
    have same : shiftView view index 0 = view := by
      funext slot
      exact if_neg fun both => by omega
    rw [same]
    exact ⟨shows, rfl, rfl⟩
  | succ remaining ih =>
    obtain ⟨read, readCount, readFriends, -⟩ := get_friend_shows (index + 1) below shows
    have value : (accountGetFriend server account (index + 1)).1 = view (index + 1) :=
      (get_friend_readable (index + 1)).trans (shows.read (index + 1))
    obtain ⟨set, setCount, setFriends, -⟩ := set_friend_shows index below
      (view (index + 1)) read
    obtain ⟨rest, count, friends⟩ := ih (index + 1) set
    have near : view (index + 1) ≠ 0 → index < server.maxFriends := fun nonzero =>
      lt_of_succ_lt (shows_near shows nonzero)
    have same : shiftView (setView server.maxFriends view index (view (index + 1))) (index + 1)
        remaining = shiftView view index (remaining + 1) := by
      funext slot
      by_cases here : slot = index
      · subst here
        by_cases zero : view (slot + 1) = 0
        · simp [shiftView, setView, zero]
        · simp [shiftView, setView, near zero]
      have range : index + 1 ≤ slot ∧ slot < index + 1 + remaining ↔
          index ≤ slot ∧ slot < index + (remaining + 1) := by omega
      by_cases inside : index + 1 ≤ slot ∧ slot < index + 1 + remaining
      · have other : slot + 1 ≠ index := by omega
        simp [shiftView, setView, here, other, inside, range.mp inside]
      · have outside := mt range.mpr inside
        simp only [shiftView, setView, here, false_and, if_false, ← and_assoc, inside, outside]
    rw [same] at rest
    simp only [shiftFriends, value]
    exact ⟨rest, count.trans (setCount.trans readCount),
      friends.trans (setFriends.trans readFriends)⟩

theorem remove_friend_shows (state : Loading) (below : Nat)
    (shows : Shows server account state.view below) (count : account.count = state.count) :
    let answer := accountRemoveFriend server account state.index
    Shows server answer.2 (state.remove server.maxFriends).view below ∧
      answer.2.count = (state.remove server.maxFriends).count ∧
      answer.2.friends = account.friends ∧
      answer.1 = if state.index < state.count then 0 else -1 := by
  intro answer
  by_cases inside : state.index < state.count
  · obtain ⟨shifted, shiftCount, shiftFriends'⟩ := shift_friends_shows
      (account.count - 1 - state.index) state.index below shows
    have same : shiftView state.view state.index (account.count - 1 - state.index) =
        (state.remove server.maxFriends).view := by
      funext slot
      have range : slot < state.index + (account.count - 1 - state.index) ↔
          slot + 1 < state.count := by omega
      simp only [shiftView, range, Loading.remove, if_pos inside]
    have refused : (accountSetFriend server
        (shiftFriends server (account.count - 1 - state.index) state.index account)
        (account.count - 1) 0).2 =
        shiftFriends server (account.count - 1 - state.index) state.index account := by
      simp [accountSetFriend]
    have remaining : answer = (0, (accountSetFriendcount server
        (shiftFriends server (account.count - 1 - state.index) state.index account)
        (account.count - 1)).2) := by
      simp only [answer, accountRemoveFriend, if_neg (not_le.mpr (count ▸ inside)), refused]
    rw [same] at shifted
    rw [remaining, if_pos inside, accountSetFriendcount]
    by_cases far : server.maxFriends < account.count - 1
    · rw [if_pos far]
      have kept : server.maxFriends < state.count - 1 := by omega
      have shown : (state.remove server.maxFriends).count = state.count := by
        simp [Loading.remove, inside, kept]
      exact ⟨shifted, by rw [shown, shiftCount, count], shiftFriends', rfl⟩
    · rw [if_neg far]
      have lower : ¬server.maxFriends < state.count - 1 := by omega
      exact ⟨⟨shifted.read, shifted.converted⟩, by simp [Loading.remove, inside, lower, count],
        shiftFriends', rfl⟩
  · have same : answer = (-1, account) := by
      simp only [answer, accountRemoveFriend, if_pos (not_lt.mp (count ▸ inside))]
    have kept : state.remove server.maxFriends = state := by
      simp only [Loading.remove, if_neg inside]
    rw [same, kept, if_neg inside]
    exact ⟨shows, count, rfl, rfl⟩

theorem shows_converted {index : Nat} (shows : Shows server account view index)
    (converted : index < server.maxFriends → account.uid index = view index) :
    Shows server account view (index + 1) := by
  refine ⟨shows.read, fun slot below near => ?_⟩
  rcases lt_or_eq_of_le (le_of_lt_succ below) with under | rfl
  · exact shows.converted slot under near
  · exact converted near

end Attributes

section Worlds
variable {server : Server}

theorem check_mutual_keeps (world : World) (frienduid account : UInt32) (list : List Friend)
    (loaded : (world account).friends = some list) :
    ∃ flagged, ((accountCheckMutual server world frienduid account).2 account) =
        { world account with friends := some flagged } ∧
      flagged.map Friend.account = list.map Friend.account := by
  have whole : world account = { world account with friends := some list } := by rw [← loaded]
  unfold accountCheckMutual
  by_cases zero : account = 0
  · rw [if_pos zero]
    exact ⟨list, whole, rfl⟩
  rw [if_neg zero]
  by_cases own : frienduid = account
  · subst own
    cases found : friendlistFindUid list frienduid with
    | none =>
      simp only [loaded, found]
      exact ⟨list, whole, rfl⟩
    | some entry =>
      simp only [loaded, found]
      refine ⟨setMutual frienduid 1 list, ?_, set_mutual_accounts frienduid 1 list⟩
      exact modify_own world frienduid _
  have other : ∀ change, modify world frienduid change account = world account := fun change =>
    modify_other world change (Ne.symm own)
  refine ⟨list, ?_, rfl⟩
  rw [← whole]
  cases friends : (world frienduid).friends with
  | none =>
    simp only
    exact other _
  | some others =>
    cases found : friendlistFindUid others account with
    | none => simp only [found]
    | some entry =>
      simp only [found]
      exact other _

structure Follows (server : Server) (account : Account) (state : Loading) : Prop where
  shows : Shows server account state.view state.index
  count : account.count = state.count
  listed : ∃ list, account.friends = some list ∧ list.map Friend.account = state.out

theorem load_friends_follows (account : UInt32) (remaining index : Nat) (world : World)
    (state : Loading) (here : state.index = index)
    (follows : Follows server (world account) state) :
    Follows server (loadFriends server account remaining index world account)
      (loadViews server.maxFriends server.known remaining state) := by
  induction remaining generalizing index world state with
  | zero => exact follows
  | succ remaining ih =>
    subst here
    obtain ⟨list, loaded, accounts⟩ := follows.listed
    obtain ⟨shown, readCount, readFriends, converted⟩ :=
      get_friend_shows state.index state.index follows.shows
    have value : (accountGetFriend server (world account) state.index).1 = state.view state.index :=
      (get_friend_readable state.index).trans (follows.shows.read state.index)
    set checked := (accountGetFriend server (world account) state.index).2
    have seen : Shows server checked state.view (state.index + 1) := shows_converted shown converted
    have count : checked.count = state.count := readCount.trans follows.count
    have friends : checked.friends = some list := readFriends.trans loaded
    obtain ⟨removed, removedCount, removedFriends, result⟩ :=
      remove_friend_shows state (state.index + 1) seen count
    have kept : (state.remove server.maxFriends).index = state.index ∧
        (state.remove server.maxFriends).out = state.out := by
      unfold Loading.remove
      split <;> exact ⟨rfl, rfl⟩
    rw [loadFriends, loadViews, Loading.step]
    simp only [value]
    by_cases zero : state.view state.index = 0
    · rw [if_pos zero, if_pos zero]
      have next : (state.remove server.maxFriends).skip.index = state.index + 1 :=
        congrArg (· + 1) kept.1
      refine ih _ _ (state.remove server.maxFriends).skip next ?_
      rw [modify_own, modify_own]
      exact ⟨next ▸ removed, removedCount, list, removedFriends.trans friends,
        accounts.trans kept.2.symm⟩
    rw [if_neg zero, if_neg zero]
    cases known : server.known (state.view state.index) with
    | false =>
      simp only [if_true, modify_own]
      by_cases inside : state.index < state.count
      · rw [if_pos inside] at result
        rw [if_pos inside, result, if_pos rfl]
        refine ih _ _ (state.remove server.maxFriends) kept.1 ?_
        rw [modify_own]
        refine ⟨⟨removed.read, fun slot below => ?_⟩, removedCount, list,
          removedFriends.trans friends, accounts.trans kept.2.symm⟩
        exact removed.converted slot (by omega)
      · rw [if_neg inside] at result
        have same : state.remove server.maxFriends = state := by
          rw [Loading.remove, if_neg inside]
        rw [same] at removed removedCount
        rw [if_neg inside, result, if_neg (by decide)]
        refine ih _ _ state.skip rfl ?_
        rw [modify_own]
        exact ⟨removed, removedCount, list, removedFriends.trans friends, accounts⟩
    | true =>
      obtain ⟨flagged, after, same⟩ := @check_mutual_keeps server
        (modify world account fun _ => checked) (state.view state.index) account list
        (by rw [modify_own]; exact friends)
      refine ih _ _ state.load rfl ?_
      rw [friendlistAddAccount, modify_own, after, modify_own]
      refine ⟨⟨seen.read, seen.converted⟩, count, _, rfl, ?_⟩
      rw [getD_some, map_append, same, accounts]
      rfl

end Worlds

section Turns
variable (limit : Nat) (known : UInt32 → Bool)

structure Grows (state final : Loading) : Prop where
  out : ∃ more, final.out = state.out ++ more ∧ ∀ uid ∈ more, uid ≠ 0 ∧ known uid = true
  view : ∀ slot < state.index, final.view slot = state.view slot
  index : state.index ≤ final.index
  count : ∀ bound, bound ≤ state.index → bound ≤ state.count → bound ≤ final.count

variable {limit known}

theorem Grows.trans {first second third : Loading} (early : Grows known first second)
    (late : Grows known second third) : Grows known first third := by
  obtain ⟨more, same, valid⟩ := early.out
  obtain ⟨rest, later, others⟩ := late.out
  refine ⟨⟨more ++ rest, by rw [later, same, append_assoc], fun uid member => ?_⟩,
    fun slot below => ?_, early.index.trans late.index, fun bound low high => ?_⟩
  · rcases mem_append.mp member with inside | behind
    · exact valid uid inside
    · exact others uid behind
  · rw [late.view slot (below.trans_le early.index), early.view slot below]
  · exact late.count bound (low.trans early.index) (early.count bound low high)

variable (limit) in
theorem remove_kept (state : Loading) :
    (state.remove limit).index = state.index ∧ (state.remove limit).out = state.out := by
  unfold Loading.remove
  split <;> exact ⟨rfl, rfl⟩

theorem remove_inside {state : Loading} (inside : state.index < state.count)
    (few : state.count ≤ limit + 1) :
    (state.remove limit).count = state.count - 1 ∧
      ∀ slot, (state.remove limit).view slot =
        if state.index ≤ slot ∧ slot + 1 < state.count ∧ state.view (slot + 1) ≠ 0 then
          state.view (slot + 1)
        else state.view slot := by
  have writable : ¬limit < state.count - 1 := by omega
  rw [Loading.remove, if_pos inside]
  exact ⟨if_neg writable, fun _ => rfl⟩

theorem remove_grows (state : Loading) : Grows known state (state.remove limit) := by
  unfold Loading.remove
  by_cases inside : state.index < state.count
  · rw [if_pos inside]
    refine ⟨⟨[], by simp, by simp⟩, fun slot below => ?_, le_refl _, fun bound low high => ?_⟩
    · exact if_neg fun both => absurd both.1 (by omega)
    · dsimp only
      split <;> omega
  · rw [if_neg inside]
    exact ⟨⟨[], by simp, by simp⟩, fun _ _ => rfl, le_refl _, fun _ _ high => high⟩

theorem skip_grows (state : Loading) : Grows known state state.skip :=
  ⟨⟨[], by simp [Loading.skip], by simp⟩, fun _ _ => rfl, le_succ _, fun _ _ high => high⟩

theorem load_grows {state : Loading} (nonzero : state.view state.index ≠ 0)
    (found : known (state.view state.index) = true) : Grows known state state.load :=
  ⟨⟨[state.view state.index], rfl, by simp [nonzero, found]⟩, fun _ _ => rfl, le_succ _,
    fun _ _ high => high⟩

theorem step_grows (state : Loading) : Grows known state (state.step limit known) := by
  unfold Loading.step
  by_cases zero : state.view state.index = 0
  · rw [if_pos zero]
    exact (remove_grows state).trans (skip_grows _)
  rw [if_neg zero]
  by_cases unknown : known (state.view state.index) = false
  · rw [if_pos unknown]
    split
    · exact remove_grows state
    · exact skip_grows state
  · rw [if_neg unknown]
    exact load_grows zero (by simpa using unknown)

variable (remaining : Nat)

variable (limit known) in
theorem run_grows (state : Loading) :
    Grows known state (loadViews limit known remaining state) := by
  induction remaining generalizing state with
  | zero => exact ⟨⟨[], by simp [loadViews], by simp⟩, fun _ _ => rfl, le_refl _,
      fun _ _ high => high⟩
  | succ remaining ih => exact (step_grows state).trans (ih _)

structure Compact (state : Loading) : Prop where
  length : state.out.length = state.count
  shown : ∀ slot < state.count, state.out[slot]? = some (state.view slot)
  once : state.out.Nodup

theorem Grows.out_before {state final : Loading} (grows : Grows known state final) {slot : Nat}
    (inside : slot < state.out.length) : final.out[slot]? = state.out[slot]? := by
  obtain ⟨more, same, -⟩ := grows.out
  rw [same, getElem?_append_left inside]

variable (limit known) in
theorem gap_fails (inside : Nat) (state : Loading) (positive : 1 ≤ inside)
    (count : state.count = state.index + inside) (length : state.out.length + 1 = state.index)
    (nonzero : state.view state.index ≠ 0) (few : state.count ≤ limit + 1) :
    ¬Compact (loadViews limit known (inside + 1) state) := by
  induction inside generalizing state with
  | zero => omega
  | succ inside ih =>
    rw [loadViews, Loading.step, if_neg nonzero]
    cases found : known (state.view state.index) with
    | true =>
      rw [if_neg (by decide)]
      intro compact
      have grows := run_grows limit known (inside + 1) state.load
      have first : (loadViews limit known (inside + 1) state.load).out[state.out.length]? =
          some (state.view state.index) := by
        rw [grows.out_before (by simp [Loading.load])]
        simp [Loading.load]
      have bound := grows.count (state.index + 1) (le_refl _) (by simp [Loading.load, count])
      have second := compact.shown state.index (by omega)
      rw [grows.view state.index (by simp [Loading.load])] at second
      have same := (getElem?_inj (by rw [compact.length]; omega) compact.once).mp
        (first.trans second.symm)
      omega
    | false =>
      have inCount : state.index < state.count := by omega
      obtain ⟨index, out⟩ := remove_kept limit state
      obtain ⟨after, view⟩ := remove_inside inCount few
      have still : (state.remove limit).view (state.remove limit).index ≠ 0 := by
        rw [index, view]
        split
        · rename_i both
          exact both.2.2
        · exact nonzero
      rw [if_pos rfl, if_pos inCount]
      cases inside with
      | zero =>
        have same : (state.remove limit).view (state.remove limit).index =
            state.view state.index := by
          rw [index, view, if_neg (by omega)]
        intro compact
        rw [loadViews, loadViews, Loading.step, if_neg still, same, if_pos found,
          if_neg (by omega)] at compact
        have lengths := compact.length
        simp only [Loading.skip, out] at lengths
        omega
      | succ inside =>
        refine ih _ (by omega) ?_ (by rw [out, index, length]) still (by omega)
        omega

/-- The entries behind a removed one: each moves down, and in the place of a missing one the entry
in front of it stays. -/
def pull (uid : UInt32) : List UInt32 → List UInt32
  | [] => []
  | next :: rest => (if next = 0 then uid else next) :: pull next rest

/-- As long as no missing entry was met: the entries to come, and the list is what the attributes
show so far. -/
structure Aligned (state : Loading) (rest : List UInt32) : Prop where
  count : state.count = state.index + rest.length
  rest : ∀ slot < rest.length, rest[slot]? = some (state.view (state.index + slot))
  length : state.out.length = state.index
  shown : ∀ slot < state.index, state.out[slot]? = some (state.view slot)

theorem pull_length (uid : UInt32) (rest : List UInt32) : (pull uid rest).length = rest.length := by
  induction rest generalizing uid with
  | nil => rfl
  | cons next rest ih => rw [pull, length_cons, length_cons, ih]

theorem pull_slot (uid : UInt32) (rest : List UInt32) (slot : Nat) (inside : slot < rest.length) :
    (pull uid rest)[slot]? =
      if rest[slot]? = some 0 then (uid :: rest)[slot]? else rest[slot]? := by
  induction rest generalizing uid slot with
  | nil => simp at inside
  | cons next rest ih =>
    cases slot with
    | zero => by_cases zero : next = 0 <;> simp [pull, zero]
    | succ slot =>
      have inner : slot < rest.length := by simpa using inside
      simpa [pull] using ih next slot inner

variable {state : Loading} {uid : UInt32} {rest : List UInt32}

section
variable (aligned : Aligned state (uid :: rest))
include aligned

theorem Aligned.head : state.view state.index = uid := by
  have first := aligned.rest 0 (by simp)
  simpa using first.symm

theorem Aligned.load_out :
    state.load.out = state.out ++ [uid] := by
  rw [Loading.load, aligned.head]

theorem aligned_load : Aligned state.load rest := by
  refine ⟨?_, fun slot inside => ?_, ?_, fun slot below => ?_⟩
  · rw [Loading.load, aligned.count, length_cons]
    dsimp only
    omega
  · have later := aligned.rest (slot + 1) (by simpa using inside)
    rw [getElem?_cons_succ] at later
    rw [later, Loading.load, add_assoc, add_comm 1 slot]
  · simp [Loading.load, aligned.length]
  · rcases lt_or_eq_of_le (le_of_lt_succ below) with under | same
    · have kept := aligned.shown slot under
      simp only [Loading.load]
      rw [getElem?_append_left (by rw [aligned.length]; exact under)]
      exact kept
    · subst same
      simp [Loading.load, ← aligned.length]

theorem aligned_remove (few : state.count ≤ limit + 1) :
    Aligned (state.remove limit) (pull uid rest) := by
  have count : state.count = state.index + rest.length + 1 := by
    rw [aligned.count, length_cons, add_assoc]
  obtain ⟨after, view⟩ := remove_inside (by omega) few
  obtain ⟨index, out⟩ := remove_kept limit state
  refine ⟨?_, fun slot inside => ?_, by rw [out, index, aligned.length], fun slot below => ?_⟩
  · rw [after, index, pull_length]
    omega
  · rw [pull_length] at inside
    have here := aligned.rest slot (by rw [length_cons]; omega)
    have next := aligned.rest (slot + 1) (by rw [length_cons]; omega)
    rw [getElem?_cons_succ] at next
    rw [pull_slot uid rest slot inside, index, view, here, next]
    by_cases zero : state.view (state.index + (slot + 1)) = 0
    · rw [if_pos (by rw [zero]), if_neg (fun both => both.2.2 zero)]
    · rw [if_neg (by simpa using zero), if_pos ⟨by omega, by omega, zero⟩, add_assoc]
  · rw [index] at below
    rw [out, view, if_neg (by omega)]
    exact aligned.shown slot below

theorem friend_turn (nonzero : uid ≠ 0) (found : known uid = true) (remaining : Nat) :
    loadViews limit known (remaining + 1) state = loadViews limit known remaining state.load := by
  rw [loadViews, Loading.step, aligned.head, if_neg nonzero, found, if_neg (by decide)]

theorem deleted_turn (few : state.count ≤ limit + 1) (nonzero : uid ≠ 0)
    (found : known uid = false) (remaining : Nat) :
    loadViews limit known (remaining + 1) state =
        loadViews limit known remaining (state.remove limit) ∧
      (state.remove limit).count ≤ limit + 1 := by
  have inCount : state.index < state.count := by
    rw [aligned.count, length_cons]
    omega
  have after := (remove_inside inCount few).1
  refine ⟨?_, by omega⟩
  rw [loadViews, Loading.step, aligned.head, if_neg nonzero, found, if_pos rfl, if_pos inCount]

end

theorem hole_fails (aligned : Aligned state (0 :: rest)) (few : state.count ≤ limit + 1)
    (more : rest ≠ []) (bad : ¬∃ uid, rest = [uid] ∧ uid ≠ 0 ∧ known uid = true) :
    ¬Compact (loadViews limit known (rest.length + 1) state) := by
  have head := aligned.head
  have count : state.count = state.index + rest.length + 1 := by
    rw [aligned.count, length_cons, add_assoc]
  have some : 1 ≤ rest.length := length_pos_iff.mpr more
  obtain ⟨after, view⟩ := remove_inside (by omega) few
  obtain ⟨index, out⟩ := remove_kept limit state
  rw [loadViews, Loading.step, if_pos head]
  set next := (state.remove limit).skip with skipped
  have nextIndex : next.index = state.index + 1 := congrArg (· + 1) index
  have nextCount : next.count = state.index + rest.length := by
    rw [skipped, Loading.skip, after]
    omega
  have nextOut : next.out = state.out := out
  intro compact
  have grows := run_grows limit known rest.length next
  obtain ⟨loaded, same, valid⟩ := grows.out
  -- the place of the missing entry is not read again, so what is there must be in the list
  have bound := grows.count (state.index + 1) (by omega) (by omega)
  have place := compact.shown state.index (by omega)
  rw [grows.view state.index (by omega), same, nextOut,
    getElem?_append_right (by rw [aligned.length])] at place
  have member := valid _ (mem_of_getElem? place)
  have shown : next.view state.index = if state.index + 1 < state.count ∧
      state.view (state.index + 1) ≠ 0 then state.view (state.index + 1) else 0 := by
    rw [skipped, Loading.skip, view, head]
    simp only [le_refl, true_and]
  have slot : ∀ slot < rest.length,
      rest[slot]? = Option.some (state.view (state.index + slot + 1)) := by
    intro slot inside
    have entry := aligned.rest (slot + 1) (by rw [length_cons]; omega)
    rw [getElem?_cons_succ] at entry
    rw [entry, add_assoc]
  have first := slot 0 some
  by_cases zero : state.view (state.index + 1) = 0
  · rw [shown, if_neg (fun both => both.2 zero)] at member
    exact member.1 rfl
  rw [shown, if_pos ⟨by omega, zero⟩] at member
  cases rest with
  | nil => exact more rfl
  | cons entry rest =>
    rw [getElem?_cons_zero, Option.some.injEq] at first
    cases rest with
    | nil => exact bad ⟨entry, rfl, by rw [first]; exact member⟩
    | cons second rest =>
      refine gap_fails limit known (rest.length + 1) next (by omega) ?_ ?_
        ?_ ?_ compact
      · rw [nextCount, nextIndex, length_cons, length_cons]
        omega
      · rw [nextOut, nextIndex, aligned.length]
      · rw [nextIndex, skipped, Loading.skip, view]
        split
        · rename_i both
          exact both.2.2
        · exact zero
      · omega

def Paired (known : UInt32 → Bool) (entries : List UInt32) : Prop :=
  ∃ front uid back, entries = front ++ uid :: uid :: back ∧ uid ≠ 0 ∧ known uid = true

theorem Paired.cons {entries : List UInt32} (paired : Paired known entries) (uid : UInt32) :
    Paired known (uid :: entries) := by
  obtain ⟨front, twice, back, same, valid⟩ := paired
  exact ⟨uid :: front, twice, back, by rw [same, cons_append], valid⟩

theorem paired_cases (paired : Paired known (uid :: rest)) :
    (∃ back, rest = uid :: back ∧ uid ≠ 0 ∧ known uid = true) ∨ Paired known rest := by
  obtain ⟨front, twice, back, same, valid⟩ := paired
  cases front with
  | nil =>
    obtain ⟨rfl, rfl⟩ := same
    exact .inl ⟨back, rfl, valid⟩
  | cons first front =>
    simp only [cons_append, cons.injEq] at same
    exact .inr ⟨front, twice, back, same.2, valid⟩

theorem pull_paired (uid : UInt32) {rest : List UInt32} (paired : Paired known rest) :
    Paired known (pull uid rest) := by
  induction rest generalizing uid with
  | nil =>
    obtain ⟨front, twice, back, same, -⟩ := paired
    simp at same
  | cons next rest ih =>
    rcases paired_cases paired with ⟨back, rfl, nonzero, valid⟩ | later
    · exact ⟨[], next, pull next back, by simp [pull, nonzero], nonzero, valid⟩
    · exact (ih next later).cons _

theorem pair_fails (aligned : Aligned state rest) (few : state.count ≤ limit + 1)
    (paired : Paired known rest) : ¬Compact (loadViews limit known rest.length state) := by
  induction size : rest.length generalizing state rest with
  | zero =>
    obtain ⟨front, twice, back, same, -⟩ := paired
    rw [length_eq_zero_iff.mp size] at same
    simp at same
  | succ size' ih =>
    cases rest with
    | nil => simp at size
    | cons uid rest =>
      have inner : rest.length = size' := by simpa using size
      have head := aligned.head
      by_cases zero : uid = 0
      · subst zero
        rw [← inner]
        have later : Paired known rest := by
          rcases paired_cases paired with ⟨back, -, nonzero, -⟩ | later
          · exact absurd rfl nonzero
          · exact later
        obtain ⟨front, twice, back, same, valid⟩ := later
        have long : 2 ≤ rest.length := by
          rw [same, length_append, length_cons, length_cons]
          omega
        refine hole_fails aligned few (by intro empty; simp [empty] at long) ?_
        rintro ⟨only, single, -⟩
        simp [single] at long
      cases found : known uid with
      | false =>
        have later : Paired known rest := by
          rcases paired_cases paired with ⟨back, -, -, valid⟩ | later
          · rw [found] at valid
            cases valid
          · exact later
        obtain ⟨turn, still⟩ := deleted_turn aligned few zero found size'
        rw [turn]
        exact ih (aligned_remove aligned few) still (pull_paired uid later)
          (by rw [pull_length, inner])
      | true =>
        rw [friend_turn aligned zero found]
        rcases paired_cases paired with ⟨back, same, -⟩ | later
        · subst same
          have second := (aligned_load aligned).head
          rw [← inner, length_cons, friend_turn (aligned_load aligned) zero found]
          intro compact
          have grows := run_grows limit known back.length
            state.load.load
          obtain ⟨more, whole, -⟩ := grows.out
          have out : state.load.load.out = state.out ++ [uid] ++ [uid] := by
            simp only [Loading.load] at second ⊢
            rw [second, head]
          have once := compact.once
          rw [whole, out] at once
          simp [nodup_append] at once
        · exact ih (aligned_load aligned) few later inner

theorem covered_mono (entries : List UInt32) (covered : Covered known false entries)
    (behind : Bool) : Covered known behind entries := by
  cases entries with
  | nil => trivial
  | cons uid rest =>
    rw [Covered] at covered ⊢
    by_cases zero : uid = 0
    · rw [if_pos zero] at covered
      cases covered.1
    · rw [if_neg zero] at covered ⊢
      exact covered

theorem pull_covered (known : UInt32 → Bool) (uid : UInt32) (behind : Bool) (rest : List UInt32)
    (covered : Covered known behind rest) (bad : behind = true → uid = 0 ∨ known uid = false) :
    Covered known (behind && decide (uid = 0)) (pull uid rest) ∧
      existing known (pull uid rest) = existing known rest := by
  unfold existing
  induction rest generalizing uid behind with
  | nil => exact ⟨trivial, rfl⟩
  | cons next rest ih =>
    rw [Covered] at covered
    by_cases zero : next = 0
    · subst zero
      obtain ⟨rfl, later⟩ := covered
      obtain ⟨inner, same⟩ := ih 0 true later fun _ => .inl rfl
      rw [pull, if_pos rfl]
      have dropped : (decide (uid ≠ 0) && known uid) = false := by
        rcases bad rfl with zero | unknown
        · simp [zero]
        · simp [unknown]
      refine ⟨?_, ?_⟩
      · rw [Covered]
        by_cases empty : uid = 0
        · rw [if_pos empty]
          exact ⟨by simp [empty], inner⟩
        · have unknown : known uid = false := (bad rfl).resolve_left empty
          rw [if_neg empty, unknown]
          exact inner
      · rw [filter_cons_of_neg (by rw [dropped]; exact Bool.false_ne_true), same,
          filter_cons_of_neg (by simp)]
    · rw [if_neg zero] at covered
      obtain ⟨inner, same⟩ := ih next (!known next) covered fun unknown =>
        .inr (by simpa using unknown)
      rw [pull, if_neg zero]
      refine ⟨?_, ?_⟩
      · rw [Covered, if_neg zero]
        rw [decide_eq_false zero, Bool.and_false] at inner
        exact covered_mono _ inner _
      · rw [filter_cons, filter_cons, same]

theorem pull_uncovered (known : UInt32 → Bool) (uid : UInt32) (behind : Bool) (rest : List UInt32)
    (uncovered : ¬Covered known behind rest)
    (friend : behind = false → uid ≠ 0 ∧ known uid = true) :
    Paired known (uid :: pull uid rest) ∧ (behind = true → Paired known (pull uid rest)) := by
  induction rest generalizing uid behind with
  | nil => exact absurd trivial uncovered
  | cons next rest ih =>
    rw [Covered] at uncovered
    by_cases zero : next = 0
    · subst zero
      cases behind with
      | false =>
        exact ⟨⟨[], uid, pull 0 rest, rfl, friend rfl⟩, fun no => absurd no Bool.false_ne_true⟩
      | true =>
        have inner := (ih 0 true (fun covered => uncovered ⟨rfl, covered⟩)
          fun no => absurd no Bool.false_ne_true.symm).2 rfl
        exact ⟨(inner.cons _).cons _, fun _ => inner.cons _⟩
    · rw [if_neg zero] at uncovered
      rw [pull, if_neg zero]
      have inner := (ih next (!known next) uncovered fun same =>
        ⟨zero, by simpa using same⟩).1
      exact ⟨inner.cons _, fun _ => inner⟩

theorem uncovered_fails (aligned : Aligned state rest) (few : state.count ≤ limit + 1)
    (uncovered : ¬Covered known false rest) (crowded : ¬Lone known rest) :
    ¬Compact (loadViews limit known rest.length state) := by
  induction rest generalizing state with
  | nil => exact absurd trivial uncovered
  | cons uid rest ih =>
    rw [Covered] at uncovered
    by_cases zero : uid = 0
    · subst zero
      refine hole_fails aligned few ?_ ?_
      · rintro rfl
        exact crowded ⟨[], [], rfl, by simp, .inl rfl⟩
      · exact fun last => crowded ⟨[], rest, rfl, by simp, .inr last⟩
    rw [if_neg zero] at uncovered
    rw [length_cons]
    cases found : known uid with
    | false =>
      obtain ⟨turn, still⟩ := deleted_turn aligned few zero found rest.length
      rw [found] at uncovered
      rw [turn]
      have paired := (pull_uncovered known uid true rest uncovered
        fun no => absurd no Bool.false_ne_true.symm).2 rfl
      have fails := pair_fails (aligned_remove aligned few) still paired
      rwa [pull_length] at fails
    | true =>
      rw [found] at uncovered
      rw [friend_turn aligned zero found]
      refine ih (aligned_load aligned) few uncovered ?_
      rintro ⟨front, back, rfl, friends, last⟩
      refine crowded ⟨uid :: front, back, rfl, fun other member => ?_, last⟩
      rcases mem_cons.mp member with rfl | inside
      · exact ⟨zero, found⟩
      · exact friends other inside

structure Ends (state : Loading) (friends : List UInt32) : Prop where
  out : state.out = friends
  length : state.out.length = state.count
  shown : ∀ slot < state.count, state.out[slot]? = some (state.view slot)
  index : state.count ≤ state.index

theorem aligned_ends (aligned : Aligned state []) : Ends state state.out := by
  have count : state.count = state.index := aligned.count
  exact ⟨rfl, by rw [count, aligned.length], fun slot below => aligned.shown slot (by omega),
    by omega⟩

theorem covered_ends (aligned : Aligned state rest) (few : state.count ≤ limit + 1)
    (covered : Covered known false rest) :
    Ends (loadViews limit known rest.length state) (state.out ++ existing known rest) := by
  induction size : rest.length generalizing state rest with
  | zero =>
    rw [length_eq_zero_iff.mp size] at aligned ⊢
    rw [existing, filter_nil, append_nil]
    exact aligned_ends aligned
  | succ size' ih =>
    cases rest with
    | nil => simp at size
    | cons uid rest =>
      have inner : rest.length = size' := by simpa using size
      rw [Covered] at covered
      by_cases zero : uid = 0
      · rw [if_pos zero] at covered
        cases covered.1
      rw [if_neg zero] at covered
      cases found : known uid with
      | false =>
        obtain ⟨turn, short⟩ := deleted_turn aligned few zero found size'
        obtain ⟨still, same⟩ := pull_covered known uid (!known uid) rest covered
          fun _ => .inr found
        rw [decide_eq_false zero, Bool.and_false] at still
        have ends := ih (aligned_remove aligned few) short still
          (by rw [pull_length, inner])
        rw [turn]
        rw [(remove_kept limit state).2, same] at ends
        rw [existing, filter_cons_of_neg (by simp [found])]
        exact ends
      | true =>
        rw [found] at covered
        have ends := ih (aligned_load aligned) few covered inner
        rw [friend_turn aligned zero found]
        rw [aligned.load_out, append_assoc] at ends
        rw [existing, filter_cons_of_pos (by simp [zero, found])]
        exact ends

theorem last_hole_ends (aligned : Aligned state [0]) (few : state.count ≤ limit + 1) :
    Ends (loadViews limit known 1 state) state.out := by
  have count : state.count = state.index + 1 := aligned.count
  obtain ⟨after, view⟩ := remove_inside (by omega) few
  obtain ⟨index, out⟩ := remove_kept limit state
  have length := aligned.length
  have turn : loadViews limit known 1 state = (state.remove limit).skip := by
    rw [loadViews, loadViews, Loading.step, if_pos aligned.head]
  rw [turn]
  refine ⟨out, ?_, fun slot below => ?_, ?_⟩
  · simp only [Loading.skip, out]
    omega
  · simp only [Loading.skip, out, view] at below ⊢
    rw [if_neg (by omega)]
    exact aligned.shown slot (by omega)
  · simp only [Loading.skip, after]
    omega

theorem last_friend_ends (aligned : Aligned state [0, uid]) (few : state.count ≤ limit + 1)
    (nonzero : uid ≠ 0) (found : known uid = true) :
    Ends (loadViews limit known 2 state) (state.out ++ [uid]) := by
  have count : state.count = state.index + 2 := aligned.count
  obtain ⟨after, view⟩ := remove_inside (by omega) few
  obtain ⟨index, out⟩ := remove_kept limit state
  have length := aligned.length
  have second : state.view (state.index + 1) = uid := by
    have entry := aligned.rest 1 (by simp)
    simpa using entry.symm
  have stale : (state.remove limit).skip.view (state.remove limit).skip.index = uid := by
    simp only [Loading.skip, index, view]
    rw [if_neg (by omega), second]
  have turns : loadViews limit known 2 state = (state.remove limit).skip.load := by
    rw [loadViews, Loading.step, if_pos aligned.head, loadViews, loadViews, Loading.step, stale,
      if_neg nonzero, found, if_neg (by decide)]
  have ending : state.count - 1 = state.index + 1 := by omega
  have moved : (state.remove limit).view state.index = uid := by
    rw [view, second, if_pos ⟨le_refl _, by omega, nonzero⟩]
  rw [turns]
  refine ⟨?_, ?_, fun slot below => ?_, ?_⟩
  · simp only [Loading.load, stale]
    simp [Loading.skip, out]
  · simp only [Loading.load, Loading.skip, length_append, out, after, ending, length,
      length_singleton]
  · simp only [Loading.load, stale]
    simp only [Loading.skip, after, ending] at below
    simp only [Loading.skip, out]
    rcases lt_or_eq_of_le (le_of_lt_succ below) with under | rfl
    · rw [getElem?_append_left (by omega), view, if_neg (by omega)]
      exact aligned.shown slot under
    · rw [moved, ← length, getElem?_append_right (le_refl _)]
      simp
  · simp only [Loading.load, Loading.skip]
    omega

theorem lone_ends (aligned : Aligned state rest) (few : state.count ≤ limit + 1)
    (lone : Lone known rest) :
    Ends (loadViews limit known rest.length state) (state.out ++ existing known rest) := by
  induction rest generalizing state with
  | nil =>
    obtain ⟨front, back, same, -⟩ := lone
    simp at same
  | cons uid rest ih =>
    obtain ⟨front, back, same, friends, last⟩ := lone
    cases front with
    | cons first front =>
      simp only [cons_append, cons.injEq] at same
      obtain ⟨rfl, rest'⟩ := same
      obtain ⟨nonzero, found⟩ := friends uid mem_cons_self
      have ends := ih (aligned_load aligned) few ⟨front, back, rest',
        fun other member => friends other (mem_cons_of_mem uid member), last⟩
      rw [aligned.load_out, append_assoc] at ends
      rw [length_cons, friend_turn aligned nonzero found, existing,
        filter_cons_of_pos (by simp [nonzero, found])]
      exact ends
    | nil =>
      obtain ⟨rfl, rfl⟩ := same
      rcases last with rfl | ⟨friend, rfl, nonzero, found⟩
      · have none_left : existing known [0] = [] := by simp [existing]
        rw [none_left, append_nil]
        exact last_hole_ends aligned few
      · have one_left : existing known [0, friend] = [friend] := by
          simp [existing, nonzero, found]
        rw [one_left]
        exact last_friend_ends aligned few nonzero found

variable (known) in
theorem step_far (state : Loading) (far : ∀ slot, limit ≤ slot → state.view slot = 0) :
    (∀ slot, limit ≤ slot → (state.step limit known).view slot = 0) ∧
      (state.step limit known).out.length + (limit - (state.step limit known).index) ≤
        state.out.length + (limit - state.index) ∧
      (limit + 2 ≤ state.count → (state.step limit known).count = state.count) := by
  have removed : (∀ slot, limit ≤ slot → (state.remove limit).view slot = 0) ∧
      (limit + 2 ≤ state.count → (state.remove limit).count = state.count) := by
    rw [Loading.remove]
    split
    · refine ⟨fun slot beyond => ?_, fun many => if_pos (by omega)⟩
      dsimp only
      rw [if_neg (fun both => both.2.2 (far (slot + 1) (by omega))), far slot beyond]
    · exact ⟨far, fun _ => rfl⟩
  obtain ⟨index, out⟩ := remove_kept limit state
  unfold Loading.step
  by_cases zero : state.view state.index = 0
  · rw [if_pos zero]
    refine ⟨removed.1, ?_, removed.2⟩
    simp only [Loading.skip, index, out]
    omega
  rw [if_neg zero]
  by_cases unknown : known (state.view state.index) = false
  · rw [if_pos unknown]
    split
    · refine ⟨removed.1, ?_, removed.2⟩
      rw [index, out]
    · refine ⟨far, ?_, fun _ => rfl⟩
      simp only [Loading.skip]
      omega
  · rw [if_neg unknown]
    refine ⟨far, ?_, fun _ => rfl⟩
    have near : state.index < limit := by
      by_contra beyond
      exact zero (far state.index (by omega))
    simp only [Loading.load, length_append, length_singleton]
    omega

variable (known) in
theorem run_far (state : Loading) (far : ∀ slot, limit ≤ slot → state.view slot = 0) :
    (∀ slot, limit ≤ slot → (loadViews limit known remaining state).view slot = 0) ∧
      (loadViews limit known remaining state).out.length ≤
        state.out.length + (limit - state.index) ∧
      (limit + 2 ≤ state.count → (loadViews limit known remaining state).count = state.count) := by
  induction remaining generalizing state with
  | zero => exact ⟨far, le_add_right _ _, fun _ => rfl⟩
  | succ remaining ih =>
    obtain ⟨later, bound, same⟩ := step_far known state far
    obtain ⟨last, rest, kept⟩ := ih _ later
    refine ⟨last, rest.trans bound, fun many => ?_⟩
    rw [loadViews, kept (by rw [same many]; exact many), same many]

end Turns

section Load
variable (server : Server) (world : World) (account : UInt32)

def startLoading (account : Account) : Loading where
  view := readable server account
  count := account.count
  index := 0
  out := []

theorem start_aligned (account : Account) :
    Aligned (startLoading server account) (readableEntries server account) := by
  refine ⟨by simp [startLoading, readableEntries], fun slot inside => ?_, rfl, fun slot before =>
    absurd before (not_lt_zero slot)⟩
  have small : slot < account.count := by simpa [readableEntries] using inside
  simp [readableEntries, startLoading, small]

theorem readable_sublist (account : Account) :
    (existing server.known (readableEntries server account)).Sublist
      (existing server.known (storedEntries server account)) := by
  rw [readableEntries, storedEntries]
  induction range account.count with
  | nil => exact Sublist.refl _
  | cons index rest ih =>
    rw [map_cons, map_cons, existing, existing]
    by_cases near : index < server.maxFriends
    · rw [readable, if_pos near, filter_cons, filter_cons]
      split
      · exact ih.cons_cons _
      · exact ih
    · rw [readable, if_neg near, filter_cons_of_neg (by simp), filter_cons]
      split
      · exact ih.cons _
      · exact ih

variable {after : Account} {final : Loading}

variable {server} in
theorem uids_shown (follows : Follows server after final) (valid : ∀ uid ∈ final.out, uid ≠ 0)
    (bound : final.out.length ≤ server.maxFriends) (same : after.uids = final.out) :
    final.out.length = final.count ∧
      ∀ slot < final.count, final.out[slot]? = some (final.view slot) := by
  have count := follows.count
  have size : after.uids.length = after.count := by simp [Account.uids]
  have length : final.out.length = final.count := by rw [← same, size, count]
  refine ⟨length, fun slot below => ?_⟩
  have near : slot < server.maxFriends := by omega
  have cell := uids_getElem after slot
  rw [if_pos (by omega), same] at cell
  have nonzero : after.uid slot ≠ 0 := valid _ (mem_of_getElem? cell)
  rw [cell, ← follows.shows.read slot, readable, if_pos near, entry, if_pos nonzero]

variable {server} in
theorem ends_uids {friends : List UInt32} (follows : Follows server after final)
    (ends : Ends final friends) (valid : ∀ uid ∈ friends, uid ≠ 0) : after.uids = friends := by
  have count := follows.count
  rw [← ends.out] at valid ⊢
  apply ext_getElem?
  intro slot
  rw [uids_getElem]
  by_cases below : slot < final.count
  · have cell := ends.shown slot below
    have nonzero := valid _ (mem_of_getElem? cell)
    have index := ends.index
    have converted := follows.shows.converted slot (by omega) (shows_near follows.shows nonzero)
    rw [if_pos (by omega), cell, converted]
  · have length := ends.length
    rw [if_neg (by omega), getElem?_eq_none (by omega)]

/-- The first load of an account finds the list it should, and leaves the attributes so, exactly if
they are of this form. -/
theorem first_load_exact (unloaded : (world account).friends = none) :
    Loaded server (world account) (accountGetFriends server world account account) ↔
      Loadable server (world account) := by
  set before := world account with own
  set start := startLoading server before with started
  have aligned : Aligned start (readableEntries server before) := start_aligned server before
  have size : (readableEntries server before).length = before.count := by simp [readableEntries]
  set final := loadViews server.maxFriends server.known before.count start with finished
  have follows : Follows server (accountGetFriends server world account account) final := by
    rw [accountGetFriends, ← own, unloaded]
    refine load_friends_follows account before.count 0 _ start rfl ?_
    rw [modify_own]
    exact ⟨⟨fun _ => rfl, fun slot before => absurd before (not_lt_zero slot)⟩, rfl, [], rfl, rfl⟩
  obtain ⟨listed, friends, out⟩ := follows.listed
  constructor
  · intro loaded
    obtain ⟨list, same, uids⟩ := loaded.listed
    rw [friends, some.injEq] at same
    subst same
    rw [out] at uids
    obtain ⟨-, bound, kept⟩ := run_far server.known before.count start
      fun slot beyond => if_neg (not_lt.mpr beyond)
    have room : start.out.length + (server.maxFriends - start.index) = server.maxFriends := by
      simp [startLoading, started]
    have short : final.out.length ≤ server.maxFriends := bound.trans_eq room
    obtain ⟨more, whole, valid⟩ := (run_grows server.maxFriends server.known before.count start).out
    have nonzero : ∀ uid ∈ final.out, uid ≠ 0 := by
      intro uid member
      rw [← finished, started, startLoading, nil_append] at whole
      exact (valid uid (whole ▸ member)).1
    obtain ⟨length, shown⟩ := uids_shown follows nonzero short uids
    have few : before.count ≤ server.maxFriends + 1 := by
      by_contra many
      have count : final.count = before.count := kept (by simp only [started, startLoading]; omega)
      omega
    have order : Covered server.known false (readableEntries server before) ∨
        Lone server.known (readableEntries server before) := by
      by_contra neither
      obtain ⟨uncovered, crowded⟩ := not_or.mp neither
      refine uncovered_fails aligned few uncovered crowded ?_
      rw [size]
      exact ⟨length, shown, uids ▸ loaded.once⟩
    have ends : final.out = existing server.known (readableEntries server before) := by
      rcases order with covered | lone
      · have ends := (covered_ends aligned few covered).out
        rwa [size] at ends
      · have ends := (lone_ends aligned few lone).out
        rwa [size] at ends
    refine ⟨few, ?_, fun uid member => ?_, order⟩
    · rw [← ends, ← uids]
      exact loaded.once
    · rw [← ends, ← uids]
      exact (loaded.complete uid).mpr member
  · intro loadable
    have ends : Ends final (existing server.known (readableEntries server before)) := by
      rcases loadable.order with covered | lone
      · have ends := covered_ends aligned loadable.few covered
        rwa [size] at ends
      · have ends := lone_ends aligned loadable.few lone
        rwa [size] at ends
    have uids := ends_uids follows ends fun uid member => by
      have valid := (mem_filter.mp member).2
      simp only [Bool.and_eq_true, decide_eq_true_eq] at valid
      exact valid.1
    refine ⟨⟨listed, friends, by rw [uids, out, ends.out]⟩, by rw [uids]; exact loadable.distinct,
      fun uid => ?_, by rw [uids]; exact readable_sublist server before⟩
    rw [uids]
    exact ⟨fun member => (readable_sublist server before).subset member, loadable.reached uid⟩

end Load

def sampleServer : Server where
  maxFriends := 20
  known uid := 1 ≤ uid && uid ≤ 5
  find _ := none
  username _ := []

def storedWorld (uids : List UInt32) : World := fun _ =>
  ⟨uids.length, fun slot => uids.getD slot 0, fun _ => none, none⟩

/-- A deleted account and a missing entry behind it. -/
theorem deleted_friend_closed : (storedWorld [2, 9, 0, 3] 1).friends = none ∧
    Loaded sampleServer (storedWorld [2, 9, 0, 3] 1)
      (accountGetFriends sampleServer (storedWorld [2, 9, 0, 3]) 1 1) := by
  refine ⟨rfl, (first_load_exact sampleServer (storedWorld [2, 9, 0, 3]) 1 rfl).mpr ?_⟩
  have entries : readableEntries sampleServer (storedWorld [2, 9, 0, 3] 1) = [2, 9, 0, 3] := by
    decide +kernel
  exact {
    few := by decide
    distinct := by
      exact (by decide : [(2 : UInt32), 3].Nodup)
    reached := by
      exact fun _ member => member
    order := by
      rw [entries]
      exact .inl (by simp [Covered, sampleServer]) }

/-- A missing entry in front of two friends: the first of them is skipped and the second one is
loaded twice. -/
theorem friend_skipped : (storedWorld [0, 2, 3] 1).friends = none ∧
    ¬Loaded sampleServer (storedWorld [0, 2, 3] 1)
      (accountGetFriends sampleServer (storedWorld [0, 2, 3]) 1 1) := by
  refine ⟨rfl, fun loaded => ?_⟩
  obtain ⟨list, friends, uids⟩ := loaded.listed
  have twice : (accountGetFriends sampleServer (storedWorld [0, 2, 3]) 1 1).friends.map
      (map Friend.account) = some [3, 3] := by
    decide +kernel
  rw [friends, map_some, some.injEq] at twice
  have once := loaded.once
  rw [uids, twice] at once
  exact absurd once (by decide)

end Pvpgn.FriendLoading
