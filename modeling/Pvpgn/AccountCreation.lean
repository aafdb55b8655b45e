import Pvpgn.AccountList
import Pvpgn.AttrGroup

/-!
`accountlist_create_account` with the attribute group of the new account and the storage: what a
call that returns NULL leaves of the tables and of the storage. A refused account is destroyed, and
that saves its attributes.
-/

namespace Pvpgn.AccountCreation
open Stdio TextUtil LinkedMemory EmbeddedList FilePlain AttrGroup Option Prod
open AccountFile hiding Storage
open AccountList hiding Storage step run accountCreate accountlistCreateAccount

/-- The storage as accounts use it. An account's handle tells what is stored. -/
structure Driver (δ σ : Type) where
  server : Server σ
  readAccount : δ → AccountList.Storage
  createAccount : δ → UInt32 → Text → Option σ × δ
  disk : σ → δ

structure State (δ σ : Type) where
  list : Accountlist
  disk : δ
  world : World σ

def usernameKey : Text := text "BNET\\acct\\username"
def useridKey : Text := text "BNET\\acct\\userid"
def passhash1Key : Text := text "BNET\\acct\\passhash1"
def ctimeKey : Text := text "BNET\\acct\\ctime"

section Calls
variable {δ σ : Type}

/-- After a call that may have written the account's attributes. -/
def settle (driver : Driver δ σ) (state : State δ σ) (world : World σ) (id : Nat) : State δ σ :=
  { state with world := world, disk := driver.disk (world.groups id).storage }

def attrgroupCreateNewuser (world : World σ) (id : Nat) (info : σ) : World σ :=
  attrgroupSetLoaded (world.set id ⟨⟨none, ∅⟩, info, false, false, false, 0, 0⟩) id

def accountGetNumattr (server : Server σ) (now : Int) (world : World σ) (id : Nat) (key : Text) :
    Option (UInt32 × World σ) := do
  let (val, world) ← attrgroupGetAttr server now world id key
  some ((val.bind strToUint).getD 0, world)

def setNewAttrs (server : Server σ) (now maxuserid : UInt32) (world : World σ) (id : Nat)
    (username passhash1 : Text) : Option (World σ) := do
  let time : Int := now.toNat
  let world ← attrgroupSetAttr server time world id usernameKey (some username)
  let world ← attrgroupSetAttr server time world id useridKey
    (some (unsigned (maxuserid + 1).toNat))
  let world ← attrgroupSetAttr server time world id passhash1Key (some passhash1)
  attrgroupSetAttr server time world id ctimeKey (some (unsigned now.toNat))

def lookup (driver : Driver δ σ) (prefs : Prefs) (state : State δ σ) (username : Text) :
    Option Account × Accountlist :=
  accountlistFindAccount prefs state.list (driver.readAccount state.disk) username

/-- `account_create`; whether there is an account, whose group is at `id`. -/
def accountCreate (driver : Driver δ σ) (prefs : Prefs) (now : UInt32) (state : State δ σ)
    (id : Nat) (username passhash1 : Text) : Option (Bool × State δ σ) :=
  if accountCheckName prefs.allowedSymbols username = false then some (false, state)
  else
    let (found, list) := lookup driver prefs state username
    if found.isSome then some (false, { state with list })
    else match driver.createAccount state.disk list.maxuserid username with
      | (none, disk) => some (false, { state with list, disk })
      | (some info, disk) =>
        (setNewAttrs driver.server now list.maxuserid
          (attrgroupCreateNewuser state.world id info) id username passhash1).map fun world =>
          (true, ⟨list, disk, world⟩)

/-- `account_destroy` and `account_save`: what is dirty is written by both. -/
def accountFinish (driver : Driver δ σ) (now : UInt32) (state : State δ σ) (id : Nat) :
    Option Account → Option (Option Account × State δ σ)
  | none =>
    (attrgroupFlush driver.server now.toNat state.world id true).map fun (_, world) =>
      (none, settle driver state world id)
  | some account =>
    (attrgroupSave driver.server now.toNat state.world id true).map fun (_, world) =>
      (some account, settle driver state world id)

def accountlistCreateAccount (driver : Driver δ σ) (prefs : Prefs) (now : UInt32)
    (state : State δ σ) (id : Nat) (username passhash1 : Text) :
    Option (Option Account × State δ σ) := do
  let (made, state) ← accountCreate driver prefs now state id username passhash1
  if made = false then some (none, state)
  else do
    let (uid, world) ← accountGetNumattr driver.server now.toNat state.world id useridKey
    let (account, list) := accountlistAddAccount prefs false state.list ⟨some username, uid⟩
    accountFinish driver now { state with list, world } id account

end Calls

/-! The lookup. -/

section Lookup
variable {prefs : Prefs} {list : Accountlist}

/-- An account that was found is in the tables, where it was or newly loaded; otherwise nothing has
changed. -/
def Looked (list : Accountlist) (result : Option Account × Accountlist) : Prop :=
  (result.1.isSome = true ∧ result.2 = list) ∨ result = (none, list) ∨
    ∃ account, Fresh list account ∧ result = (some account, added list account)

variable (storage : AccountList.Storage)

theorem load_new_looked (name : Option Text) (uid : UInt32) :
    Looked list (accountLoadNew prefs list storage name uid) := by
  unfold accountLoadNew
  split
  · exact Or.inr (Or.inl rfl)
  · split
    · exact Or.inr (Or.inl rfl)
    · exact Or.inr (add_account_cases true _)

theorem find_by_uid_looked (uid : UInt32) :
    Looked list (accountlistFindAccountByUid prefs list storage uid) := by
  unfold accountlistFindAccountByUid
  split
  · exact Or.inl ⟨rfl, rfl⟩
  · exact load_new_looked storage none uid

theorem Looked.missed {after : Accountlist} (looked : Looked list (none, after)) :
    after = list := by
  rcases looked with ⟨found, _⟩ | same | ⟨account, _, same⟩
  · cases found
  · exact (mk.inj same).2
  · cases (mk.inj same).1

theorem find_looked (username : Text) :
    Looked list (accountlistFindAccount prefs list storage username) := by
  have by_name : Looked list (accountLoadNew prefs list storage (some username) 0) :=
    load_new_looked storage (some username) 0
  unfold accountlistFindAccount
  dsimp only
  by_cases number : nameUserid prefs.savebyname username = 0
  · rw [if_pos number]
    dsimp only
    split
    · exact Or.inl ⟨rfl, rfl⟩
    · exact by_name
  have first : Looked list (accountlistFindAccountByUid prefs list storage
      (nameUserid prefs.savebyname username)) := find_by_uid_looked storage _
  rw [if_neg number]
  cases result : accountlistFindAccountByUid prefs list storage
    (nameUserid prefs.savebyname username) with
  | mk account after =>
    rw [result] at first
    cases account with
    | some account => exact first
    | none =>
      rw [first.missed]
      dsimp only
      split
      · exact Or.inl ⟨rfl, rfl⟩
      · exact by_name

end Lookup

/-! Failures. -/

section Failures
variable {δ σ : Type} {driver : Driver δ σ} {prefs : Prefs} {now : UInt32}
  {state after : State δ σ} {id : Nat} {username passhash1 : Text}

/-- What is left of a call that returns NULL. -/
structure Undone (driver : Driver δ σ) (prefs : Prefs) (username : Text)
    (before after : State δ σ) : Prop where
  invalid : accountCheckName prefs.allowedSymbols username = false → after = before
  tables : after.list = before.list ∨ ∃ account, (lookup driver prefs before username).1 =
    some account ∧ Fresh before.list account ∧ after.list = added before.list account
  taken : (lookup driver prefs before username).1.isSome = true → after.disk = before.disk
  free : (lookup driver prefs before username).1 = none → after.list = before.list
  storage : accountCheckName prefs.allowedSymbols username = true →
    (lookup driver prefs before username).1 = none →
    (driver.createAccount before.disk before.list.maxuserid username).1 = none →
    after.disk = (driver.createAccount before.disk before.list.maxuserid username).2

theorem accountFinish_list {list : State δ σ} {account result : Option Account}
    (finishes : accountFinish driver now list id account = some (result, after)) :
    result = account ∧ after.list = list.list := by
  cases account with
  | none =>
    obtain ⟨⟨code, world⟩, _, resultIs⟩ := map_eq_some_iff.mp finishes
    cases resultIs
    exact ⟨rfl, rfl⟩
  | some account =>
    obtain ⟨⟨code, world⟩, _, resultIs⟩ := map_eq_some_iff.mp finishes
    cases resultIs
    exact ⟨rfl, rfl⟩

theorem add_account_missed {list changed : Accountlist} {forced : Bool} {attributes : Attributes}
    (adds : accountlistAddAccount prefs forced list attributes = (none, changed)) :
    changed = list := by
  have outcome : accountlistAddAccount prefs forced list attributes = (none, list) ∨ _ :=
    add_account_cases forced attributes
  rcases outcome with same | ⟨account, _, new⟩
  · rw [same] at adds
    exact (mk.inj adds).2.symm
  · rw [new] at adds
    cases (mk.inj adds).1

theorem refused_list {middle : State δ σ}
    (finishes : (accountGetNumattr driver.server now.toNat middle.world id useridKey).bind
      (fun (uid, world) =>
        accountFinish driver now
          { middle with
            list := (accountlistAddAccount prefs false middle.list ⟨some username, uid⟩).2
            world := world } id
          (accountlistAddAccount prefs false middle.list ⟨some username, uid⟩).1) =
      some (none, after)) : after.list = middle.list := by
  obtain ⟨⟨uid, world⟩, _, finishes⟩ := bind_eq_some_iff.mp finishes
  obtain ⟨account, listIs⟩ := accountFinish_list finishes
  cases adds : accountlistAddAccount prefs false middle.list ⟨some username, uid⟩ with
  | mk found changed =>
    rw [adds] at account listIs
    subst account
    exact listIs.trans (add_account_missed adds)

end Failures

/-- A call that returns NULL leaves the tables and the greatest uid as they were, unless the name
was taken by an account that its lookup had to load; and it leaves the storage alone when the name
is invalid or taken, or the storage makes no account. -/
theorem failed_creation {δ σ : Type} (driver : Driver δ σ) (prefs : Prefs) (now : UInt32)
    (before after : State δ σ) (id : Nat) (username passhash1 : Text)
    (failed : accountlistCreateAccount driver prefs now before id username passhash1 =
      some (none, after)) :
    Undone driver prefs username before after := by
  have looked : Looked before.list (lookup driver prefs before username) := find_looked _ username
  unfold accountlistCreateAccount accountCreate at failed
  by_cases invalid : accountCheckName prefs.allowedSymbols username = false
  · simp only [if_pos invalid, bind_eq_bind, bind_some, if_true,
      Option.some.injEq, mk.injEq, true_and] at failed
    subst failed
    exact ⟨fun _ => rfl, Or.inl rfl, fun _ => rfl, fun _ => rfl,
      fun valid => absurd (invalid.symm.trans valid) (by simp)⟩
  simp only [if_neg invalid] at failed
  cases result : lookup driver prefs before username with
  | mk found list =>
    rw [result] at looked failed
    cases found with
    | some account =>
      simp only [isSome_some, if_true, bind_eq_bind, bind_some,
        Option.some.injEq, mk.injEq, true_and] at failed
      subst failed
      refine ⟨fun wrong => absurd wrong invalid, ?_, fun _ => rfl, fun missing => ?_,
        fun _ missing => ?_⟩
      · rcases looked with ⟨_, same⟩ | missed | ⟨loaded, fresh, new⟩
        · exact Or.inl same
        · cases (mk.inj missed).1
        · obtain ⟨accountIs, listIs⟩ := mk.inj new
          exact Or.inr ⟨loaded, by rw [result]; exact accountIs, fresh, listIs⟩
      · rw [result] at missing
        cases missing
      · rw [result] at missing
        cases missing
    | none =>
      have same : list = before.list := looked.missed
      subst same
      rw [if_neg (by simp)] at failed
      cases created : driver.createAccount before.disk before.list.maxuserid username with
      | mk info disk =>
        rw [created] at failed
        cases info with
        | none =>
          simp only [bind_eq_bind, bind_some, if_true, Option.some.injEq,
            mk.injEq, true_and] at failed
          subst failed
          refine ⟨fun wrong => absurd wrong invalid, Or.inl rfl, fun found => ?_,
            fun _ => rfl, fun _ _ _ => by rw [created]⟩
          rw [result] at found
          cases found
        | some info =>
          obtain ⟨⟨made, middle⟩, makes, rest⟩ := bind_eq_some_iff.mp failed
          obtain ⟨world, _, middleIs⟩ := map_eq_some_iff.mp makes
          obtain ⟨rfl, rfl⟩ := mk.inj middleIs
          have listIs := refused_list rest
          refine ⟨fun wrong => absurd wrong invalid, Or.inl listIs, fun found => ?_,
            fun _ => listIs, fun _ _ refused => ?_⟩
          · rw [result] at found
            cases found
          · rw [created] at refused
            cases refused

def fileDriver (accountsdir : Text) (savebyname : Bool) : Driver Files (Files × Text) where
  server := {
    storage := {
      readAttrs := fun (files, path) => match files.lookup path with
        | none => ([], -1)
        | some file => (plainReadAttrs file, 0)
      readAttr := fun _ _ => none
      writeAttrs := fun (files, path) attrs =>
        ((fileWriteAttrs (fun attrs => (plainWriteAttrs attrs).1)
          ⟨accountsdir, [], savebyname, 0, files⟩ path attrs).files, path)
      escapeKey := fun key => key }
    defattrs := 0
    userSyncTimer := 300
    userFlushTimer := 1000
    malloc := memoryServer.malloc
    malloc_unused := memoryServer.malloc_unused }
  readAccount := fun files name _ =>
    ((fileReadAccount ⟨accountsdir, [], savebyname, 0, files⟩ name).bind fun path =>
      files.lookup path).map fun file =>
        let values := replayed (plainReadAttrs file) fun _ => none
        ⟨values (canonical usernameKey), ((values (canonical useridKey)).bind strToUint).getD 0⟩
  createAccount := fun files maxuserid username =>
    ((fileCreateAccount ⟨accountsdir, [], savebyname, maxuserid, files⟩ username).map fun path =>
      (files, path), files)
  disk := fst

def sampleDriver : Driver Files (Files × Text) := fileDriver (text "users") true

def sampleWorld : World (Files × Text) where
  groups := fun _ => ⟨⟨none, ∅⟩, (∅, []), false, false, false, 0, 0⟩
  loadedlist := elistInit _
  dirtylist := elistInit _

def oneAccount : Accountlist :=
  added ⟨8, fun _ => [], fun _ => [], 0, 0⟩ ⟨text "first", 1, accountHash (text "first")⟩

def laterFile : Files :=
  (∅ : Files).insert (text "users/later")
    (plainWriteAttrs [stored (usernameKey, text "later"), stored (useridKey, text "7")]).1

def samplePrefs (maxAccounts : Nat) : Prefs := ⟨true, defaultSymbols, maxAccounts⟩

/-- A name that is taken by an account outside the tables. -/
theorem later_account_loaded : ∃ after,
    accountlistCreateAccount sampleDriver (samplePrefs 0) 0 ⟨oneAccount, laterFile, sampleWorld⟩ 5
      (text "later") [] = some (none, after) ∧
    Undone sampleDriver (samplePrefs 0) (text "later") ⟨oneAccount, laterFile, sampleWorld⟩
      after := by
  have computed : (accountlistCreateAccount sampleDriver (samplePrefs 0) 0
      ⟨oneAccount, laterFile, sampleWorld⟩ 5 (text "later") []).map fst = some none := by
    decide +kernel
  obtain ⟨⟨account, after⟩, creates, rfl⟩ := map_eq_some_iff.mp computed
  exact ⟨after, creates, failed_creation sampleDriver (samplePrefs 0) 0
    ⟨oneAccount, laterFile, sampleWorld⟩ after 5 (text "later") [] creates⟩

/-- The lookup of a taken name loads its account, and a creation above the limit writes its file. -/
theorem failures_leave_traces :
    (∃ after, accountlistCreateAccount sampleDriver (samplePrefs 0) 0
        ⟨oneAccount, laterFile, sampleWorld⟩ 5 (text "later") [] = some (none, after) ∧
      oneAccount.maxuserid = 1 ∧ after.list.maxuserid = 7) ∧
    ∃ after, accountlistCreateAccount sampleDriver (samplePrefs 1) 0
        ⟨oneAccount, laterFile, sampleWorld⟩ 5 (text "second") [] = some (none, after) ∧
      text "users/second" ∉ laterFile ∧ text "users/second" ∈ after.disk := by
  have loaded : (accountlistCreateAccount sampleDriver (samplePrefs 0) 0
      ⟨oneAccount, laterFile, sampleWorld⟩ 5 (text "later") []).map (fun result =>
        (result.1, result.2.list.maxuserid)) = some (none, 7) := by decide +kernel
  have written : (accountlistCreateAccount sampleDriver (samplePrefs 1) 0
      ⟨oneAccount, laterFile, sampleWorld⟩ 5 (text "second") []).map (fun result =>
        (result.1, (result.2.disk.lookup (text "users/second")).isSome)) =
      some (none, true) := by decide +kernel
  obtain ⟨⟨account, after⟩, creates, afterIs⟩ := map_eq_some_iff.mp loaded
  simp only [mk.injEq] at afterIs
  obtain ⟨rfl, maxuserid⟩ := afterIs
  obtain ⟨⟨other, full⟩, refuses, fullIs⟩ := map_eq_some_iff.mp written
  simp only [mk.injEq] at fullIs
  obtain ⟨rfl, there⟩ := fullIs
  exact ⟨⟨after, creates, rfl, maxuserid⟩, full, refuses, by decide +kernel,
    AList.lookup_isSome.mp there⟩

end Pvpgn.AccountCreation
