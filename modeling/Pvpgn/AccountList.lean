import Pvpgn.AccountFile
import Pvpgn.Tag

/-!
The list of accounts: two hash tables, by the hash of the name and by uid, and the greatest uid.
A row of a table has its entries newest first. What the storage finds is a parameter of every call
that asks it.
-/

namespace Pvpgn.AccountList
open Stdio TextUtil AccountFile List Nat UInt8

structure Account where
  name : Text
  uid : UInt32
  namehash : UInt32
  deriving Repr, DecidableEq

structure Accountlist where
  numRows : Nat
  head : Nat → List Account
  uidHead : Nat → List Account
  length : Nat
  maxuserid : UInt32

/-- `BNET\acct\username` and `BNET\acct\userid` of an attribute group, 0 when it has no uid. -/
structure Attributes where
  username : Option Text
  userid : UInt32

structure Prefs where
  savebyname : Bool
  allowedSymbols : Text
  maxAccounts : Nat

/-- `storage->read_account` and the attributes it leads to. -/
abbrev Storage := Option Text → UInt32 → Option Attributes

def hashChar (h : UInt32) (byte : UInt8) : UInt32 :=
  (h + h <<< 5) ^^^ if isupper byte = false then Tag.promote byte else (tolower byte).toUInt32

def accountHash (username : Text) : UInt32 := username.foldl hashChar 5381

def insertData (numRows : Nat) (rows : Nat → List Account) (account : Account) (hash : UInt32) :
    Nat → List Account := fun row =>
  if row = hash.toNat % numRows then account :: rows row else rows row

/-- What `HASHTABLE_TRAVERSE_MATCHING` goes through. -/
def matching (list : Accountlist) (rows : Nat → List Account) (hash : UInt32) : List Account :=
  rows (hash.toNat % list.numRows)

/-- `forced` when the limit is not checked. -/
def accountlistAddAccount (prefs : Prefs) (forced : Bool) (list : Accountlist)
    (attributes : Attributes) : Option Account × Accountlist :=
  match attributes.username with
  | none => (none, list)
  | some username =>
    let uid := attributes.userid
    if username.length < 1 then (none, list)
    else if uid < 1 then (none, list)
    else if ¬(forced = true ∨ prefs.maxAccounts = 0 ∨ list.length < prefs.maxAccounts) then
      (none, list)
    else
      let account : Account := { name := username, uid, namehash := accountHash username }
      if uid ≤ list.maxuserid ∧
          ((matching list list.uidHead uid).any fun curr => curr.uid = uid) = true then
        (none, list)
      else if ((matching list list.head account.namehash).any fun curr =>
          sameCaseless curr.name username) = true then (none, list)
      else
        (some account, { list with
          head := insertData list.numRows list.head account account.namehash
          uidHead := insertData list.numRows list.uidHead account uid
          length := list.length + 1
          maxuserid := if list.maxuserid < uid then uid else list.maxuserid })

def accountLoadNew (prefs : Prefs) (list : Accountlist) (storage : Storage) (name : Option Text)
    (uid : UInt32) : Option Account × Accountlist :=
  if name.any (fun name => !accountCheckName prefs.allowedSymbols name) = true then (none, list)
  else
    match storage name uid with
    | none => (none, list)
    | some attributes => accountlistAddAccount prefs true list attributes

def accountlistFindAccountByUid (prefs : Prefs) (list : Accountlist) (storage : Storage)
    (uid : UInt32) : Option Account × Accountlist :=
  match if uid = 0 then none else (matching list list.uidHead uid).find? fun account =>
      account.uid = uid with
  | some account => (some account, list)
  | none => accountLoadNew prefs list storage none uid

def poundSign : UInt8 := 35

/-- The uid a name is read as, 0 if it is none. -/
def nameUserid (savebyname : Bool) (username : Text) : UInt32 :=
  if username.head? = some poundSign then (strToUint username.tail).getD 0
  else if savebyname = false then (strToUint username).getD 0
  else 0

def accountlistFindAccount (prefs : Prefs) (list : Accountlist) (storage : Storage)
    (username : Text) : Option Account × Accountlist :=
  let userid := nameUserid prefs.savebyname username
  let (account, list) :=
    if userid = 0 then (none, list) else accountlistFindAccountByUid prefs list storage userid
  match account with
  | some account => (some account, list)
  | none =>
    let named :=
      if userid = 0 ∨ username.head? = some poundSign ∨ username.head?.any isdigit = true then
        (matching list list.head (accountHash username)).find? fun account =>
          sameCaseless account.name username
      else none
    match named with
    | some account => (some account, list)
    | none => accountLoadNew prefs list storage (some username) 0

def accountMatch (account : Account) (username : Text) : Bool :=
  let userid := if username.head? = some poundSign then (strToUint username.tail).getD 0 else 0
  if userid ≠ 0 then account.uid = userid
  else account.namehash = accountHash username && sameCaseless account.name username

/-- `created` when the storage makes the account and stores its attributes. -/
def accountCreate (prefs : Prefs) (list : Accountlist) (storage : Storage) (username : Text)
    (created : Bool) : Option Attributes × Accountlist :=
  if accountCheckName prefs.allowedSymbols username = false then (none, list)
  else
    let (found, list) := accountlistFindAccount prefs list storage username
    if found.isSome ∨ created = false then (none, list)
    else (some { username := some username, userid := list.maxuserid + 1 }, list)

def accountlistCreateAccount (prefs : Prefs) (list : Accountlist) (storage : Storage)
    (username : Text) (created : Bool) : Option Account × Accountlist :=
  match accountCreate prefs list storage username created with
  | (none, list) => (none, list)
  | (some attributes, list) => accountlistAddAccount prefs false list attributes

/-- `_cb_read_accounts` under `accountlist_load_all`. -/
def cbReadAccounts (prefs : Prefs) (list : Accountlist) (attributes : Attributes) : Accountlist :=
  (accountlistAddAccount prefs true list attributes).2

/-- The file storage is read as a whole; the SQL storages are indexed and only tell the greatest
uid. -/
inductive StorageKind where
  | file (accounts : List Attributes)
  | sql (greatest : UInt32)

def readMaxuserid (list : Accountlist) : StorageKind → UInt32
  | .file _ => list.maxuserid
  | .sql greatest => greatest

def accountlistCreate (prefs : Prefs) (numRows : Nat) (kind : StorageKind) : Accountlist :=
  let empty : Accountlist :=
    { numRows, head := fun _ => [], uidHead := fun _ => [], length := 0, maxuserid := 0 }
  let list :=
    match kind with
    | .file accounts => accounts.foldl (cbReadAccounts prefs) empty
    | .sql _ => empty
  { list with maxuserid := readMaxuserid list kind }

inductive Operation where
  | createAccount (storage : Storage) (username : Text) (created : Bool)
  | cbReadAccounts (attributes : Attributes)
  | loadNew (storage : Storage) (name : Option Text) (uid : UInt32)
  | findAccount (storage : Storage) (username : Text)
  | findAccountByUid (storage : Storage) (uid : UInt32)

def step (prefs : Prefs) (list : Accountlist) : Operation → Accountlist
  | .createAccount storage username created =>
    (accountlistCreateAccount prefs list storage username created).2
  | .cbReadAccounts attributes => Pvpgn.AccountList.cbReadAccounts prefs list attributes
  | .loadNew storage name uid => (accountLoadNew prefs list storage name uid).2
  | .findAccount storage username => (accountlistFindAccount prefs list storage username).2
  | .findAccountByUid storage uid => (accountlistFindAccountByUid prefs list storage uid).2

def run (prefs : Prefs) (list : Accountlist) (operations : List Operation) : Accountlist :=
  operations.foldl (step prefs) list

def Listed (list : Accountlist) (account : Account) : Prop := ∃ row, account ∈ list.head row

/-- The two tables hold the same accounts, each once and in its own rows, and no two of them share a
uid or a name up to case. -/
structure WellKept (list : Accountlist) : Prop where
  hashed : ∀ account, Listed list account → account.namehash = accountHash account.name
  named : ∀ account row, Listed list account → (list.head row).count account =
    if row = account.namehash.toNat % list.numRows then 1 else 0
  numbered : ∀ account row, Listed list account → (list.uidHead row).count account =
    if row = account.uid.toNat % list.numRows then 1 else 0
  both : ∀ account row, account ∈ list.uidHead row → Listed list account
  uids : ∀ left right, Listed list left → Listed list right → left.uid = right.uid → left = right
  names : ∀ left right, Listed list left → Listed list right →
    sameCaseless left.name right.name = true → left = right
  greatest : ∀ account, Listed list account → account.uid ≤ list.maxuserid

section Caseless

theorem hash_char_shape : ∀ value < 256, (tolower (tolower (ofNat value)) = tolower (ofNat value)) ∧
    (if isupper (ofNat value) = false then Tag.promote (ofNat value)
      else (tolower (ofNat value)).toUInt32) = Tag.promote (tolower (ofNat value)) ∧
    isupper (tolower (ofNat value)) = false ∧
    isdigit (tolower (ofNat value)) = isdigit (ofNat value) ∧
    (isdigit (ofNat value) = true → tolower (ofNat value) = ofNat value) ∧
    [(9 : UInt8), 32, 35, 43].all fun plain =>
      (tolower (ofNat value) = plain ↔ ofNat value = plain) := by
  decide +kernel

theorem hash_char_tolower (h : UInt32) (byte : UInt8) :
    hashChar h byte = hashChar h (tolower byte) := by
  have shape := hash_char_shape byte.toNat byte.toNat_lt
  simp only [UInt8.ofNat_toNat] at shape
  rw [hashChar, hashChar, shape.2.1, shape.2.2.1, if_pos rfl]

variable (byte : UInt8) {left right : Text}

theorem tolower_plain :
    ∀ plain ∈ [(9 : UInt8), 32, 35, 43], tolower byte = plain ↔ byte = plain := by
  have shape := hash_char_shape byte.toNat byte.toNat_lt
  simpa using shape.2.2.2.2.2

theorem tolower_digit : isdigit (tolower byte) = isdigit byte ∧ (isdigit byte = true → tolower byte
    = byte) := by
  have shape := hash_char_shape byte.toNat byte.toNat_lt
  simp only [UInt8.ofNat_toNat] at shape
  exact ⟨shape.2.2.2.1, shape.2.2.2.2.1⟩

theorem account_hash_tolower (name : Text) : accountHash name = accountHash (name.map tolower) := by
  have folds (h : UInt32) : name.foldl hashChar h = (name.map tolower).foldl hashChar h := by
    induction name generalizing h with
    | nil => rfl
    | cons byte rest ih =>
      rw [foldl_cons, map_cons, foldl_cons, hash_char_tolower, ih]
  exact folds 5381

theorem str_to_uint_loop_tolower (str : Text) (val : UInt32) :
    strToUintLoop (str.map tolower) val = strToUintLoop str val := by
  induction str generalizing val with
  | nil => rfl
  | cons byte rest ih =>
    obtain ⟨digit, same⟩ := tolower_digit byte
    rw [map_cons, strToUintLoop, strToUintLoop, digit]
    by_cases numeral : isdigit byte = true
    · simp only [same numeral, ih]
    · simp only [numeral, Bool.false_eq_true, if_false]

theorem str_to_uint_tolower (str : Text) : strToUint (str.map tolower) = strToUint str := by
  have blanks : (fun byte => decide (byte = (32 : UInt8)) || decide (byte = 9)) ∘ tolower =
      fun byte => decide (byte = (32 : UInt8)) || decide (byte = 9) := by
    funext byte
    simp only [Function.comp_apply, tolower_plain byte 32 (by decide),
      tolower_plain byte 9 (by decide)]
  rw [strToUint, strToUint, dropWhile_map, blanks]
  cases start : str.dropWhile fun byte => decide (byte = (32 : UInt8)) || decide (byte = 9) with
  | nil => rfl
  | cons byte rest =>
    by_cases plus : byte = 43
    · rw [plus, map_cons, (tolower_plain 43 43 (by decide)).mpr rfl]
      exact str_to_uint_loop_tolower rest 0
    have lower : tolower byte ≠ 43 := mt (tolower_plain byte 43 (by decide)).mp plus
    have loops := str_to_uint_loop_tolower (byte :: rest) 0
    split
    · next signed => exact absurd (List.cons.inj signed).1 lower
    · split
      · next signed => exact absurd (List.cons.inj signed).1 plus
      · exact loops

theorem caseless_name (same : sameCaseless left right = true) :
    accountHash left = accountHash right ∧ strToUint left = strToUint right ∧
      (left.head? = some poundSign ↔ right.head? = some poundSign) ∧
      strToUint left.tail = strToUint right.tail := by
  have maps : left.map tolower = right.map tolower := by simpa [sameCaseless] using same
  refine ⟨?_, ?_, ?_, ?_⟩
  · rw [account_hash_tolower, maps, ← account_hash_tolower]
  · rw [← str_to_uint_tolower, maps, str_to_uint_tolower]
  · have heads := congrArg head? maps
    rw [head?_map, head?_map] at heads
    have pound (name : Text) : name.head? = some poundSign ↔
        name.head?.map tolower = some poundSign := by
      cases name with
      | nil => simp
      | cons byte rest => simp [tolower_plain byte poundSign (by decide)]
    rw [pound, pound, heads]
  · have tails := congrArg List.tail maps
    rw [← map_tail, ← map_tail] at tails
    rw [← str_to_uint_tolower, tails, str_to_uint_tolower]

theorem caseless_symm (same : sameCaseless left right = true) : sameCaseless right left = true := by
  simp only [sameCaseless, decide_eq_true_eq] at same ⊢
  exact same.symm

end Caseless

section Adding
variable {prefs : Prefs} {list : Accountlist}

def added (list : Accountlist) (account : Account) : Accountlist :=
  { list with
    head := insertData list.numRows list.head account account.namehash
    uidHead := insertData list.numRows list.uidHead account account.uid
    length := list.length + 1
    maxuserid := if list.maxuserid < account.uid then account.uid else list.maxuserid }

/-- The tables before an account is added: nothing in the rows it would be in clashes with it. -/
structure Fresh (list : Accountlist) (account : Account) : Prop where
  hashed : account.namehash = accountHash account.name
  uids : account.uid ≤ list.maxuserid →
    ∀ curr ∈ matching list list.uidHead account.uid, curr.uid ≠ account.uid
  names : ∀ curr ∈ matching list list.head account.namehash,
    sameCaseless curr.name account.name = false

theorem add_account_cases (forced : Bool) (attributes : Attributes) :
    accountlistAddAccount prefs forced list attributes = (none, list) ∨
      ∃ account, Fresh list account ∧
        accountlistAddAccount prefs forced list attributes = (some account, added list account) := by
  unfold accountlistAddAccount
  split
  · exact Or.inl rfl
  next username _ =>
    dsimp only
    split
    · exact Or.inl rfl
    split
    · exact Or.inl rfl
    split
    · exact Or.inl rfl
    split
    · exact Or.inl rfl
    next uids =>
      split
      · exact Or.inl rfl
      next names =>
        refine Or.inr ⟨⟨username, attributes.userid, accountHash username⟩, ⟨rfl, ?_, ?_⟩, rfl⟩
        · intro small curr inside same
          refine uids ⟨small, List.any_eq_true.mpr ⟨curr, inside, ?_⟩⟩
          simpa using same
        · intro curr inside
          cases same : sameCaseless curr.name username with
          | false => rfl
          | true => exact absurd (List.any_eq_true.mpr ⟨curr, inside, same⟩) names

theorem listed_added (list : Accountlist) (account other : Account) :
    Listed (added list account) other ↔ other = account ∨ Listed list other := by
  constructor
  · rintro ⟨row, inside⟩
    simp only [added, insertData] at inside
    split at inside
    · rcases mem_cons.mp inside with same | old
      · exact Or.inl same
      · exact Or.inr ⟨row, old⟩
    · exact Or.inr ⟨row, inside⟩
  · rintro (rfl | ⟨row, old⟩)
    · exact ⟨other.namehash.toNat % list.numRows, by simp [added, insertData]⟩
    refine ⟨row, ?_⟩
    simp only [added, insertData]
    split
    · exact mem_cons_of_mem account old
    · exact old

theorem count_inserted (numRows : Nat) (rows : Nat → List Account) (account other : Account)
    (hash : UInt32) (row : Nat) : (insertData numRows rows account hash row).count other =
      (rows row).count other +
        if other = account ∧ row = hash.toNat % numRows then 1 else 0 := by
  unfold insertData
  by_cases here : row = hash.toNat % numRows
  · rw [if_pos here, count_cons]
    by_cases same : account = other
    · simp [same, here]
    · simp [same, Ne.symm same]
  · rw [if_neg here, if_neg fun both => here both.2, add_zero]

variable {account : Account}

section
variable (kept : WellKept list)
include kept

theorem listed_row (listed : Listed list account) :
    account ∈ matching list list.head account.namehash ∧
      account ∈ matching list list.uidHead account.uid := by
  have named := kept.named account (account.namehash.toNat % list.numRows) listed
  have numbered := kept.numbered account (account.uid.toNat % list.numRows) listed
  rw [if_pos rfl] at named numbered
  exact ⟨count_pos_iff.mp (lt_of_lt_of_eq one_pos named.symm),
    count_pos_iff.mp (lt_of_lt_of_eq one_pos numbered.symm)⟩

theorem fresh_unlisted {other : Account} (fresh : Fresh list account) (listed : Listed list other) :
    other.uid ≠ account.uid ∧ sameCaseless other.name account.name = false := by
  have rows := listed_row kept listed
  constructor
  · intro same
    have small := kept.greatest other listed
    rw [same] at small rows
    exact fresh.uids small other rows.2 same
  cases same : sameCaseless other.name account.name with
  | false => rfl
  | true =>
    have hashes : other.namehash = account.namehash := by
      rw [kept.hashed other listed, fresh.hashed, (caseless_name same).1]
    rw [hashes] at rows
    rw [fresh.names other rows.1] at same
    cases same

theorem added_kept (fresh : Fresh list account) :
    WellKept (added list account) := by
  have apart {other : Account} (listed : Listed list other) : other ≠ account := by
    rintro rfl
    exact (fresh_unlisted kept fresh listed).1 rfl
  have unlisted : ¬ Listed list account := fun listed => apart listed rfl
  have counted (rows : Nat → List Account) (key : Account → UInt32)
      (none : ∀ row, account ∉ rows row) (each : ∀ other row, Listed list other →
        (rows row).count other = if row = (key other).toNat % list.numRows then 1 else 0)
      (other : Account) (row : Nat) (listed : Listed (added list account) other) :
      (insertData list.numRows rows account (key account) row).count other =
        if row = (key other).toNat % list.numRows then 1 else 0 := by
    rw [count_inserted]
    rcases (listed_added list account other).mp listed with rfl | old
    · rw [count_eq_zero.mpr (none row), zero_add]
      exact if_congr (and_iff_right rfl) rfl rfl
    · rw [each other row old, if_neg fun both : other = account ∧ _ => apart old both.1, add_zero]
  refine ⟨?_, counted _ Account.namehash (fun row inside => unlisted ⟨row, inside⟩) kept.named,
    counted _ Account.uid (fun row inside => unlisted (kept.both account row inside)) kept.numbered,
    ?_, ?_, ?_, ?_⟩
  · intro other listed
    rcases (listed_added list account other).mp listed with rfl | old
    · exact fresh.hashed
    · exact kept.hashed other old
  · intro other row inside
    rw [listed_added]
    simp only [added, insertData] at inside
    split at inside
    · rcases mem_cons.mp inside with same | old
      · exact Or.inl same
      · exact Or.inr (kept.both other row old)
    · exact Or.inr (kept.both other row inside)
  · intro left right first second same
    rcases (listed_added list account left).mp first with rfl | old <;>
      rcases (listed_added list _ right).mp second with rfl | older
    · rfl
    · exact absurd same.symm (fresh_unlisted kept fresh older).1
    · exact absurd same (fresh_unlisted kept fresh old).1
    · exact kept.uids left right old older same
  · intro left right first second same
    rcases (listed_added list account left).mp first with rfl | old <;>
      rcases (listed_added list _ right).mp second with rfl | older
    · rfl
    · have back := caseless_symm same
      rw [(fresh_unlisted kept fresh older).2] at back
      cases back
    · rw [(fresh_unlisted kept fresh old).2] at same
      cases same
    · exact kept.names left right old older same
  · intro other listed
    simp only [added]
    rcases (listed_added list account other).mp listed with rfl | old
    · split
      · exact UInt32.le_refl _
      · next small => exact UInt32.not_lt.mp small
    · have small := kept.greatest other old
      split
      · next grown => exact UInt32.le_trans small (UInt32.le_of_lt grown)
      · exact small

theorem add_account_kept (forced : Bool) (attributes : Attributes) :
    WellKept (accountlistAddAccount prefs forced list attributes).2 := by
  rcases add_account_cases forced attributes with same | ⟨account, fresh, new⟩
  · rw [same]
    exact kept
  · rw [new]
    exact added_kept kept fresh

theorem load_new_kept (storage : Storage) (name : Option Text) (uid : UInt32) :
    WellKept (accountLoadNew prefs list storage name uid).2 := by
  unfold accountLoadNew
  split
  · exact kept
  split
  · exact kept
  · exact add_account_kept kept true _

end

theorem find_by_uid_kept (prefs : Prefs) (kept : WellKept list) (storage : Storage) (uid : UInt32) :
    WellKept (accountlistFindAccountByUid prefs list storage uid).2 := by
  unfold accountlistFindAccountByUid
  split
  · exact kept
  · exact load_new_kept kept storage none uid

theorem find_kept (prefs : Prefs) (kept : WellKept list) (storage : Storage) (username : Text) :
    WellKept (accountlistFindAccount prefs list storage username).2 := by
  unfold accountlistFindAccount
  by_cases number : nameUserid prefs.savebyname username = 0
  · simp only [number, if_true]
    split
    · exact kept
    · exact load_new_kept kept storage _ 0
  have first := find_by_uid_kept prefs kept storage
    (nameUserid prefs.savebyname username)
  simp only [number, if_false]
  split
  · exact first
  · split
    · exact first
    · exact load_new_kept first storage _ 0

theorem create_account_kept (kept : WellKept list) (storage : Storage) (username : Text)
    (created : Bool) :
    WellKept (accountlistCreateAccount prefs list storage username created).2 := by
  have found := find_kept prefs kept storage username
  unfold accountlistCreateAccount accountCreate
  by_cases named : accountCheckName prefs.allowedSymbols username = false
  · simp only [named, if_true]
    exact kept
  simp only [named]
  by_cases stopped : (accountlistFindAccount prefs list storage username).1.isSome ∨ created = false
  · simp only [stopped, if_true]
    exact found
  · simp only [stopped, if_false]
    exact add_account_kept found false _

end Adding

variable {list : Accountlist}

section Runs
variable {prefs : Prefs}

theorem step_kept (kept : WellKept list) (operation : Operation) :
    WellKept (step prefs list operation) := by
  cases operation with
  | createAccount storage username created =>
    exact create_account_kept kept storage username created
  | cbReadAccounts attributes => exact add_account_kept kept true attributes
  | loadNew storage name uid => exact load_new_kept kept storage name uid
  | findAccount storage username => exact find_kept prefs kept storage username
  | findAccountByUid storage uid => exact find_by_uid_kept prefs kept storage uid

theorem run_kept (kept : WellKept list) (operations : List Operation) :
    WellKept (run prefs list operations) := by
  induction operations generalizing list with
  | nil => exact kept
  | cons operation rest ih => exact ih (step_kept kept operation)

variable (numRows : Nat)

theorem empty_kept (length : Nat) (maxuserid : UInt32) :
    WellKept ⟨numRows, fun _ => [], fun _ => [], length, maxuserid⟩ := by
  have none (account : Account) :
      ¬ Listed ⟨numRows, fun _ => [], fun _ => [], length, maxuserid⟩ account := by
    rintro ⟨row, inside⟩
    cases inside
  exact ⟨fun account listed => absurd listed (none account),
    fun account _ listed => absurd listed (none account),
    fun account _ listed => absurd listed (none account), fun _ _ inside => (by cases inside),
    fun left _ listed => absurd listed (none left), fun left _ listed => absurd listed (none left),
    fun account listed => absurd listed (none account)⟩

theorem accountlist_create_kept (kind : StorageKind) :
    WellKept (accountlistCreate prefs numRows kind) := by
  cases kind with
  | sql greatest => exact empty_kept numRows 0 greatest
  | file accounts =>
    have loaded (list : Accountlist) (kept : WellKept list) :
        WellKept (accounts.foldl (cbReadAccounts prefs) list) := by
      induction accounts generalizing list with
      | nil => exact kept
      | cons attributes rest ih => exact ih _ (add_account_kept kept true attributes)
    exact loaded _ (empty_kept numRows 0 0)

def NonNumeric (name : Text) : Prop :=
  (strToUint name).getD 0 = 0 ∧ (name.head? = some poundSign → (strToUint name.tail).getD 0 = 0)

variable {username : Text}

theorem non_numeric_userid {name : Text} (plain : NonNumeric name)
    (same : sameCaseless name username = true) (savebyname : Bool) :
    nameUserid savebyname username = 0 ∧
      (if username.head? = some poundSign then (strToUint username.tail).getD 0 else 0) = 0 := by
  obtain ⟨_, number, pound, tail⟩ := caseless_name same
  have tagged : username.head? = some poundSign → (strToUint username.tail).getD 0 = 0 := by
    intro start
    rw [← tail]
    exact plain.2 (pound.mpr start)
  constructor
  · unfold nameUserid
    split
    · next start => exact tagged start
    split
    · rw [← number]
      exact plain.1
    · rfl
  · split
    · next start => exact tagged start
    · rfl

theorem find_listed (prefs : Prefs) (kept : WellKept list) {account : Account}
    (listed : Listed list account) (plain : NonNumeric account.name)
    (same : sameCaseless account.name username = true) (storage : Storage) :
    accountMatch account username = true ∧
      accountlistFindAccount prefs list storage username = (some account, list) := by
  obtain ⟨number, pound⟩ := non_numeric_userid plain same prefs.savebyname
  have hashes : account.namehash = accountHash username := by
    rw [kept.hashed account listed, (caseless_name same).1]
  constructor
  · simp only [accountMatch, pound, ne_eq, not_true_eq_false, if_false, hashes, same,
      decide_true, Bool.and_self]
  have inside := (listed_row kept listed).1
  rw [hashes] at inside
  have found : ((matching list list.head (accountHash username)).find? fun other =>
      sameCaseless other.name username) = some account := by
    cases first : (matching list list.head (accountHash username)).find? fun other =>
        sameCaseless other.name username with
    | none => exact absurd same (find?_eq_none.mp first account inside)
    | some other =>
      have accepted := find?_some first
      have there : Listed list other := ⟨_, mem_of_find?_eq_some first⟩
      have names : sameCaseless other.name account.name = true := by
        simp only [sameCaseless, decide_eq_true_eq] at accepted same ⊢
        rw [accepted, same]
      rw [kept.names other account there listed names]
  simp only [accountlistFindAccount, number, if_true, true_or, found]

end Runs

/-- Whatever is created, loaded and looked up, in either kind of storage: no two listed accounts
share a uid or a name up to case, each is once in both tables and in its own rows, none has a greater
uid than the greatest, and each is found under every capitalisation of a name that is no number. -/
theorem accountlist_consistent (prefs : Prefs) (numRows : Nat) (kind : StorageKind)
    (operations : List Operation) :
    let list := run prefs (accountlistCreate prefs numRows kind) operations
    (∀ left right, Listed list left → Listed list right →
      left.uid = right.uid ∨ sameCaseless left.name right.name = true → left = right) ∧
    (∀ account, Listed list account → account.namehash = accountHash account.name ∧
      ∀ row, (list.head row).count account =
          (if row = account.namehash.toNat % list.numRows then 1 else 0) ∧
        (list.uidHead row).count account =
          if row = account.uid.toNat % list.numRows then 1 else 0) ∧
    (∀ account row, account ∈ list.uidHead row → Listed list account) ∧
    (∀ account, Listed list account → account.uid ≤ list.maxuserid) ∧
    ∀ account, Listed list account → NonNumeric account.name →
      ∀ username, sameCaseless account.name username = true →
        accountMatch account username = true ∧
          ∀ storage, (accountlistFindAccount prefs list storage username).1 = some account := by
  intro list
  have kept : WellKept list := run_kept (accountlist_create_kept numRows kind) operations
  refine ⟨?_, fun account listed => ⟨kept.hashed account listed, fun row =>
    ⟨kept.named account row listed, kept.numbered account row listed⟩⟩, kept.both, kept.greatest, ?_⟩
  · rintro left right first second (same | same)
    · exact kept.uids left right first second same
    · exact kept.names left right first second same
  · intro account listed plain username same
    refine ⟨(find_listed prefs kept listed plain same fun _ _ => none).1, ?_⟩
    intro storage
    rw [(find_listed prefs kept listed plain same storage).2]

end Pvpgn.AccountList
