import Pvpgn.Stdio

/-!
`sql_create_account` writes the rows of a new account one statement after another. The tables are
keyed by the uid: a row is not inserted beside another one of its uid.
-/

namespace Pvpgn.AccountRows
open Stdio List Function

structure Row where
  uid : UInt32
  username : Text
  /-- The values of the other columns. -/
  attrs : List (Text × Text)
  deriving DecidableEq

structure Table where
  rows : List Row
  keyed : (rows.map Row.uid).Nodup

inductive TableName where
  | bnet
  | profile
  | record
  | friend
  deriving DecidableEq

abbrev Database := TableName → Table

def Table.Has (table : Table) (uid : UInt32) : Prop := uid ∈ table.rows.map Row.uid

instance (table : Table) (uid : UInt32) : Decidable (table.Has uid) :=
  inferInstanceAs (Decidable (uid ∈ table.rows.map Row.uid))

/-- `DELETE FROM table WHERE uid = 'uid'` -/
def Table.delete (table : Table) (uid : UInt32) : Table where
  rows := table.rows.filter fun row => row.uid ≠ uid
  keyed := (filter_sublist.map Row.uid).nodup table.keyed

/-- `INSERT INTO table`, which fails if there is a row of this uid. -/
def Table.insert (table : Table) (row : Row) : Option Table :=
  if absent : table.Has row.uid then none
  else some ⟨row :: table.rows, nodup_cons.mpr ⟨absent, table.keyed⟩⟩

/-- What was there is deleted, whether that succeeds or not, and the row is inserted. -/
def renew (deleteFails insertFails : Bool) (table : Table) (row : Row) : Bool × Table :=
  let table := if deleteFails then table else table.delete row.uid
  match if insertFails then none else table.insert row with
  | some table => (true, table)
  | none => (false, table)

/-- Only the first table has a user name. -/
def newRow (uid : UInt32) (user : Text) (name : TableName) : Row :=
  ⟨uid, if name = .bnet then user else [], []⟩

/-- The tables from the first one on, until an insert fails; `fails` tells which statements do. -/
def renewAll (fails : Nat → Bool) (uid : UInt32) (user : Text) :
    Nat → List TableName → Database → Bool × Database
  | _, [], db => (true, db)
  | number, name :: rest, db =>
    let renewed := renew (fails number) (fails (number + 1)) (db name) (newRow uid user name)
    let db := update db name renewed.2
    if renewed.1 then renewAll fails uid user (number + 2) rest db else (false, db)

/-- The uid of the handle, or `NULL`, and the database afterwards. -/
def sqlCreateAccount (fails : Nat → Bool) (maxuserid : UInt32) (db : Database) (username : Text) :
    Option UInt32 × Database :=
  let uid := maxuserid + 1
  let user := username.map tolower
  if fails 0 then (none, db)
  else if 0 < (db .bnet).rows.countP (fun row => row.username = user) then (none, db)
  else
    match renewAll fails uid user 1 [.bnet, .profile, .record, .friend] db with
    | (true, db) => (some uid, db)
    | (false, db) => (none, db)

/-! What it is to do. -/

variable (fails : Nat → Bool) (maxuserid : UInt32) (db : Database) (username : Text)

/-- A handle only with a row in every table, and no new row without a handle. -/
def Atomic : Prop :=
  match sqlCreateAccount fails maxuserid db username with
  | (some uid, after) => uid = maxuserid + 1 ∧
      ∀ name, (after name).rows.countP (fun row => row.uid = uid) = 1
  | (none, after) =>
    ∀ name, ∀ row ∈ (after name).rows, row.uid = maxuserid + 1 → row ∈ (db name).rows

/-- The two statements for a table insert its row. -/
def Inserts (number : Nat) (name : TableName) : Prop :=
  fails (number + 1) = false ∧ (fails number = true → ¬(db name).Has (maxuserid + 1))

def AllInsert : Nat → List TableName → Prop
  | _, [] => True
  | number, name :: rest => Inserts fails maxuserid db number name ∧ AllInsert (number + 2) rest

/-- The name is free and its row is inserted, but one of the other rows is not. -/
def Interrupted : Prop :=
  fails 0 = false ∧ (∀ row ∈ (db .bnet).rows, row.username ≠ username.map tolower) ∧
    Inserts fails maxuserid db 1 .bnet ∧
    ¬AllInsert fails maxuserid db 3 [.profile, .record, .friend]

variable {fails : Nat → Bool} {maxuserid : UInt32} {db : Database} {username : Text}

theorem renew_done (deleteFails insertFails : Bool) (table : Table) (row : Row) :
    (renew deleteFails insertFails table row).1 = true ↔
      insertFails = false ∧ (deleteFails = true → ¬table.Has row.uid) := by
  have gone : ¬(table.delete row.uid).Has row.uid := by simp [Table.Has, Table.delete]
  cases insertFails with
  | true => simp [renew]
  | false =>
    cases deleteFails with
    | false => simp [renew, Table.insert, gone]
    | true => by_cases has : table.Has row.uid <;> simp [renew, Table.insert, has]

variable {names : List TableName} {deleteFails insertFails : Bool} {name : TableName}
  {table : Table}

theorem renew_inserted {row : Row} (done : (renew deleteFails insertFails table row).1 = true) :
    row ∈ (renew deleteFails insertFails table row).2.rows ∧
      (renew deleteFails insertFails table row).2.rows.countP (fun other => other.uid = row.uid) =
        1 := by
  have single (table : Table) (absent : ¬table.Has row.uid) :
      (row :: table.rows).countP (fun other => other.uid = row.uid) = 1 := by
    rw [countP_cons_of_pos (by simp), Nat.add_eq_right, countP_eq_zero]
    exact fun other member same => absent (mem_map.mpr ⟨other, member, of_decide_eq_true same⟩)
  rw [renew] at done ⊢
  generalize (if deleteFails then table else table.delete row.uid) = kept at *
  cases insertFails with
  | true => cases done
  | false =>
    by_cases has : kept.Has row.uid
    · simp [Table.insert, has] at done
    · simp [Table.insert, has, single kept has]

theorem renew_refused {row : Row} (refused : (renew deleteFails insertFails table row).1 = false) :
    (renew deleteFails insertFails table row).2.rows ⊆ table.rows := by
  have kept : (if deleteFails then table else table.delete row.uid).rows ⊆ table.rows := by
    split
    · exact Subset.refl _
    · exact filter_subset_self _
  rw [renew] at refused ⊢
  split
  · next inserted => simp [inserted] at refused
  · exact kept

theorem renew_others (uid : UInt32) (user : Text) (number : Nat) (outside : name ∉ names)
    (db : Database) : (renewAll fails uid user number names db).2 name = db name := by
  induction names generalizing number db with
  | nil => rfl
  | cons first rest ih =>
    rw [mem_cons, not_or] at outside
    rw [renewAll]
    split
    · rw [ih _ outside.2, update_of_ne outside.1]
    · exact update_of_ne outside.1 ..

theorem all_insert_update {number : Nat} (outside : name ∉ names) (table : Table) :
    AllInsert fails maxuserid (update db name table) number names ↔
      AllInsert fails maxuserid db number names := by
  induction names generalizing number with
  | nil => rfl
  | cons first rest ih =>
    rw [mem_cons, not_or] at outside
    rw [AllInsert, AllInsert, ih outside.2, Inserts, Inserts, update_of_ne (Ne.symm outside.1)]

theorem renew_all (db : Database) (user : Text) (number : Nat) (distinct : names.Nodup) :
    ((renewAll fails (maxuserid + 1) user number names db).1 = true ↔
      AllInsert fails maxuserid db number names) ∧
    ((renewAll fails (maxuserid + 1) user number names db).1 = true → ∀ name ∈ names,
      ((renewAll fails (maxuserid + 1) user number names db).2 name).rows.countP
        (fun row => row.uid = maxuserid + 1) = 1) := by
  induction names generalizing number db with
  | nil => simp [renewAll, AllInsert]
  | cons first rest ih =>
    obtain ⟨outside, distinct⟩ := nodup_cons.mp distinct
    have inserts := renew_done (fails number) (fails (number + 1)) (db first)
      (newRow (maxuserid + 1) user first)
    rw [renewAll, AllInsert]
    split
    · next done =>
      obtain ⟨all, counts⟩ := ih _ (number + 2) distinct
      refine ⟨by rw [all, all_insert_update outside]; exact (and_iff_right (inserts.mp done)).symm,
        fun last name member => ?_⟩
      rcases mem_cons.mp member with rfl | member
      · rw [renew_others _ _ _ outside, update_self]
        exact (renew_inserted done).2
      · exact counts last name member
    · next refused =>
      exact ⟨iff_of_false Bool.false_ne_true fun all => refused (inserts.mpr all.1),
        fun impossible => absurd impossible Bool.false_ne_true⟩

/-- The rows of an account come with its handle exactly if it is not the row of the first table
alone that can be inserted. -/
theorem account_atomic : Atomic fails maxuserid db username ↔
    ¬Interrupted fails maxuserid db username := by
  have distinct : [TableName.bnet, .profile, .record, .friend].Nodup := by decide
  obtain ⟨all, counts⟩ := renew_all db (username.map tolower) 1 distinct
  have inserts := renew_done (fails 1) (fails 2) (db .bnet)
    (newRow (maxuserid + 1) (username.map tolower) .bnet)
  rw [Atomic, sqlCreateAccount, Interrupted]
  by_cases error : fails 0 = true
  · simpa [error] using fun _ _ member _ => member
  by_cases taken : 0 < (db .bnet).rows.countP fun row => row.username = username.map tolower
  · obtain ⟨row, member, same⟩ := countP_pos_iff.mp taken
    simp only [error, taken, if_true]
    exact iff_of_true (fun _ _ member _ => member)
      fun wrong => wrong.2.1 row member (of_decide_eq_true same)
  have free : ∀ row ∈ (db .bnet).rows, row.username ≠ username.map tolower :=
    fun row member same => taken (countP_pos_iff.mpr ⟨row, member, decide_eq_true same⟩)
  simp only [error, taken, if_false]
  cases ran : renewAll fails (maxuserid + 1) (username.map tolower) 1
      [.bnet, .profile, .record, .friend] db with
  | mk done after =>
    rw [ran] at all counts
    cases done with
    | true =>
      exact iff_of_true ⟨rfl, fun name => counts rfl name (by cases name <;> simp)⟩
        fun wrong => wrong.2.2.2 (all.mp rfl).2
    | false =>
      rw [renewAll] at ran
      split at ran
      · next first =>
        have outside : TableName.bnet ∉ [TableName.profile, .record, .friend] := by decide
        have bnet := congrFun (congrArg Prod.snd ran) .bnet
        rw [renew_others _ _ _ outside, update_self] at bnet
        refine iff_of_false (fun kept => free _ (kept .bnet _ (bnet ▸ (renew_inserted first).1) rfl)
          rfl) (not_not.mpr ⟨by simp, free, inserts.mp first, fun rest => ?_⟩)
        exact absurd (all.mpr ⟨inserts.mp first, rest⟩) Bool.false_ne_true
      · next refused =>
        obtain ⟨-, rfl⟩ := Prod.mk.inj ran
        refine iff_of_true (fun name row member _ => ?_)
          fun wrong => refused (inserts.mpr wrong.2.2.1)
        by_cases same : name = .bnet
        · subst same
          rw [update_self] at member
          exact renew_refused (by simpa using refused) member
        · rwa [update_of_ne same] at member

/-- The insert into the profile table fails: the row of the first table stays. -/
theorem profile_failure_leaves_row : ¬Atomic (· = 4) 1 (fun _ => ⟨[], nodup_nil⟩) [97] := by
  intro kept
  have row := kept .bnet ⟨2, [97], []⟩ (by decide) rfl
  exact absurd row not_mem_nil

end Pvpgn.AccountRows
