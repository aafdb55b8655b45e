import Pvpgn.SqlClans

/-!
The attributes of accounts in an SQL database: one column for each key (`storage_sql.cpp`), or one
row for each key and account (`storage_sql2.cpp`).
-/

namespace Pvpgn.SqlAttrs
open Stdio TextUtil SqlText SqlEngine SqlClans

def dbMaxAttrkey : Nat := 128
def dbMaxAttrval : Nat := 180
def dbMaxTab : Nat := 64
def querySize : Nat := 512
def quotationMark : UInt8 := 34

inductive Layout where
  | sql
  | sql2

def separator : Layout → UInt8
  | .sql => 95
  | .sql2 => backslash

def columnSize : Layout → Nat
  | .sql => dbMaxTab
  | .sql2 => dbMaxAttrkey

/-- `_db_get_tab` -/
def dbGetTab (layout : Layout) (key : Text) : Option (Text × Text) :=
  let head := key.take (dbMaxTab - 1)
  if separator layout ∈ head then
    let tab := head.takeWhile (· ≠ separator layout)
    some (tab, (key.drop (tab.length + 1)).take (columnSize layout - 1))
  else none

def snprintf (query : Text) : Text := query.take (querySize - 1)

def safeval (layout : Layout) (value : Text) : Text :=
  let copied := value.take (dbMaxAttrval - 1)
  match layout with
  | .sql => copied.map fun byte => if byte = apostrophe then quotationMark else byte
  | .sql2 => copied

/-- The statement that reads `col` of an account in `table`; `col` is escaped for `sql2`. -/
def selectQuery (layout : Layout) (table col : Text) (uid : UInt32) : Text :=
  match layout with
  | .sql =>
    text "SELECT " ++ (col ++ (text " FROM " ++ (table ++ (text " WHERE uid = " ++
      unsigned uid.toNat))))
  | .sql2 =>
    text "SELECT value FROM " ++ (table ++ (text " WHERE uid = '" ++ (unsigned uid.toNat ++
      (text "' and name= '" ++ (col ++ text "'")))))

def updateQuery (layout : Layout) (table col escape : Text) (uid : UInt32) : Text :=
  match layout with
  | .sql =>
    text "UPDATE " ++ (table ++ (text " SET " ++ (col ++ (text " = '" ++ (escape ++
      (text "' WHERE uid = '" ++ (unsigned uid.toNat ++ text "'")))))))
  | .sql2 =>
    text "UPDATE " ++ (table ++ (text " SET value = '" ++ (escape ++ (text "' WHERE uid = '" ++
      (unsigned uid.toNat ++ (text "' AND name = '" ++ (col ++ text "'")))))))

def insertQuery (layout : Layout) (table col escape : Text) (uid : UInt32) : Text :=
  match layout with
  | .sql =>
    text "INSERT INTO " ++ (table ++ (text " (uid," ++ (col ++ (text ") VALUES ('" ++
      (unsigned uid.toNat ++ (text "','" ++ (escape ++ text "')")))))))
  | .sql2 =>
    text "INSERT INTO " ++ (table ++ (text " (uid, name, value) VALUES ('" ++
      (unsigned uid.toNat ++ (text "', '" ++ (col ++ (text "', '" ++ (escape ++ text "')")))))))

def alterQuery (table col : Text) : Text :=
  text "ALTER TABLE " ++ (table ++ (text " ADD COLUMN " ++ (col ++ text " VARCHAR(128)")))

/-- The column in a statement of `storage_sql`, and the escaped key of `storage_sql2`. -/
def shownColumn (sql : Sql) : Layout → Text → Text
  | .sql, col => col
  | .sql2, col => sql.escape col

def onlyValue : List (List (Option Text)) → Option Text
  | [row] => row.head?.bind id
  | _ => none

/-- `sql_read_attr` and `sql2_read_attr`. Only `sql_read_attr` drops a value that is the name of the
column. -/
def readAttr (sql : Sql) (tab : TabPrefix) (layout : Layout) (database : Database) (uid : UInt32)
    (key : Text) : Option Text := do
  let (table, col) ← dbGetTab layout key
  let query := snprintf (selectQuery layout (tab.name ++ table) (shownColumn sql layout col) uid)
  let rows ← queryRes sql database query
  let field ← onlyValue rows
  match layout with
  | .sql => if field = col then none else some field
  | .sql2 => some field

/-- `sql->query(query) || !sql->affected_rows()` -/
def missed (answer : Database × Int × Nat) : Bool := answer.2.1 ≠ 0 || answer.2.2 = 0

/-- The statements of `sql_write_attrs` for one attribute; `false` leaves it dirty. -/
def sqlSave (sql : Sql) (database : Database) (table col escape : Text) (uid : UInt32) :
    Database × Bool :=
  let update := snprintf (updateQuery .sql table col escape uid)
  let first := submit sql database update
  if missed first then
    let altered := submit sql first.1 (snprintf (alterQuery table col))
    let second := submit sql altered.1 update
    if missed second then
      let inserted := submit sql second.1 (snprintf (insertQuery .sql table col escape uid))
      (inserted.1, inserted.2.1 = 0)
    else (second.1, true)
  else (first.1, true)

/-- The statements of `sql2_write_attrs` for one attribute; `false` leaves it dirty. -/
def sql2Save (sql : Sql) (database : Database) (table esckey escval : Text) (uid : UInt32) :
    Database × Bool :=
  let first := submit sql database (snprintf (updateQuery .sql2 table esckey escval uid))
  if missed first then
    let inserted := submit sql first.1 (snprintf (insertQuery .sql2 table esckey escval uid))
    (inserted.1, !missed inserted)
  else (first.1, true)

def save (layout : Layout) : Sql → Database → Text → Text → Text → UInt32 → Database × Bool :=
  match layout with
  | .sql => sqlSave
  | .sql2 => sql2Save

structure Attr where
  key : Option Text
  val : Option Text
  dirty : Bool

/-- One round of the loop of `sql_write_attrs` and `sql2_write_attrs`. -/
def writeAttr (sql : Sql) (tab : TabPrefix) (layout : Layout) (uid : UInt32) (database : Database)
    (attr : Attr) : Database × Attr :=
  if !attr.dirty then (database, attr)
  else
    match attr.key, attr.val with
    | some key, some val =>
      match dbGetTab layout key with
      | none => (database, attr)
      | some (table, col) =>
        let saved := save layout sql database (tab.name ++ table) (shownColumn sql layout col)
          (sql.escape (safeval layout val)) uid
        (saved.1, { attr with dirty := !saved.2 })
    | _, _ => (database, attr)

def writeAttrs (sql : Sql) (tab : TabPrefix) (layout : Layout) (uid : UInt32) :
    Database → List Attr → Database × List Attr
  | database, [] => (database, [])
  | database, attr :: rest =>
    let first := writeAttr sql tab layout uid database attr
    let later := writeAttrs sql tab layout uid first.1 rest
    (later.1, first.2 :: later.2)

end Pvpgn.SqlAttrs
