import Pvpgn.AttrStatements

/-!
The writing of a list of attributes. A value comes back if and only if it is short enough, and in
the layout of `storage_sql` has no apostrophe and is not the name of its own column.
-/

namespace Pvpgn.AttrRuns
open Stdio TextUtil SqlText SqlEngine SqlAttrs AttrStatements List Option Function
open SqlClans (TabPrefix)

structure Named (layout : Layout) (tab : TabPrefix) (key table col : Text) : Prop where
  split : dbGetTab layout key = some (table, col)
  readable : Readable layout (tab.name ++ table) col
  proper : Proper layout col

def readBack (layout : Layout) (col field : Text) : Option Text :=
  match layout with
  | .sql => if field = col then none else some field
  | .sql2 => some field

section Keys
variable {sql : Sql} {tab : TabPrefix} {layout : Layout} {database : Database} {uid uid' : UInt32}
  {key key' table table' col col' : Text} {found : Table}

end Keys

def pending (attr : Attr) : Option (Text × Text) :=
  if attr.dirty then attr.key.bind fun key => attr.val.map fun val => (key, val) else none

/-- An attribute that a statement can hold: its key names a column or a row, neither the key nor a
statement is cut, and its table has its unique index. -/
structure Sound (sql : Sql) (tab : TabPrefix) (layout : Layout) (uid : UInt32)
    (database : Database) (key val : Text) : Prop where
  nulFree : 0 ∉ val
  named : ∀ table col, dbGetTab layout key = some (table, col) → Named layout tab key table col
  uncut : ∀ table col, dbGetTab layout key = some (table, col) → col.length < columnSize layout - 1
  fits : ∀ table col, dbGetTab layout key = some (table, col) →
    Fits layout (tab.name ++ table) (shownColumn sql layout col)
      (sql.escape (safeval layout val)) uid
  keyed : ∀ table col, dbGetTab layout key = some (table, col) → ∀ found,
    database (fold (tab.name ++ table)) = some found → Keyed layout found

def Kept : Layout → Text → Text → Prop
  | .sql, col, val => val.length < dbMaxAttrval ∧ apostrophe ∉ val ∧ val ≠ col
  | .sql2, _, val => val.length < dbMaxAttrval

def Storable (tab : TabPrefix) (layout : Layout) (database : Database) (attr : Attr) : Prop :=
  ∀ key val, pending attr = some (key, val) → ∀ table col,
    dbGetTab layout key = some (table, col) → database (fold (tab.name ++ table)) ≠ none →
      Kept layout col val

def Apart (uid : UInt32) (attrs : List Attr) (uid' : UInt32) (key' : Text) : Prop :=
  ∀ attr ∈ attrs, ∀ key val, pending attr = some (key, val) → ¬ (uid' = uid ∧ fold key' = fold key)

section Writing
variable {sql : Sql} {tab : TabPrefix} {layout : Layout} {database : Database} {uid uid' : UInt32}
  {key key' table table' col col' val : Text} {found : Table} {attr : Attr}

theorem requoted_iff (field : Text) :
    (field.map fun byte => if byte = apostrophe then quotationMark else byte) = field ↔
      apostrophe ∉ field := by
  induction field with
  | nil => simp
  | cons byte rest ih =>
    rw [map_cons, cons.injEq, ih, mem_cons, not_or]
    apply and_congr_left'
    split
    · next same => simp [same, quotationMark, apostrophe]
    · next other => simp [Ne.symm other]

theorem read_back_iff :
    readBack layout col (safeval layout val) = some val ↔ Kept layout col val := by
  have whole : val.take (dbMaxAttrval - 1) = val ↔ val.length < dbMaxAttrval := by
    rw [take_eq_self_iff, dbMaxAttrval]
    omega
  cases layout with
  | sql2 => rw [readBack, safeval, some_inj, whole, Kept]
  | sql =>
    have copied : safeval .sql val = val ↔ val.length < dbMaxAttrval ∧ apostrophe ∉ val := by
      rw [← whole, ← requoted_iff val]
      constructor
      · intro same
        have lengths := congrArg length same
        rw [safeval, length_map] at lengths
        have all : val.take (dbMaxAttrval - 1) = val := by
          rw [length_take] at lengths
          rw [take_eq_self_iff]
          omega
        rw [safeval, all] at same
        exact ⟨all, same⟩
      · rintro ⟨all, same⟩
        rw [safeval, all]
        exact same
    rw [readBack, Kept, ← and_assoc, ← copied]
    constructor
    · intro read
      split at read
      · cases read
      · next other =>
          have same := some.inj read
          exact ⟨same, same ▸ other⟩
    · rintro ⟨same, other⟩
      rw [same, if_neg other]

variable {middle after : Database} {rest : List Attr}

section
variable (named : Named layout tab key table col)
  (sound : Sound sql tab layout uid database key val)
include named sound

end

end Writing

end Pvpgn.AttrRuns
