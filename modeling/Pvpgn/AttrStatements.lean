import Pvpgn.SqlAttrs

/-!
What the statements about attributes mean to the engine, and what a write leaves in the table of an
attribute: its own value, and all others as they were.
-/

namespace Pvpgn.AttrStatements
open Stdio TextUtil SqlText SqlEngine SqlAttrs List Option Function
open SqlClans (TabPrefix)

def valueColumn : Layout → Text → Text
  | .sql, col => col
  | .sql2, _ => text "value"

def attributeRow (layout : Layout) (uid : UInt32) (col : Text) : List Condition :=
  match layout with
  | .sql => [.equals (text "uid") (unsigned uid.toNat)]
  | .sql2 => [.equals (text "uid") (unsigned uid.toNat), .equals (text "name") col]

def rowColumns : Layout → Text → List Text
  | .sql, col => [text "uid", col]
  | .sql2, _ => [text "uid", text "name", text "value"]

def rowValues (layout : Layout) (uid : UInt32) (col value : Text) : List Text :=
  match layout with
  | .sql => [unsigned uid.toNat, value]
  | .sql2 => [unsigned uid.toNat, col, value]

/-- A table and a column that the engine can read; the name of an attribute of `sql2` stands in a
literal. -/
structure Readable (layout : Layout) (table col : Text) : Prop where
  named : table ≠ []
  word : ∀ byte ∈ table, isWord byte = true
  column : layout = .sql → col ≠ [] ∧ ∀ byte ∈ col, isWord byte = true
  nulFree : 0 ∉ col

section Tokens
variable {sql : Sql} {layout : Layout} {table col escape value : Text} {uid : UInt32}

variable (number : Nat)

theorem Readable.scan_table (readable : Readable layout table col) :
    scan sql.backslashes .outside table = (.word table, []) :=
  scan_outside _ readable.named readable.word

section
variable (readable : Readable layout table col)
  (escaped : scan sql.backslashes (.literal []) escape = (.literal value, []))
include readable escaped

end

end Tokens

/-- What a reading finds of an attribute in its table. -/
def cell (layout : Layout) (found : Table) (uid : UInt32) (col : Text) : Option Text :=
  onlyValue ((found.rows.filter (matching (attributeRow layout uid col))).map fun row =>
    [row (fold (valueColumn layout col))])

def keyColumns : Layout → List Text
  | .sql => [text "uid"]
  | .sql2 => [text "uid", text "name", text "value"]

structure Keyed (layout : Layout) (found : Table) : Prop where
  columns : ∀ column ∈ keyColumns layout, found.knows column = true
  unique : ∀ uid col, (found.rows.filter (matching (attributeRow layout uid col))).length ≤ 1
  bare : ∀ row ∈ found.rows, ∀ column, found.knows column = false → row (fold column) = none

def Proper (layout : Layout) (col : Text) : Prop := layout = .sql → fold col ≠ text "uid"

def SameCell (layout : Layout) (uid : UInt32) (col : Text) (uid' : UInt32) (col' : Text) : Prop :=
  uid' = uid ∧ (layout = .sql → fold col' = fold col) ∧ (layout = .sql2 → col' = col)

structure Written (layout : Layout) (before after : Table) (uid : UInt32) (col value : Text) :
    Prop where
  keyed : Keyed layout after
  own : ∀ col', SameCell layout uid col uid col' → cell layout after uid col' = some value
  others : ∀ uid' col', Proper layout col' → ¬ SameCell layout uid col uid' col' →
    cell layout after uid' col' = cell layout before uid' col'

section Tables
variable {layout : Layout} {found : Table} {uid uid' : UInt32} {col col' value : Text} {row : Row}

def changed (layout : Layout) (uid : UInt32) (col value : Text) (row : Row) : Row :=
  if matching (attributeRow layout uid col) row then assign row [(valueColumn layout col, value)]
  else row

def newRow (layout : Layout) (uid : UInt32) (col value : Text) : Row :=
  assign (fun _ => none) ((rowColumns layout col).zip (rowValues layout uid col value))

end Tables

def Fits (layout : Layout) (table col escape : Text) (uid : UInt32) : Prop :=
  (updateQuery layout table col escape uid).length < querySize ∧
    (insertQuery layout table col escape uid).length < querySize

section Saving
variable {sql : Sql} {layout : Layout} {database : Database} {table col escape value : Text}
  {uid : UInt32} {found : Table}

variable (done : Database) {query : Text}

theorem snprintf_short (fits : query.length < querySize) : snprintf query = query :=
  take_of_length_le (Nat.le_pred_of_lt fits)

variable (readable : Readable .sql table col) (fits : Fits .sql table col escape uid)
  (short : (alterQuery table col).length < querySize)
  (escaped : SqlText.scan sql.backslashes (.literal []) escape = (.literal value, []))
  (proper : Proper .sql col) (keyed : Keyed .sql found)
  (there : database (fold table) = some found)
include readable fits short escaped proper keyed there

end Saving

end Pvpgn.AttrStatements
