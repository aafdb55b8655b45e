import Pvpgn.SqlText

/-!
A small SQL engine: the statements that the storage submits, read from their tokens, and what they
do to tables of texts. The names of tables and columns are compared without case.
-/

namespace Pvpgn.SqlEngine
open Stdio SqlText Option List Function

def openSign : UInt8 := 40
def closeSign : UInt8 := 41
def starSign : UInt8 := 42
def equalsSign : UInt8 := 61
def greaterSign : UInt8 := 62

inductive Condition where
  | equals (column value : Text)
  /-- `column > 0` -/
  | positive (column : Text)
  deriving DecidableEq

inductive Statement where
  | select (columns : List Text) (table : Text) (conditions : List Condition)
  | count (table : Text) (conditions : List Condition)
  | insert (table : Text) (columns values : List Text)
  | update (table : Text) (assignments : List (Text × Text)) (conditions : List Condition)
  | addColumn (table column : Text)
  deriving DecidableEq

section Rendering

def separated (tokens : List Token) : List Token := tokens.intersperse (.sign commaSign)

def renderCondition : Condition → List Token
  | .equals column value => [.word column, .sign equalsSign, .literal value]
  | .positive column => [.word column, .sign greaterSign, .word (text "0")]

def renderConditions : List Condition → List Token
  | [] => []
  | conditions =>
    .word (text "WHERE") ::
      ((conditions.map renderCondition).intersperse [.word (text "AND")]).flatten

def render : Statement → List Token
  | .select columns table conditions =>
    .word (text "SELECT") :: separated (columns.map .word) ++
      .word (text "FROM") :: .word table :: renderConditions conditions
  | .count table conditions =>
    .word (text "SELECT") :: .word (text "count") :: .sign openSign :: .sign starSign ::
      .sign closeSign :: .word (text "FROM") :: .word table :: renderConditions conditions
  | .insert table columns values =>
    .word (text "INSERT") :: .word (text "INTO") :: .word table :: .sign openSign ::
      separated (columns.map .word) ++ .sign closeSign :: .word (text "VALUES") ::
      .sign openSign :: separated (values.map .literal) ++ [.sign closeSign]
  | .update table assignments conditions =>
    .word (text "UPDATE") :: .word table :: .word (text "SET") ::
      ((assignments.map fun assignment => [.word assignment.1, .sign equalsSign,
        .literal assignment.2]).intersperse [.sign commaSign]).flatten ++
      renderConditions conditions
  | .addColumn table column =>
    [.word (text "ALTER"), .word (text "TABLE"), .word table, .word (text "ADD"),
      .word (text "COLUMN"), .word column, .word (text "VARCHAR"), .sign openSign,
      .word (text "128"), .sign closeSign]

end Rendering

section Parsing

def keyword (name : String) : List Token → Option (List Token)
  | .word found :: rest => if sameCaseless found (text name) then some rest else none
  | _ => none

def sign (byte : UInt8) : List Token → Option (List Token)
  | .sign found :: rest => if found = byte then some rest else none
  | _ => none

def word : List Token → Option (Text × List Token)
  | .word name :: rest => some (name, rest)
  | _ => none

def value : List Token → Option (Text × List Token)
  | .word name :: rest => some (name, rest)
  | .literal value :: rest => some (value, rest)
  | _ => none

def words : List Token → Option (List Text × List Token)
  | .word name :: .sign byte :: rest =>
    if byte = commaSign then (words rest).map fun found => (name :: found.1, found.2)
    else some ([name], .sign byte :: rest)
  | .word name :: rest => some ([name], rest)
  | _ => none

def literals : List Token → Option (List Text × List Token)
  | .literal value :: .sign byte :: rest =>
    if byte = commaSign then (literals rest).map fun found => (value :: found.1, found.2)
    else some ([value], .sign byte :: rest)
  | .literal value :: rest => some ([value], rest)
  | _ => none

def assignments : List Token → Option (List (Text × Text) × List Token)
  | .word column :: .sign equals :: .literal value :: .sign byte :: rest =>
    if equals = equalsSign ∧ byte = commaSign then
      (assignments rest).map fun found => ((column, value) :: found.1, found.2)
    else none
  | .word column :: .sign equals :: .literal value :: rest =>
    if equals = equalsSign then some ([(column, value)], rest) else none
  | _ => none

def condition (tokens : List Token) : Option (Condition × List Token) := do
  let (column, tokens) ← word tokens
  match sign equalsSign tokens with
  | some tokens => do
    let (found, tokens) ← value tokens
    some (.equals column found, tokens)
  | none => do
    let tokens ← sign greaterSign tokens
    let tokens ← keyword "0" tokens
    some (.positive column, tokens)

def conditions (tokens : List Token) : Option (List Condition) :=
  if tokens = [] then some []
  else do
    let tokens ← keyword "WHERE" tokens
    let (first, tokens) ← condition tokens
    if tokens = [] then some [first]
    else do
      let tokens ← keyword "AND" tokens
      let (second, tokens) ← condition tokens
      if tokens = [] then some [first, second] else none

def parseSelect (tokens : List Token) : Option Statement := do
  let tokens ← keyword "SELECT" tokens
  match (keyword "count" tokens).bind (sign openSign) with
  | some tokens => do
    let tokens ← sign starSign tokens
    let tokens ← sign closeSign tokens
    let tokens ← keyword "FROM" tokens
    let (table, tokens) ← word tokens
    let conditions ← conditions tokens
    some (.count table conditions)
  | none => do
    let (columns, tokens) ← words tokens
    let tokens ← keyword "FROM" tokens
    let (table, tokens) ← word tokens
    let conditions ← conditions tokens
    some (.select columns table conditions)

def parseInsert (tokens : List Token) : Option Statement := do
  let tokens ← keyword "INSERT" tokens
  let tokens ← keyword "INTO" tokens
  let (table, tokens) ← word tokens
  let tokens ← sign openSign tokens
  let (columns, tokens) ← words tokens
  let tokens ← sign closeSign tokens
  let tokens ← keyword "VALUES" tokens
  let tokens ← sign openSign tokens
  let (values, tokens) ← literals tokens
  let tokens ← sign closeSign tokens
  if tokens = [] then some (.insert table columns values) else none

def parseUpdate (tokens : List Token) : Option Statement := do
  let tokens ← keyword "UPDATE" tokens
  let (table, tokens) ← word tokens
  let tokens ← keyword "SET" tokens
  let (assigned, tokens) ← assignments tokens
  let conditions ← conditions tokens
  some (.update table assigned conditions)

def parseAlter (tokens : List Token) : Option Statement := do
  let tokens ← keyword "ALTER" tokens
  let tokens ← keyword "TABLE" tokens
  let (table, tokens) ← word tokens
  let tokens ← keyword "ADD" tokens
  let tokens ← keyword "COLUMN" tokens
  let (column, tokens) ← word tokens
  let tokens ← keyword "VARCHAR" tokens
  let tokens ← sign openSign tokens
  let (_, tokens) ← word tokens
  let tokens ← sign closeSign tokens
  if tokens = [] then some (.addColumn table column) else none

def parse (tokens : List Token) : Option Statement :=
  (parseSelect tokens).or ((parseInsert tokens).or ((parseUpdate tokens).or (parseAlter tokens)))

end Parsing

/-- What a text means to the engine: the one statement that it is, if it is one. -/
def statement (backslashes : Bool) (query : Text) : Option Statement :=
  (tokens backslashes query).bind parse

abbrev Row := Text → Option Text

structure Table where
  columns : List Text
  rows : List Row

abbrev Database := Text → Option Table

def fold (name : Text) : Text := name.map tolower

def Table.knows (table : Table) (column : Text) : Bool := table.columns.contains (fold column)

def conditionColumn : Condition → Text
  | .equals column _ => column
  | .positive column => column

def numeral (field : Text) : Int := ((integer 10 field).map Prod.fst).getD 0

def holds (row : Row) : Condition → Bool
  | .equals column value => row (fold column) = some value
  | .positive column => (row (fold column)).any fun field => 0 < numeral field

def matching (conditions : List Condition) (row : Row) : Bool := conditions.all (holds row)

def assign (row : Row) (assignments : List (Text × Text)) : Row :=
  assignments.foldl (fun row assignment =>
    update row (fold assignment.1) (some assignment.2)) row

/-- The rows of the result, and the number of rows that were matched or added. -/
structure Result where
  rows : List (List (Option Text))
  affected : Nat

def Table.added (table : Table) (row : Row) : Table := { table with rows := table.rows ++ [row] }

def Table.updated (table : Table) (assignments : List (Text × Text))
    (conditions : List Condition) : Table :=
  { table with rows := table.rows.map fun row =>
      if matching conditions row then assign row assignments else row }

def Table.widened (table : Table) (column : Text) : Table :=
  { table with columns := fold column :: table.columns }

/-- `none` is an error. -/
def execute (database : Database) : Statement → Option (Database × Result)
  | .select columns table conditions => do
    let found ← database (fold table)
    if columns.all found.knows && (conditions.map conditionColumn).all found.knows then
      some (database, ⟨(found.rows.filter (matching conditions)).map fun row =>
        columns.map fun column => row (fold column), 0⟩)
    else none
  | .count table conditions => do
    let found ← database (fold table)
    if (conditions.map conditionColumn).all found.knows then
      some (database, ⟨[[some (unsigned (found.rows.filter (matching conditions)).length)]], 0⟩)
    else none
  | .insert table columns values => do
    let found ← database (fold table)
    if columns.all found.knows && columns.length = values.length then
      some (update database (fold table)
        (some (found.added (assign (fun _ => none) (columns.zip values)))), ⟨[], 1⟩)
    else none
  | .update table assignments conditions => do
    let found ← database (fold table)
    if (assignments.map Prod.fst).all found.knows &&
        (conditions.map conditionColumn).all found.knows then
      some (update database (fold table)
        (some (found.updated assignments conditions)),
        ⟨[], (found.rows.filter (matching conditions)).length⟩)
    else none
  | .addColumn table column => do
    let found ← database (fold table)
    if found.knows column then none
    else
      some (update database (fold table) (some (found.widened column)), ⟨[], 0⟩)

/-- An engine: its dialect, and its function that escapes a string. -/
structure Sql where
  backslashes : Bool
  escape : Text → Text
  escapes : Escapes backslashes escape

def run (sql : Sql) (database : Database) (query : Text) : Option (Database × Result) :=
  (statement sql.backslashes query).bind (execute database)

/-- `query_res` -/
def queryRes (sql : Sql) (database : Database) (query : Text) :
    Option (List (List (Option Text))) :=
  (run sql database query).map fun answer => answer.2.rows

/-- `query`, and what `affected_rows` says of it. -/
def submit (sql : Sql) (database : Database) (query : Text) : Database × Int × Nat :=
  match run sql database query with
  | some (after, result) => (after, 0, result.affected)
  | none => (database, -1, 0)

/-- Standard SQL: a quote is doubled. -/
def quoted (field : Text) : Text :=
  field.flatMap fun byte => if byte = apostrophe then [apostrophe, apostrophe] else [byte]

theorem quoted_denotes (value field : Text) :
    SqlText.scan false (.literal value) (quoted field) = (.literal (value ++ field), []) := by
  induction field generalizing value with
  | nil => simp [quoted]
  | cons byte rest ih =>
    rw [quoted, flatMap_cons, SqlText.scan_append]
    by_cases quote : byte = apostrophe
    · subst quote
      have later := ih (value ++ [apostrophe])
      rw [quoted, append_assoc] at later
      exact later.trans rfl
    · have plain : Literal false byte := ⟨quote, fun never => absurd never (by decide)⟩
      have later := ih (value ++ [byte])
      rw [quoted, append_assoc] at later
      rw [if_neg quote, SqlText.scan_literal value [byte] (by simpa using plain)]
      exact later.trans rfl

theorem quoted_length (field : Text) : (quoted field).length ≤ 2 * field.length := by
  induction field with
  | nil => exact Nat.le_refl 0
  | cons byte rest ih =>
    have own : (if byte = apostrophe then [apostrophe, apostrophe] else [byte]).length ≤ 2 := by
      split
      · exact Nat.le_refl 2
      · exact Nat.le_succ 1
    rw [quoted, flatMap_cons, length_append, length_cons]
    rw [quoted] at ih
    omega

def standardSql : Sql where
  backslashes := false
  escape := quoted
  escapes := ⟨fun value field _ => quoted_denotes value field, quoted_length⟩

section Execution
variable {database : Database} {table : Text} {found : Table} {conditions : List Condition}
  {columns values : List Text} {assigned : List (Text × Text)}

section
variable (there : database (fold table) = some found)
include there

theorem execute_count
    (known : ∀ condition ∈ conditions, found.knows (conditionColumn condition) = true) :
    execute database (.count table conditions) = some (database,
      ⟨[[some (unsigned (found.rows.filter (matching conditions)).length)]], 0⟩) := by
  simpa [execute, there] using known

theorem execute_select (selected : ∀ column ∈ columns, found.knows column = true)
    (known : ∀ condition ∈ conditions, found.knows (conditionColumn condition) = true) :
    execute database (.select columns table conditions) = some (database,
      ⟨(found.rows.filter (matching conditions)).map fun row =>
        columns.map fun column => row (fold column), 0⟩) := by
  simpa [execute, there] using And.intro selected known

theorem execute_insert (known : ∀ column ∈ columns, found.knows column = true)
    (paired : columns.length = values.length) :
    execute database (.insert table columns values) =
      some (update database (fold table)
        (some (found.added (assign (fun _ => none) (columns.zip values)))), ⟨[], 1⟩) := by
  simpa [execute, there, paired] using known

theorem execute_update (known : ∀ assignment ∈ assigned, found.knows assignment.1 = true)
    (conditioned : ∀ condition ∈ conditions, found.knows (conditionColumn condition) = true) :
    execute database (.update table assigned conditions) =
      some (update database (fold table) (some (found.updated assigned conditions)),
        ⟨[], (found.rows.filter (matching conditions)).length⟩) := by
  simpa [execute, there] using And.intro (fun column value => known (column, value)) conditioned

end

end Execution

variable {after : Database} {meant : Statement} {query : Text} {result : Result}

section
variable (sql : Sql) {database : Database} (read : statement sql.backslashes query = some meant)
  (done : execute database meant = some (after, result))
include sql read done

theorem query_res_executed :
    queryRes sql database query = some result.rows := by
  rw [queryRes, run, read, bind_some, done, map_some]

theorem submit_executed :
    submit sql database query = (after, 0, result.affected) := by
  rw [submit, run, read, bind_some, done]

end

theorem numeral_unsigned (value : Nat) : numeral (unsigned value) = value := by
  have read := integer_digits 10 value [] (Or.inr rfl) separated_nil
  rw [append_nil] at read
  rw [numeral, unsigned, read]
  rfl

end Pvpgn.SqlEngine
