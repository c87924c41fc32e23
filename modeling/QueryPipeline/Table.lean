import QueryPipeline.Record
import QueryPipeline.Schema

/-!
# Tables and databases

Tables are declared in two ways, from column declarations (`Table.declare`) and from names of
types in any mixture of cases (`Table.register`), and databases from records of tables.

* the names of database, table and columns must be identifiers, each column must have a known
  type and no name may occur twice;
* a table shows its columns twice: in order, and as a record by name. A record that is made of its
  entries has one for each column. One that is filled by assignment has none under `reservedKey`:
  such a column becomes what the record inherits from, so that the names of its own fields
  (`columnFields`) cannot be assigned any more, and a declaration breaks off there.
-/

namespace QueryPipeline

/-! ## 1. Tables -/

/-- The place of a table: its database and its name. -/
structure TableName where
  database : String
  table : String
  deriving DecidableEq, Repr

/-- Database and table with a point between them. -/
def TableName.text (n : TableName) : String := n.database ++ "." ++ n.table

/-- A table with its columns in order and as a record. -/
structure Table where
  name : TableName
  columns : List Column
  record : List (String × Column)
  deriving DecidableEq, Repr

/-- A column as its table shows it: with the name of the table that it belongs to. -/
structure ColumnDefinition where
  name : String
  type : ColumnType
  table : String
  deriving DecidableEq, Repr

namespace Table

/-- A column as the table shows it. -/
def definition (t : Table) (c : Column) : ColumnDefinition := ⟨c.name, c.type, t.name.table⟩

/-- The columns that a table shows, in order. -/
def columnList (t : Table) : List ColumnDefinition := t.columns.map t.definition

/-- The columns that a table shows by name. -/
def columnRecord (t : Table) : List (String × ColumnDefinition) :=
  t.record.map fun e => (e.1, t.definition e.2)

end Table

/-- The schema of a table. -/
def Table.schema (t : Table) : Outcome Schema := Schema.ofColumns t.columns

/-- The record of columns made of its entries. -/
def recordOfEntries (columns : List Column) : List (String × Column) :=
  columns.map fun c => (c.name, c)

/-- The names of the fields of a column, which is frozen. -/
def columnFields : List String := ["name", "type", "table"]

/-- Fills a record of columns by assignments, one after the other, given whether the record inherits
    from a column already. A column under the reserved key is inherited from and makes no entry;
    from then on the fields of a column cannot be assigned. -/
def assignColumns (inherits : Bool) : List Column → Outcome (List (String × Column))
  | [] => .ok []
  | c :: rest =>
    if c.name = reservedKey then assignColumns true rest
    else if inherits && columnFields.contains c.name then .error (.unassignable c.name)
    else do
      let more ← assignColumns inherits rest
      return (c.name, c) :: more

/-- The record of columns filled by assignments. -/
def recordByAssignment (columns : List Column) : Outcome (List (String × Column)) :=
  assignColumns false columns

/-! ## 2. Declarations -/

/-- Checks one column after the other: its name, that it is new, and its type. -/
def checkColumns (table : TableName) : List String → List (String × String) → Outcome (List Column)
  | _, [] => .ok []
  | earlier, (name, typeName) :: rest => do
    let name ← requireIdentifier (.text name) "Column"
    if name ∈ earlier then refuse (.invalidValue name (.declaredTwice table.text))
    match ColumnType.ofName? typeName with
    | none => refuse (.invalidValue typeName (.unknownColumnType name))
    | some type =>
      let more ← checkColumns table (name :: earlier) rest
      return ⟨name, type⟩ :: more

/-- Checks the names of a database and of a table. -/
def checkTableName (database table : RawName) : Outcome TableName := do
  let database ← requireIdentifier database "Database"
  let table ← requireIdentifier table "Table"
  return ⟨database, table⟩

/-- A table declared by a record of column names and names of types. -/
def Table.declare (database table : RawName) (columns : List (String × String)) :
    Outcome Table := do
  let name ← checkTableName database table
  let columns ← checkColumns name [] (Record.enumerate columns)
  let record ← recordByAssignment columns
  return ⟨name, columns, record⟩

/-! ## 3. Registrations -/

/-- The columns of a registration: a list in column order, or a record. -/
inductive Registration
  | entries (columns : List (String × String))
  | record (columns : List (String × String))
  deriving DecidableEq, Repr

/-- The columns in order. -/
def Registration.columns : Registration → List (String × String)
  | entries columns => columns
  | record columns => Record.enumerate columns

/-- Reads the names of types in any mixture of cases, before anything else is checked. -/
def readTypes : List (String × String) → Outcome (List (String × String))
  | [] => .ok []
  | (name, typeName) :: rest =>
    match ColumnType.ofNameAnyCase? typeName with
    | none => refuse (.invalidValue typeName (.unknownColumnType name))
    | some type => do
      let more ← readTypes rest
      return (name, type.name) :: more

/-- A table registered from outside. -/
def Table.register (database table : RawName) (columns : Registration) : Outcome Table := do
  let name ← checkTableName database table
  let typed ← readTypes columns.columns
  let columns ← checkColumns name [] typed
  return ⟨name, columns, recordOfEntries columns⟩

/-! ## 4. Databases -/

/-- A named group of tables. -/
structure Database where
  name : RawName
  tables : List Table
  deriving DecidableEq, Repr

namespace Database

/-- Declares one table after the other. -/
def declareTables (name : RawName) :
    List (String × List (String × String)) → Outcome (List Table)
  | [] => .ok []
  | (table, columns) :: rest => do
    let t ← Table.declare name (.text table) columns
    let more ← declareTables name rest
    return t :: more

/-- A database declared by a record of tables. Its name is checked with each table. -/
def declare (name : RawName) (tables : List (String × List (String × String))) :
    Outcome Database := do
  let tables ← declareTables name (Record.enumerate tables)
  return ⟨name, tables⟩

/-- The table with the given name; an unknown name is refused. -/
def table (d : Database) (name : String) : Outcome Table :=
  match d.tables.find? fun t => t.name.table == name with
  | some t => .ok t
  | none => refuse (.invalidValue name (.undefinedTable d.name.shown))

end Database
end QueryPipeline
