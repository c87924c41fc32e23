import QueryPipeline.Fault

/-!
# Schemas

The ordered columns that are valid at one point of a pipeline. No two columns of a schema have the
same name: the lists that would break this are refused when a schema is made of them.

* `Schema.ofColumns` makes a schema of a list of columns and refuses the first repeated name;
* `has`, `find?` and `get` look a column up;
* `project`, `append` and `rename` make new schemas; each goes through `ofColumns`.
-/

namespace QueryPipeline

/-! ## 1. Columns -/

/-- A named column with its type. -/
structure Column where
  name : String
  type : ColumnType
  deriving DecidableEq, Repr

/-- The names of a list of columns. -/
def columnNames (columns : List Column) : List String := columns.map Column.name

/-- The first name that occurs among the earlier ones. -/
def firstRepeated? : List String → List String → Option String
  | _, [] => none
  | earlier, n :: rest => if n ∈ earlier then some n else firstRepeated? (n :: earlier) rest

/-! ## 2. Schemas -/

/-- An ordered list of columns with distinct names. -/
structure Schema where
  columns : List Column
  distinct : (columnNames columns).Nodup
  deriving DecidableEq, Repr

namespace Schema

/-- The schema without columns. -/
def empty : Schema := ⟨[], by simp [columnNames]⟩

/-- The schema with the given columns; a repeated name is refused. -/
def ofColumns (columns : List Column) : Outcome Schema :=
  if h : (columnNames columns).Nodup then .ok ⟨columns, h⟩
  else refuse (.duplicateColumn ((firstRepeated? [] (columnNames columns)).getD ""))

/-- The names of the columns, in order. -/
def names (s : Schema) : List String := columnNames s.columns

/-- Whether a column has the given name. -/
def has (s : Schema) (name : String) : Bool := s.names.contains name

/-- The column with the given name. -/
def find? (s : Schema) (name : String) : Option Column :=
  s.columns.find? fun c => c.name == name

/-- The column with the given name; an unknown name is refused. -/
def get (s : Schema) (name : String) : Outcome Column :=
  match s.find? name with
  | some c => .ok c
  | none => refuse (.unknownColumn name)

/-- Looks several names up, from left to right. -/
def getAll (s : Schema) : List String → Outcome (List Column)
  | [] => .ok []
  | n :: rest => do
    let c ← s.get n
    let cs ← s.getAll rest
    return c :: cs

/-! ## 3. New schemas -/

/-- Keeps the given columns, in the given order. -/
def project (s : Schema) (names : List String) : Outcome Schema := do
  ofColumns (← s.getAll names)

/-- Puts columns after the ones of the schema. -/
def append (s : Schema) (columns : List Column) : Outcome Schema :=
  ofColumns (s.columns ++ columns)

/-- The target of a name among source and target pairs; the last pair of a source counts. -/
def renameTarget? (name : String) : List (String × String) → Option String
  | [] => none
  | (source, target) :: rest =>
    match renameTarget? name rest with
    | some t => some t
    | none => if source = name then some target else none

/-- The name that a column has after renaming. -/
def renamed (pairs : List (String × String)) (name : String) : String :=
  (renameTarget? name pairs).getD name

/-- Renames columns in place, all pairs at once. -/
def rename (s : Schema) (pairs : List (String × String)) : Outcome Schema :=
  ofColumns (s.columns.map fun c => { c with name := renamed pairs c.name })

/-! ## 4. Small facts -/

theorem ext {s t : Schema} (h : s.columns = t.columns) : s = t := by
  cases s; cases t; cases h; rfl

theorem has_iff {s : Schema} {name : String} : s.has name = true ↔ name ∈ s.names := by
  simp [has]

theorem ofColumns_columns (s : Schema) : ofColumns s.columns = .ok s := by
  simp [ofColumns, s.distinct]

end Schema

theorem firstRepeated?_eq_none_iff {earlier names : List String} :
    firstRepeated? earlier names = none ↔ names.Nodup ∧ ∀ n ∈ names, n ∉ earlier := by
  induction names generalizing earlier with
  | nil => simp [firstRepeated?]
  | cons n rest ih =>
    by_cases h : n ∈ earlier
    · simp [firstRepeated?, h]
    · simp only [firstRepeated?, h, if_false, ih, List.nodup_cons, List.mem_cons]
      grind

end QueryPipeline
