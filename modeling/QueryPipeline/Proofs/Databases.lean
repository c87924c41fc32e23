import QueryPipeline.Proofs.Declarations

/-!
# Databases

A database is declared by a record of tables, each of which is a record of columns. It is made of
the tables that these declare, in the order of the record, and finds each of them by its name.

* `Table.declare_cases`: a table whose names are not identifiers or whose columns have no types is
  refused for a value, and the declaration of one that is described as it must be breaks off only on
  a column that obstructs the record of columns;
* `Database.exists_declare_iff`: so a database is declared iff all of its tables are. Its own name
  is checked with each of them, and where there is none it is not checked at all;
* `Database.declare_error`: it fails as the first table that fails;
* `Database.table_eq_ok` and `table_eq_refuse`: a name finds the table that has it, or is refused;
* **`database_declared`** puts this together.
-/

namespace QueryPipeline

/-! ## 1. Tables that can be declared -/

/-- A text that is an identifier. -/
def RawName.IsIdentifier (name : RawName) : Prop :=
  ∃ text, name = .text text ∧ isIdentifier text = true

/-- A record of columns that are named by identifiers and have types. -/
def Declarable (columns : List (String × String)) : Prop :=
  ∀ c ∈ Record.enumerate columns, isIdentifier c.1 = true ∧ ∃ type : ColumnType, c.2 = type.name

/-- The names of columns, in the order in which a record of them enumerates them. -/
def enumeratedNames (columns : List (String × String)) : List String :=
  (Record.enumerate columns).map Prod.fst

/-- Entries with the names of types are those of columns. -/
theorem exists_columns_of_entries {entries : List (String × String)}
    (h : ∀ c ∈ entries, ∃ type : ColumnType, c.2 = type.name) :
    ∃ columns : List Column, entries = columns.map fun c => (c.name, c.type.name) := by
  induction entries with
  | nil => exact ⟨[], rfl⟩
  | cons entry rest ih =>
    obtain ⟨name, typeName⟩ := entry
    obtain ⟨⟨type, rfl⟩, hrest⟩ := List.forall_mem_cons.mp h
    obtain ⟨columns, rfl⟩ := ih hrest
    exact ⟨⟨name, type⟩ :: columns, rfl⟩

/-- **Columns with distinct names pass iff they are named by identifiers and have types.** -/
theorem exists_checkColumns_iff {table : TableName} {entries : List (String × String)}
    (distinct : (entries.map Prod.fst).Nodup) :
    (∃ columns, checkColumns table [] entries = .ok columns) ↔
      ∀ c ∈ entries, isIdentifier c.1 = true ∧ ∃ type : ColumnType, c.2 = type.name := by
  have hnames (columns : List Column) :
      (columns.map fun c => (c.name, c.type.name)).map Prod.fst = columnNames columns := by
    rw [List.map_map]
    rfl
  constructor
  · intro h
    obtain ⟨columns, hcolumns⟩ := h
    obtain ⟨rfl, hidentifiers, _⟩ := checkColumns_eq_ok.mp hcolumns
    refine List.forall_mem_map.mpr fun c hc => ⟨?_, c.type, rfl⟩
    exact (hidentifiers c.name (List.mem_map_of_mem hc)).1
  · intro h
    obtain ⟨columns, rfl⟩ := exists_columns_of_entries fun c hc => (h c hc).2
    rw [hnames] at distinct
    refine ⟨columns, checkColumns_eq_ok.mpr ⟨rfl, fun n hn => ?_, distinct⟩⟩
    obtain ⟨c, hc, rfl⟩ := List.mem_map.mp hn
    exact ⟨(h _ (List.mem_map_of_mem hc)).1, List.not_mem_nil⟩

theorem exists_checkTableName_iff {database table : RawName} :
    (∃ n, checkTableName database table = .ok n) ↔
      database.IsIdentifier ∧ table.IsIdentifier := by
  simp only [checkTableName_eq_ok]
  constructor
  · intro h
    obtain ⟨n, hdatabase, htable⟩ := h
    exact ⟨⟨n.database, hdatabase⟩, n.table, htable⟩
  · intro h
    obtain ⟨⟨d, hdatabase⟩, t, htable⟩ := h
    exact ⟨⟨d, t⟩, hdatabase, htable⟩

namespace Table

/-- The names of a table and of its columns are identifiers, and the columns have types. -/
def Described (database table : RawName) (columns : List (String × String)) : Prop :=
  database.IsIdentifier ∧ table.IsIdentifier ∧ Declarable columns

/-- What the checks of a declaration pass are the enumerated columns. -/
theorem columnNames_of_checked {name : TableName} {columns : List (String × String)}
    {checked : List Column}
    (h : checkColumns name [] (Record.enumerate columns) = .ok checked) :
    columnNames checked = enumeratedNames columns := by
  rw [enumeratedNames, (checkColumns_eq_ok.mp h).1, List.map_map]
  rfl

/-- The checks of a declaration pass iff the table is described as it must be. -/
theorem described_iff {database table : RawName} {columns : List (String × String)} :
    Described database table columns ↔ ∃ name checked, checkTableName database table = .ok name ∧
      checkColumns name [] (Record.enumerate columns) = .ok checked := by
  have hcolumns (name : TableName) :
      (∃ checked, checkColumns name [] (Record.enumerate columns) = .ok checked) ↔
        Declarable columns := exists_checkColumns_iff (Record.nodup_enumerate columns)
  rw [Described, ← and_assoc, ← exists_checkTableName_iff]
  constructor
  · intro h
    obtain ⟨⟨name, hname⟩, hdeclarable⟩ := h
    obtain ⟨checked, hchecked⟩ := (hcolumns name).mpr hdeclarable
    exact ⟨name, checked, hname, hchecked⟩
  · intro h
    obtain ⟨name, checked, hname, hchecked⟩ := h
    exact ⟨⟨name, hname⟩, (hcolumns name).mp ⟨checked, hchecked⟩⟩

/-- **What becomes of a declaration.** A table that is not described as it must be is refused for a
    value. One that is gives a table, or the declaration breaks off on a column whose name obstructs
    the record of columns. -/
theorem declare_cases (database table : RawName) (columns : List (String × String)) :
    (¬ Described database table columns ∧
      ∃ subject fault, declare database table columns = refuse (.invalidValue subject fault)) ∨
    (Described database table columns ∧
      SettledBy .unassignable (Obstructs (enumeratedNames columns))
        (declare database table columns)) := by
  rw [described_iff, declare]
  rcases checkTableName_checksValues database table with ⟨name, hname⟩ | ⟨subject, fault, h⟩
  · rw [hname, Outcome.ok_bind]
    rcases checkColumns_checksValues name [] (Record.enumerate columns) with
      ⟨checked, hchecked⟩ | ⟨subject, fault, h⟩
    · rw [hchecked, Outcome.ok_bind, ← columnNames_of_checked hchecked]
      exact Or.inr ⟨⟨name, checked, rfl, hchecked⟩, (recordByAssignment_settled checked).bind_ok⟩
    · refine Or.inl ⟨fun hdescribed => ?_, subject, fault, by rw [h]; rfl⟩
      obtain ⟨_, checked, hsame, hchecked⟩ := hdescribed
      obtain rfl := Except.ok.inj hsame
      rw [h] at hchecked
      cases hchecked
  · refine Or.inl ⟨fun hdescribed => ?_, subject, fault, by rw [h]; rfl⟩
    obtain ⟨_, _, hname, _⟩ := hdescribed
    rw [h] at hname
    cases hname

/-- **A table is declared iff** its names are identifiers and so are those of its columns, which
    have types, and no column obstructs the record of columns. -/
theorem exists_declare_iff {database table : RawName} {columns : List (String × String)} :
    (∃ t, declare database table columns = .ok t) ↔
      Described database table columns ∧ ∀ field, ¬ Obstructs (enumeratedNames columns) field := by
  rcases declare_cases database table columns with
    ⟨hnot, subject, fault, h⟩ | ⟨hdescribed, hsettled⟩
  · rw [h]
    exact iff_of_false (by simp) fun h => hnot h.1
  · rw [hsettled.exists_ok, and_iff_right hdescribed]

/-- A declared table has the name under which it was declared. -/
theorem name_of_declare {database : RawName} {name : String} {columns : List (String × String)}
    {t : Table} (h : declare database (.text name) columns = .ok t) : t.name.table = name := by
  obtain ⟨hname, _, _⟩ := declare_eq_ok.mp h
  exact (RawName.text.inj (checkTableName_eq_ok.mp hname).2.1).symm

end Table

/-! ## 2. Declared tables -/

namespace Database

variable {name : RawName} {entries tables : List (String × List (String × String))}
  {ts : List Table} {d : Database} {n : String}

/-- The tables that the entries of a record declare, one after the other. -/
def Declared (name : RawName) : List (String × List (String × String)) → List Table → Prop :=
  List.Forall₂ fun e t => Table.declare name (.text e.1) e.2 = .ok t

theorem declareTables_eq_ok : declareTables name entries = .ok ts ↔ Declared name entries ts := by
  induction entries generalizing ts with
  | nil => rw [declareTables, ok_eq_ok_comm, Declared, List.forall₂_nil_left_iff]
  | cons entry rest ih =>
    obtain ⟨table, columns⟩ := entry
    simp only [declareTables, Outcome.bind_eq_ok, Outcome.pure_eq, ok_eq_ok_comm, ih, Declared,
      List.forall₂_cons_left_iff, exists_and_left]

/-- There are tables for all entries iff there is one for each of them. -/
theorem exists_declared_iff :
    (∃ ts, Declared name entries ts) ↔
      ∀ e ∈ entries, ∃ t, Table.declare name (.text e.1) e.2 = .ok t := by
  induction entries with
  | nil => exact iff_of_true ⟨[], .nil⟩ fun e he => absurd he List.not_mem_nil
  | cons entry rest ih =>
    rw [List.forall_mem_cons, ← ih]
    constructor
    · intro h
      obtain ⟨_, h⟩ := h
      obtain ⟨t, ts, ht, hts, rfl⟩ := List.forall₂_cons_left_iff.mp h
      exact ⟨⟨t, ht⟩, ts, hts⟩
    · intro h
      obtain ⟨⟨t, ht⟩, ts, hts⟩ := h
      exact ⟨t :: ts, .cons ht hts⟩

/-- Declared tables have the names of their entries. -/
theorem Declared.names (h : Declared name entries ts) :
    ts.map (fun t => t.name.table) = entries.map Prod.fst := by
  induction h with
  | nil => rfl
  | cons ht _ ih => rw [List.map_cons, List.map_cons, Table.name_of_declare ht, ih]

/-- Each entry has declared a table. -/
theorem Declared.exists_mem (h : Declared name entries ts) {e : String × List (String × String)}
    (he : e ∈ entries) : ∃ t ∈ ts, Table.declare name (.text e.1) e.2 = .ok t := by
  induction h with
  | nil => exact absurd he List.not_mem_nil
  | @cons first t rest ts ht _ ih =>
    rcases List.mem_cons.mp he with rfl | he
    · exact ⟨t, List.mem_cons_self, ht⟩
    · obtain ⟨u, hu, hdeclared⟩ := ih he
      exact ⟨u, List.mem_cons_of_mem t hu, hdeclared⟩

theorem table_eq_ok {t : Table} (distinct : (d.tables.map fun t => t.name.table).Nodup)
    (ht : t ∈ d.tables) : d.table t.name.table = .ok t := by
  rw [table]
  cases hfind : d.tables.find? fun u => u.name.table == t.name.table with
  | none => exact absurd (beq_self_eq_true _) (List.find?_eq_none.mp hfind t ht)
  | some u =>
    have hname : u.name.table = t.name.table := by simpa using List.find?_some hfind
    have hu := List.mem_of_find?_eq_some hfind
    rw [List.inj_on_of_nodup_map distinct hu ht hname]

theorem table_eq_refuse (h : n ∉ d.tables.map fun t => t.name.table) :
    d.table n = refuse (.invalidValue n (.undefinedTable d.name.shown)) := by
  have hnone : (d.tables.find? fun t => t.name.table == n) = none := by
    refine List.find?_eq_none.mpr fun t ht hname => h ?_
    exact beq_iff_eq.mp hname ▸ List.mem_map_of_mem ht
  rw [table, hnone]

/-! ## 3. Databases -/

theorem declare_eq_ok :
    declare name tables = .ok d ↔
      d.name = name ∧ Declared name (Record.enumerate tables) d.tables := by
  simp only [declare, Outcome.bind_eq_ok, declareTables_eq_ok, Outcome.pure_eq, ok_eq_ok_comm]
  constructor
  · intro h
    obtain ⟨ts, hts, rfl⟩ := h
    exact ⟨rfl, hts⟩
  · intro h
    obtain ⟨rfl, hts⟩ := h
    exact ⟨d.tables, hts, rfl⟩

theorem isIdentifier_text : RawName.IsIdentifier (.text n) ↔ isIdentifier n = true := by
  constructor
  · intro h
    obtain ⟨text, htext, hn⟩ := h
    exact RawName.text.inj htext ▸ hn
  · intro h
    exact ⟨n, rfl, h⟩

/-- **A database is declared iff** its tables can be declared by their names and columns, and its
    own name is an identifier or there is no table. -/
theorem exists_declare_iff :
    (∃ d, declare name tables = .ok d) ↔
      (Record.enumerate tables = [] ∨ name.IsIdentifier) ∧
        ∀ e ∈ Record.enumerate tables, isIdentifier e.1 = true ∧ Declarable e.2 ∧
          ∀ field, ¬ Obstructs (enumeratedNames e.2) field := by
  have hdeclared : (∃ d, declare name tables = .ok d) ↔
      ∀ e ∈ Record.enumerate tables, ∃ t, Table.declare name (.text e.1) e.2 = .ok t := by
    rw [← exists_declared_iff]
    simp only [declare_eq_ok]
    constructor
    · intro h
      obtain ⟨d, _, hts⟩ := h
      exact ⟨d.tables, hts⟩
    · intro h
      obtain ⟨ts, hts⟩ := h
      exact ⟨⟨name, ts⟩, rfl, hts⟩
  rw [hdeclared]
  simp only [Table.exists_declare_iff, Table.Described, isIdentifier_text, and_assoc]
  constructor
  · intro h
    refine ⟨?_, fun e he => (h e he).2⟩
    cases htables : Record.enumerate tables with
    | nil => exact Or.inl rfl
    | cons e rest => exact Or.inr (h e (htables ▸ List.mem_cons_self)).1
  · intro h e he
    obtain ⟨hempty | hname, htables⟩ := h
    · exact absurd he (hempty ▸ List.not_mem_nil)
    · exact ⟨hname, htables e he⟩

/-- The first of the entries that does not declare a table, and how it fails. -/
structure FirstFailing (name : RawName) (entries : List (String × List (String × String)))
    (failure : Failure) (e : String × List (String × String)) : Prop where
  first : ∃ before after, entries = before ++ e :: after ∧
    ∀ b ∈ before, ∃ t, Table.declare name (.text b.1) b.2 = .ok t
  fails : Table.declare name (.text e.1) e.2 = .error failure

/-- **Tables fail with the first one that fails.** -/
theorem declareTables_error {failure : Failure} (h : declareTables name entries = .error failure) :
    ∃ e, FirstFailing name entries failure e := by
  induction entries with
  | nil => cases h
  | cons entry rest ih =>
    obtain ⟨table, columns⟩ := entry
    cases ht : Table.declare name (.text table) columns with
    | error own =>
      rw [declareTables, ht] at h
      obtain rfl := Except.error.inj h
      exact ⟨(table, columns), ⟨[], rest, rfl, fun b hb => absurd hb List.not_mem_nil⟩, ht⟩
    | ok t =>
      rw [declareTables, ht, Outcome.ok_bind] at h
      cases hrest : declareTables name rest with
      | ok more =>
        rw [hrest] at h
        cases h
      | error own =>
        rw [hrest] at h
        obtain rfl := Except.error.inj h
        obtain ⟨e, ⟨before, after, hsplit, hbefore⟩, hfails⟩ := ih hrest
        refine ⟨e, ⟨(table, columns) :: before, after, by rw [hsplit]; rfl, ?_⟩, hfails⟩
        exact List.forall_mem_cons.mpr ⟨⟨t, ht⟩, hbefore⟩

theorem declare_error {failure : Failure} (h : declare name tables = .error failure) :
    ∃ e, FirstFailing name (Record.enumerate tables) failure e := by
  refine declareTables_error ?_
  rw [declare] at h
  cases htables : declareTables name (Record.enumerate tables) with
  | ok ts =>
    rw [htables] at h
    cases h
  | error own =>
    rw [htables] at h
    exact congrArg Except.error (Except.error.inj h)

/-- How an entry fails: by a value that is refused, or on a column that obstructs the record. -/
theorem FirstFailing.cases {failure : Failure} {e : String × List (String × String)}
    (h : FirstFailing name entries failure e) :
    (¬ Table.Described name (.text e.1) e.2 ∧
      ∃ subject fault, failure = .because (.invalidValue subject fault)) ∨
    (Table.Described name (.text e.1) e.2 ∧
      ∃ field, Obstructs (enumeratedNames e.2) field ∧ failure = .unassignable field) := by
  rcases Table.declare_cases name (.text e.1) e.2 with ⟨hnot, subject, fault, hrefused⟩ |
    ⟨hdescribed, hsettled⟩
  · exact Or.inl ⟨hnot, subject, fault, Except.error.inj (h.fails.symm.trans hrefused)⟩
  · exact Or.inr ⟨hdescribed, hsettled.of_error h.fails⟩

end Database

/-- **Declaring a database.** A database is declared iff the names of its tables and columns are
    identifiers and the columns have types, no column obstructs the record of its table, and its own
    name is an identifier or it has no table.

    Otherwise it fails as the first of its tables that cannot be declared: where the names or types
    are not as they must be, for a value that is refused, and where they are, with a defect, on a
    column that obstructs the record.

    It has the tables that the entries of the record declare, in the order of the record. Each is
    found by its name, and every other name is refused. -/
theorem database_declared (name : RawName) (tables : List (String × List (String × String))) :
    ((∃ d, Database.declare name tables = .ok d) ↔
      (Record.enumerate tables = [] ∨ name.IsIdentifier) ∧
        ∀ e ∈ Record.enumerate tables, isIdentifier e.1 = true ∧ Declarable e.2 ∧
          ∀ field, ¬ Obstructs (enumeratedNames e.2) field) ∧
    (∀ failure, Database.declare name tables = .error failure →
      ∃ e, Database.FirstFailing name (Record.enumerate tables) failure e ∧
        ((¬ Table.Described name (.text e.1) e.2 ∧
            ∃ subject fault, failure = .because (.invalidValue subject fault)) ∨
          (Table.Described name (.text e.1) e.2 ∧
            ∃ field, Obstructs (enumeratedNames e.2) field ∧ failure = .unassignable field))) ∧
    ∀ d, Database.declare name tables = .ok d →
      d.name = name ∧
      List.Forall₂ (fun e t => Table.declare name (.text e.1) e.2 = .ok t)
        (Record.enumerate tables) d.tables ∧
      (∀ e ∈ Record.enumerate tables, ∃ t,
        Table.declare name (.text e.1) e.2 = .ok t ∧ d.table e.1 = .ok t) ∧
      ∀ n, n ∉ (Record.enumerate tables).map Prod.fst →
        d.table n = refuse (.invalidValue n (.undefinedTable name.shown)) := by
  refine ⟨Database.exists_declare_iff, fun failure h => ?_, fun d h => ?_⟩
  · obtain ⟨e, he⟩ := Database.declare_error h
    exact ⟨e, he, he.cases⟩
  obtain ⟨rfl, hdeclared⟩ := Database.declare_eq_ok.mp h
  have hnames := hdeclared.names
  refine ⟨rfl, hdeclared, fun e he => ?_, fun n hn => Database.table_eq_refuse (hnames ▸ hn)⟩
  obtain ⟨t, ht, hdeclare⟩ := hdeclared.exists_mem he
  have hfound := Database.table_eq_ok (hnames ▸ Record.nodup_enumerate tables) ht
  exact ⟨t, hdeclare, Table.name_of_declare hdeclare ▸ hfound⟩

/-- Two tables, of which the second comes first in the order of the record. -/
def companyTables : List (String × List (String × String)) :=
  [("teams", [("id", "integer"), ("title", "string")]), ("2", [("b", "string"), ("1", "date")])]

/-- Two tables, of which the second has a column that obstructs its record. -/
def obstructedTables : List (String × List (String × String)) :=
  [("teams", [("id", "integer")]), ("t", [("__proto__", "string"), ("name", "string")])]

/-- Tables in the order of the record, with the columns that are found; and a declaration that
    breaks off, though all names and types are as they must be. -/
theorem database_declared_company :
    (∃ d, Database.declare (.text "company") companyTables = .ok d ∧
      d.tables.map (fun t => t.name.table) = ["2", "teams"] ∧
      (∃ t, Table.declare (.text "company") (.text "2") [("b", "string"), ("1", "date")] = .ok t ∧
        d.table "2" = .ok t) ∧
      d.table "toString" = refuse (.invalidValue "toString" (.undefinedTable "company"))) ∧
    Database.declare (.text "company") obstructedTables = .error (.unassignable "name") ∧
    ∃ e, Database.FirstFailing (.text "company") (Record.enumerate obstructedTables)
      (.unassignable "name") e ∧ Table.Described (.text "company") (.text e.1) e.2 := by
  obtain ⟨_, _, declared⟩ := database_declared (.text "company") companyTables
  obtain ⟨_, failing, _⟩ := database_declared (.text "company") obstructedTables
  have hdeclare : Database.declare (.text "company") companyTables = .ok _ := rfl
  obtain ⟨_, _, found, unknown⟩ := declared _ hdeclare
  have hbroken : Database.declare (.text "company") obstructedTables =
      .error (.unassignable "name") := by decide
  refine ⟨⟨_, hdeclare, rfl, ?_, unknown "toString" (by decide)⟩, hbroken, ?_⟩
  · exact found ("2", [("b", "string"), ("1", "date")]) (by decide)
  · obtain ⟨e, he, ⟨_, subject, fault, hrefused⟩ | ⟨hdescribed, _⟩⟩ := failing _ hbroken
    · cases hrefused
    · exact ⟨e, he, hdescribed⟩

/-- **A database without tables may have any name**, though no table can be declared in it. -/
theorem misnamed_database_declared :
    isIdentifier "bad name!" = false ∧
      Database.declare (.text "bad name!") [] = .ok ⟨.text "bad name!", []⟩ ∧
      Database.declare (.text "bad name!") [("t", [])] =
        refuse (.invalidValue "bad name!" (.notAnIdentifier "Database")) := by
  decide

end QueryPipeline
