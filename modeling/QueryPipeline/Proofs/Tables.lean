import QueryPipeline.Table
import QueryPipeline.Proofs.Outcome

/-!
# Tables

What the two ways to make a table check. A table that was made (`Table.Made`) is well named
(`Table.WellNamed`): database, table and columns are named by identifiers, and no two columns have
one name. So it has a schema, with the columns of the table (`Table.WellNamed.schema_eq`).
`Table.people` and `Table.teams` are two such tables.
-/

namespace QueryPipeline

/-- A table that a declaration or a registration gave. -/
def Table.Made (t : Table) : Prop :=
  (∃ database table columns, Table.declare database table columns = .ok t) ∨
    ∃ database table columns, Table.register database table columns = .ok t

/-- A table whose names are identifiers, and whose columns have distinct names. -/
structure Table.WellNamed (t : Table) : Prop where
  database : isIdentifier t.name.database = true
  table : isIdentifier t.name.table = true
  columns : ∀ n ∈ columnNames t.columns, isIdentifier n = true
  distinct : (columnNames t.columns).Nodup

/-! ## 1. Checks -/

theorem ColumnType.ofName?_eq_some {text : String} {t : ColumnType} :
    ofName? text = some t ↔ text = t.name := by
  constructor
  · intro h
    have := List.find?_some h
    exact (by simpa using this : t.name = text).symm
  · intro h
    rw [h]
    exact ofName?_name t

/-- **A name passes iff it is a text that is an identifier**, and passes unchanged. -/
theorem requireIdentifier_eq_ok {name : RawName} {what text : String} :
    requireIdentifier name what = .ok text ↔ name = .text text ∧ isIdentifier text = true := by
  cases name with
  | text value =>
    by_cases h : isIdentifier value = true
    · simp only [requireIdentifier, RawName.identifier?, h, if_true, Except.ok.injEq,
        RawName.text.injEq]
      constructor
      · intro e
        exact ⟨e, e ▸ h⟩
      · intro e
        exact e.1
    · simp only [requireIdentifier, RawName.identifier?, h, Bool.false_eq_true, if_false,
        refuse_eq_ok, RawName.text.injEq, false_iff]
      intro e
      exact h (e.1 ▸ e.2)
  | _ => simp [requireIdentifier, RawName.identifier?]

@[simp] theorem requireIdentifier_text_eq_ok {text name what : String} :
    requireIdentifier (.text text) what = .ok name ↔ text = name ∧ isIdentifier name = true := by
  rw [requireIdentifier_eq_ok, RawName.text.injEq]

theorem checkTableName_eq_ok {database table : RawName} {n : TableName} :
    checkTableName database table = .ok n ↔
      (database = .text n.database ∧ isIdentifier n.database = true) ∧
        table = .text n.table ∧ isIdentifier n.table = true := by
  simp only [checkTableName, Outcome.bind_eq_ok, requireIdentifier_eq_ok]
  constructor
  · intro h
    obtain ⟨d, hd, t, ht, h⟩ := h
    have e : n = ⟨d, t⟩ := by simpa using h.symm
    subst e
    exact ⟨hd, ht⟩
  · intro h
    exact ⟨n.database, h.1, n.table, h.2, rfl⟩

/-- **Columns pass iff their names are new identifiers and their types have these names.** -/
theorem checkColumns_eq_ok {table : TableName} {earlier : List String}
    {entries : List (String × String)} {columns : List Column} :
    checkColumns table earlier entries = .ok columns ↔
      entries = columns.map (fun c => (c.name, c.type.name)) ∧
        (∀ n ∈ columnNames columns, isIdentifier n = true ∧ n ∉ earlier) ∧
        (columnNames columns).Nodup := by
  induction entries generalizing earlier columns with
  | nil => cases columns <;> simp [checkColumns, columnNames]
  | cons entry rest ih =>
    obtain ⟨name, typeName⟩ := entry
    simp only [checkColumns, Outcome.bind_eq_ok, requireIdentifier_text_eq_ok, refuse_bind,
      ite_refuse_eq_ok]
    constructor
    · intro h
      obtain ⟨_, ⟨rfl, hid⟩, hnew, h⟩ := h
      cases htype : ColumnType.ofName? typeName with
      | none => simp [htype] at h
      | some type =>
        simp only [htype, Outcome.bind_eq_ok, ih] at h
        obtain ⟨more, ⟨hrest, hmore, hnodup⟩, h⟩ := h
        have e : columns = ⟨name, type⟩ :: more := by simpa using h.symm
        have htext := ColumnType.ofName?_eq_some.mp htype
        subst e htext
        refine ⟨by rw [hrest]; rfl, ?_, ?_⟩
        · intro n hn
          rcases List.mem_cons.mp hn with rfl | hn
          · exact ⟨hid, hnew⟩
          · exact ⟨(hmore n hn).1, fun h => (hmore n hn).2 (List.mem_cons_of_mem _ h)⟩
        · exact List.nodup_cons.mpr ⟨fun h => (hmore name h).2 List.mem_cons_self, hnodup⟩
    · intro h
      obtain ⟨hentries, hnames, hnodup⟩ := h
      cases columns with
      | nil => simp at hentries
      | cons c more =>
        simp only [List.map_cons, List.cons.injEq, Prod.mk.injEq] at hentries
        obtain ⟨⟨rfl, rfl⟩, hrest⟩ := hentries
        have hc := hnames c.name (by simp [columnNames])
        obtain ⟨hfresh, hnodup⟩ := List.nodup_cons.mp hnodup
        refine ⟨c.name, ⟨rfl, hc.1⟩, hc.2, ?_⟩
        rw [ColumnType.ofName?_name]
        refine Outcome.bind_eq_ok.mpr ⟨more, ih.mpr ⟨hrest, ?_, hnodup⟩, rfl⟩
        intro n hn
        refine ⟨(hnames n (List.mem_cons_of_mem _ hn)).1, fun h => ?_⟩
        rcases List.mem_cons.mp h with rfl | h
        · exact hfresh hn
        · exact (hnames n (List.mem_cons_of_mem _ hn)).2 h

/-! ## 2. Made tables -/

namespace Table

variable {t : Table}

theorem declare_eq_ok {database table : RawName} {entries : List (String × String)} :
    declare database table entries = .ok t ↔
      checkTableName database table = .ok t.name ∧
        checkColumns t.name [] (Record.enumerate entries) = .ok t.columns ∧
        recordByAssignment t.columns = .ok t.record := by
  simp only [declare, Outcome.bind_eq_ok]
  constructor
  · intro h
    obtain ⟨name, hname, columns, hcolumns, record, hrecord, h⟩ := h
    obtain rfl : ⟨name, columns, record⟩ = t := Except.ok.inj h
    exact ⟨hname, hcolumns, hrecord⟩
  · intro h
    obtain ⟨hname, hcolumns, hrecord⟩ := h
    exact ⟨t.name, hname, t.columns, hcolumns, t.record, hrecord, rfl⟩

theorem register_eq_ok {database table : RawName} {columns : Registration} :
    register database table columns = .ok t ↔
      ∃ typed, readTypes columns.columns = .ok typed ∧
        checkTableName database table = .ok t.name ∧
        checkColumns t.name [] typed = .ok t.columns ∧
        t.record = recordOfEntries t.columns := by
  simp only [register, Outcome.bind_eq_ok]
  constructor
  · intro h
    obtain ⟨name, hname, typed, htyped, columns, hcolumns, h⟩ := h
    have e : t = ⟨name, columns, recordOfEntries columns⟩ := by simpa using h.symm
    subst e
    exact ⟨typed, htyped, hname, hcolumns, rfl⟩
  · intro h
    obtain ⟨typed, htyped, hname, hcolumns, hrecord⟩ := h
    exact ⟨t.name, hname, typed, htyped, t.columns, hcolumns, by rw [← hrecord]; rfl⟩

theorem wellNamed_of_checks {database table : RawName} {entries : List (String × String)}
    (hname : checkTableName database table = .ok t.name)
    (hcolumns : checkColumns t.name [] entries = .ok t.columns) : t.WellNamed := by
  obtain ⟨hdatabase, htable⟩ := checkTableName_eq_ok.mp hname
  obtain ⟨_, hnames, hnodup⟩ := checkColumns_eq_ok.mp hcolumns
  exact ⟨hdatabase.2, htable.2, fun n hn => (hnames n hn).1, hnodup⟩

/-- **A made table is well named.** -/
theorem Made.wellNamed (made : t.Made) : t.WellNamed := by
  rcases made with ⟨database, table, entries, h⟩ | ⟨database, table, entries, h⟩
  · obtain ⟨hname, hcolumns, _⟩ := declare_eq_ok.mp h
    exact wellNamed_of_checks hname hcolumns
  · obtain ⟨typed, _, hname, hcolumns, _⟩ := register_eq_ok.mp h
    exact wellNamed_of_checks hname hcolumns

/-- The schema of a well named table has its columns. -/
theorem WellNamed.schema_eq (h : t.WellNamed) : t.schema = .ok ⟨t.columns, h.distinct⟩ :=
  Schema.ofColumns_columns ⟨t.columns, h.distinct⟩

/-! ## 3. Two tables -/

/-- People with their age and the team they belong to. -/
def people : Table where
  name := ⟨"company", "people"⟩
  columns := [⟨"id", .integer⟩, ⟨"name", .string⟩, ⟨"age", .integer⟩, ⟨"team", .integer⟩]
  record := recordOfEntries
    [⟨"id", .integer⟩, ⟨"name", .string⟩, ⟨"age", .integer⟩, ⟨"team", .integer⟩]

theorem people_made : people.Made :=
  Or.inl ⟨.text "company", .text "people",
    [("id", "integer"), ("name", "string"), ("age", "integer"), ("team", "integer")], rfl⟩

/-- Teams with their budget. -/
def teams : Table where
  name := ⟨"company", "teams"⟩
  columns := [⟨"team_id", .integer⟩, ⟨"budget", .double⟩]
  record := recordOfEntries [⟨"team_id", .integer⟩, ⟨"budget", .double⟩]

theorem teams_made : teams.Made := by
  have hinteger : ColumnType.ofNameAnyCase? "Integer" = some .integer := by decide +kernel
  have hdouble : ColumnType.ofNameAnyCase? "DOUBLE" = some .double := by decide +kernel
  have htypes : readTypes [("team_id", "Integer"), ("budget", "DOUBLE")] =
      .ok [("team_id", "integer"), ("budget", "double")] := by
    simp only [readTypes, hinteger, hdouble]
    rfl
  exact Or.inr ⟨.text "company", .text "teams",
    .entries [("team_id", "Integer"), ("budget", "DOUBLE")],
    register_eq_ok.mpr ⟨_, htypes, rfl, rfl, rfl⟩⟩

end Table
end QueryPipeline
