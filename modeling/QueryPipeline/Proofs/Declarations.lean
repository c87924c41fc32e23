import QueryPipeline.Proofs.Records
import QueryPipeline.Proofs.Tables

/-!
# Declared and registered tables

A record of columns can be declared, with a type for each name, or registered, with the name of a
type. Both check the same things in the same order, so they are refused together and list the same
columns; they differ in how they fill the record of columns.

* `Table.register_checksValues`: a registration is refused for a value or for nothing;
* `Obstructs` are the columns on which a declaration breaks off, and `recordByAssignment_settled`
  says that it breaks off on one of them whenever there is one;
* `Table.declare_eq_register`: declaring a record of columns is registering it, and then filling the
  record of columns once more, by assignment;
* `Table.RecordedBut`: the columns that a table does not show by name;
* **`declared_as_registered`**: what the two ways have in common, and where they part: a declaration
  may break off, and a declared table does not show a column under the reserved key.
-/

namespace QueryPipeline

/-! ## 1. Refused values -/

theorem requireIdentifier_checksValues (name : RawName) (what : String) :
    ChecksValues (requireIdentifier name what) := by
  unfold requireIdentifier
  cases name.identifier? with
  | none => exact .refuse _ _
  | some value => exact .ok value

theorem checkColumns_checksValues (table : TableName) (earlier : List String)
    (entries : List (String × String)) : ChecksValues (checkColumns table earlier entries) := by
  induction entries generalizing earlier with
  | nil => exact .ok []
  | cons entry rest ih =>
    obtain ⟨name, typeName⟩ := entry
    refine (requireIdentifier_checksValues _ _).bind fun name => ?_
    by_cases hrepeated : name ∈ earlier
    · rw [if_pos hrepeated]
      exact .refuse _ _
    · rw [if_neg hrepeated]
      cases htype : ColumnType.ofName? typeName with
      | none => exact .refuse _ _
      | some type => exact (ih (name :: earlier)).bind fun more => .ok _

theorem checkTableName_checksValues (database table : RawName) :
    ChecksValues (checkTableName database table) :=
  (requireIdentifier_checksValues _ _).bind fun _ =>
    (requireIdentifier_checksValues _ _).bind fun _ => .ok _

theorem readTypes_checksValues (entries : List (String × String)) :
    ChecksValues (readTypes entries) := by
  induction entries with
  | nil => exact .ok []
  | cons entry rest ih =>
    obtain ⟨name, typeName⟩ := entry
    rw [readTypes]
    split
    · exact .refuse _ _
    · exact ih.bind fun more => .ok _

/-- **A registration is refused for a value or for nothing.** -/
theorem Table.register_checksValues (database table : RawName) (columns : Registration) :
    ChecksValues (Table.register database table columns) :=
  (checkTableName_checksValues _ _).bind fun _ => (readTypes_checksValues _).bind fun _ =>
    (checkColumns_checksValues _ _ _).bind fun _ => .ok _

/-! ## 2. Records filled by assignment -/

/-- Among names that are assigned one after the other, the name of a field of columns that stands
    behind the reserved key. -/
def Obstructs (names : List String) (field : String) : Prop :=
  field ∈ columnFields ∧ [reservedKey, field].Sublist names

instance (names : List String) : DecidablePred (Obstructs names) :=
  fun _ => inferInstanceAs (Decidable (_ ∧ _))

/-- The names that cannot be assigned, given whether the record inherits from a column already. -/
def Unassignable (inherits : Bool) (names : List String) (field : String) : Prop :=
  field ∈ columnFields ∧ (inherits = true ∧ field ∈ names ∨ [reservedKey, field].Sublist names)

/-- The reserved key makes the fields behind it unassignable. -/
theorem unassignable_reserved {inherits : Bool} {names : List String} {field : String} :
    Unassignable inherits (reservedKey :: names) field ↔ Unassignable true names field := by
  refine and_congr_right fun hfield => ?_
  have hne : field ≠ reservedKey := by
    intro h
    rw [h] at hfield
    exact absurd hfield (by decide)
  have hafter : [reservedKey, field].Sublist (reservedKey :: names) ↔ field ∈ names := by
    rw [List.cons_sublist_cons, List.singleton_sublist]
  rw [hafter, List.mem_cons, or_iff_right hne]
  refine ⟨fun h => Or.inl ⟨rfl, h.elim And.right id⟩, fun h => Or.inr ?_⟩
  rcases h with ⟨_, h⟩ | h
  · exact h
  · exact h.subset (by simp)

/-- Another name that is assigned changes nothing for those behind it. -/
theorem unassignable_cons {inherits : Bool} {names : List String} {name field : String}
    (hname : name ≠ reservedKey) (hfree : ¬ (inherits = true ∧ name ∈ columnFields)) :
    Unassignable inherits (name :: names) field ↔ Unassignable inherits names field := by
  refine and_congr_right fun hfield => or_congr (and_congr_right fun hinherits => ?_) ?_
  · have hne : field ≠ name := by
      intro h
      rw [h] at hfield
      exact hfree ⟨hinherits, hfield⟩
    rw [List.mem_cons, or_iff_right hne]
  · rw [List.cons_sublist_cons']
    simp [Ne.symm hname]

/-- **Assignments fail iff a name is unassignable**, and then on one of these names. -/
theorem assignColumns_settled (inherits : Bool) (columns : List Column) :
    SettledBy .unassignable (Unassignable inherits (columnNames columns))
      (assignColumns inherits columns) := by
  induction columns generalizing inherits with
  | nil => exact .ok [] fun field h => by simp [Unassignable, columnNames] at h
  | cons c rest ih =>
    rw [assignColumns]
    have hnames : columnNames (c :: rest) = c.name :: columnNames rest := rfl
    rw [hnames]
    by_cases hreserved : c.name = reservedKey
    · rw [if_pos hreserved, hreserved]
      exact (ih true).congr fun field => unassignable_reserved
    · rw [if_neg hreserved]
      by_cases hfixed : (inherits && columnFields.contains c.name) = true
      · rw [if_pos hfixed]
        have hfield : inherits = true ∧ c.name ∈ columnFields := by simpa using hfixed
        exact Or.inr ⟨c.name, ⟨hfield.2, Or.inl ⟨hfield.1, List.mem_cons_self⟩⟩, rfl⟩
      · rw [if_neg hfixed]
        have hfree : ¬ (inherits = true ∧ c.name ∈ columnFields) := by simpa using hfixed
        exact (ih inherits).bind_ok.congr fun field => unassignable_cons hreserved hfree

/-- What was assigned are the columns without the one under the reserved key. -/
theorem assignColumns_record {inherits : Bool} {columns : List Column}
    {record : List (String × Column)} (h : assignColumns inherits columns = .ok record) :
    record = recordOfEntries (columns.filter fun c => c.name != reservedKey) := by
  induction columns generalizing inherits record with
  | nil => exact (Except.ok.inj h).symm
  | cons c rest ih =>
    rw [assignColumns] at h
    by_cases hreserved : c.name = reservedKey
    · rw [if_pos hreserved] at h
      rw [List.filter_cons_of_neg (by simp [hreserved])]
      exact ih h
    · rw [if_neg hreserved] at h
      rw [List.filter_cons_of_pos (by simpa using hreserved)]
      by_cases hfixed : (inherits && columnFields.contains c.name) = true
      · rw [if_pos hfixed] at h
        cases h
      · rw [if_neg hfixed] at h
        obtain ⟨more, hmore, h⟩ := Outcome.bind_eq_ok.mp h
        rw [← Except.ok.inj h, ih hmore]
        rfl

/-- **A record is filled by assignment iff nothing obstructs it**, and what obstructs it is the name
    on which that breaks off. -/
theorem recordByAssignment_settled (columns : List Column) :
    SettledBy .unassignable (Obstructs (columnNames columns)) (recordByAssignment columns) :=
  (assignColumns_settled false columns).congr fun field => by simp [Obstructs, Unassignable]

/-! ## 3. Names of types -/

/-- Columns with the names of their types. -/
def typeTexts (columns : List (String × ColumnType)) : List (String × String) :=
  columns.map fun c => (c.1, c.2.name)

theorem ColumnType.ofNameAnyCase?_name (t : ColumnType) : ofNameAnyCase? t.name = some t := by
  cases t <;> decide +kernel

/-- Names of types are read as they are. -/
theorem readTypes_eq {entries : List (String × String)}
    (h : ∀ e ∈ entries, ∃ type : ColumnType, e.2 = type.name) :
    readTypes entries = .ok entries := by
  induction entries with
  | nil => rfl
  | cons entry rest ih =>
    obtain ⟨name, typeName⟩ := entry
    obtain ⟨⟨type, rfl⟩, hrest⟩ := List.forall_mem_cons.mp h
    rw [readTypes, ColumnType.ofNameAnyCase?_name]
    show (readTypes rest >>= _) = _
    rw [ih hrest]
    rfl

/-- Registering a record of columns makes the checks of a declaration. -/
theorem Table.register_record (database table : RawName) (columns : List (String × ColumnType)) :
    Table.register database table (.record (typeTexts columns)) =
      checkTableName database table >>= fun name =>
        checkColumns name [] (Record.enumerate (typeTexts columns)) >>= fun checked =>
          .ok ⟨name, checked, recordOfEntries checked⟩ := by
  have htypes : readTypes (Record.enumerate (typeTexts columns)) =
      .ok (Record.enumerate (typeTexts columns)) := by
    refine readTypes_eq fun e he => ?_
    obtain ⟨c, _, rfl⟩ := List.mem_map.mp (Record.mem_of_mem_enumerate he)
    exact ⟨c.2, rfl⟩
  rw [register, Registration.columns, htypes]
  rfl

/-- **Declaring a record of columns is registering it**, and then filling the record of columns by
    assignment. -/
theorem Table.declare_eq_register (database table : RawName)
    (columns : List (String × ColumnType)) :
    Table.declare database table (typeTexts columns) =
      Table.register database table (.record (typeTexts columns)) >>= fun t =>
        recordByAssignment t.columns >>= fun record => .ok { t with record := record } := by
  rw [register_record, declare]
  simp only [bind_assoc, Outcome.ok_bind, Outcome.pure_eq]

/-! ## 4. Columns by name -/

namespace Table

variable {t : Table}

/-- The record of columns shows, once each and under their names, exactly the listed columns whose
    names are not hidden. -/
structure RecordedBut (hidden : List String) (t : Table) : Prop where
  distinct : (t.columnRecord.map Prod.fst).Nodup
  entry_iff : ∀ key d,
    (key, d) ∈ t.columnRecord ↔ d ∈ t.columnList ∧ d.name = key ∧ key ∉ hidden

/-- A record that is filled from the entries of columns shows these. -/
theorem recordedBut_of_filter (named : t.WellNamed) {hidden : List String} {p : Column → Bool}
    (hp : ∀ c, p c = true ↔ c.name ∉ hidden)
    (h : t.record = recordOfEntries (t.columns.filter p)) : t.RecordedBut hidden := by
  have hrecord : t.columnRecord = (t.columns.filter p).map fun c => (c.name, t.definition c) := by
    rw [columnRecord, h, recordOfEntries, List.map_map]
    rfl
  refine ⟨?_, fun key d => ?_⟩
  · have hkeys : t.columnRecord.map Prod.fst = columnNames (t.columns.filter p) := by
      rw [hrecord, List.map_map]
      rfl
    rw [hkeys]
    exact (List.filter_sublist.map Column.name).nodup named.distinct
  · rw [hrecord, columnList]
    simp only [List.mem_map, List.mem_filter, hp, Prod.mk.injEq]
    refine ⟨fun h => ?_, fun h => ?_⟩
    · obtain ⟨c, ⟨hc, hshown⟩, rfl, rfl⟩ := h
      exact ⟨⟨c, hc, rfl⟩, rfl, hshown⟩
    · obtain ⟨⟨c, hc, rfl⟩, rfl, hshown⟩ := h
      exact ⟨c, ⟨hc, hshown⟩, rfl, rfl⟩

/-- A declared table hides the reserved key. -/
theorem recordedBut_of_declare {database table : RawName} {entries : List (String × String)}
    (h : declare database table entries = .ok t) : t.RecordedBut [reservedKey] := by
  have named : t.WellNamed := Made.wellNamed (Or.inl ⟨_, _, _, h⟩)
  obtain ⟨_, _, hrecord⟩ := declare_eq_ok.mp h
  exact recordedBut_of_filter named (fun c => by simp) (assignColumns_record hrecord)

/-- Filled from its entries, the record of a declared table is the same iff no column has the
    reserved key. -/
theorem columnRecord_of_declare {database table : RawName} {entries : List (String × String)}
    (h : declare database table entries = .ok t) :
    t.columnRecord = { t with record := recordOfEntries t.columns }.columnRecord ↔
      reservedKey ∉ columnNames t.columns := by
  constructor
  · intro hsame hreserved
    obtain ⟨c, hc, hname⟩ := List.mem_map.mp hreserved
    have hshown : (c.name, t.definition c) ∈ t.columnRecord := by
      rw [hsame]
      exact List.mem_map_of_mem (List.mem_map_of_mem hc)
    have hhidden := ((recordedBut_of_declare h).entry_iff _ _).mp hshown
    exact hhidden.2.2 (List.mem_singleton.mpr hname)
  · intro hfree
    obtain ⟨_, _, hrecord⟩ := declare_eq_ok.mp h
    have hkept : t.columns.filter (fun c => c.name != reservedKey) = t.columns := by
      refine List.filter_eq_self.mpr fun c hc => bne_iff_ne.mpr fun hname => hfree ?_
      exact List.mem_map.mpr ⟨c, hc, hname⟩
    rw [columnRecord, assignColumns_record hrecord, hkept]
    rfl

/-- A registered table hides nothing. -/
theorem recordedBut_of_register {database table : RawName} {registration : Registration}
    (h : register database table registration = .ok t) : t.RecordedBut [] := by
  have named : t.WellNamed := Made.wellNamed (Or.inr ⟨_, _, _, h⟩)
  obtain ⟨_, _, _, _, hrecord⟩ := register_eq_ok.mp h
  have hall : t.record = recordOfEntries (t.columns.filter fun _ => true) := by
    rw [List.filter_true]
    exact hrecord
  exact recordedBut_of_filter named (fun c => by simp) hall

end Table

/-! ## 5. The two ways -/

/-- **Declaring and registering a record of columns.** Both are refused for the same value, or the
    registration gives a table. Then the declaration breaks off with a defect iff the name of a
    field of columns stands behind the reserved key, and on such a name; otherwise it gives a table
    with the same name and the same list of columns.

    A registered table, whatever its registration was, shows every listed column under its name and
    nothing else. A declared table does so for all names but the reserved key, under which it shows
    nothing; so the records of columns are the same iff no column has that name. -/
theorem declared_as_registered (database table : RawName) (columns : List (String × ColumnType)) :
    ((∃ subject fault,
        Table.declare database table (typeTexts columns) = refuse (.invalidValue subject fault) ∧
        Table.register database table (.record (typeTexts columns)) =
          refuse (.invalidValue subject fault)) ∨
      ∃ t', Table.register database table (.record (typeTexts columns)) = .ok t' ∧
        ((∃ t, Table.declare database table (typeTexts columns) = .ok t ∧
            (∀ field, ¬ Obstructs (columnNames t.columns) field) ∧
            t.name = t'.name ∧ t.columnList = t'.columnList ∧
            (t.columnRecord = t'.columnRecord ↔ reservedKey ∉ columnNames t.columns)) ∨
          ∃ field, Obstructs (columnNames t'.columns) field ∧
            Table.declare database table (typeTexts columns) = .error (.unassignable field))) ∧
    (∀ entries t, Table.declare database table entries = .ok t → t.RecordedBut [reservedKey]) ∧
    ∀ registration t, Table.register database table registration = .ok t → t.RecordedBut [] := by
  refine ⟨?_, fun _ t h => Table.recordedBut_of_declare h,
    fun _ t h => Table.recordedBut_of_register h⟩
  have hdeclare := Table.declare_eq_register database table columns
  rcases Table.register_checksValues database table (.record (typeTexts columns)) with
    ⟨t', ht'⟩ | ⟨subject, fault, hrefused⟩
  · have hrecord : t'.record = recordOfEntries t'.columns := by
      obtain ⟨_, _, _, _, hrecord⟩ := Table.register_eq_ok.mp ht'
      exact hrecord
    have hsame : { t' with record := recordOfEntries t'.columns } = t' := by rw [← hrecord]
    rw [ht', Outcome.ok_bind] at hdeclare
    refine Or.inr ⟨t', ht', ?_⟩
    rcases recordByAssignment_settled t'.columns with ⟨⟨record, hassign⟩, hnone⟩ |
      ⟨field, hfield, hassign⟩
    · rw [hassign, Outcome.ok_bind] at hdeclare
      have hcolumns := Table.columnRecord_of_declare hdeclare
      rw [hsame] at hcolumns
      exact Or.inl ⟨_, hdeclare, hnone, rfl, rfl, hcolumns⟩
    · rw [hassign, Outcome.error_bind] at hdeclare
      exact Or.inr ⟨field, hfield, hdeclare⟩
  · rw [hrefused, refuse_bind] at hdeclare
    exact Or.inl ⟨subject, fault, hdeclare, hrefused⟩

/-- Columns of which one has the reserved key as its name. -/
def reservedColumns : List (String × ColumnType) :=
  [("id", .integer), ("__proto__", .string), ("z", .long)]

/-- Columns of which one has the reserved key as its name and another one, behind it, that of a
    field. -/
def obstructedColumns : List (String × ColumnType) := [("__proto__", .string), ("name", .string)]

/-- The table that the first columns declare. -/
def Table.reserved : Table where
  name := ⟨"db", "t"⟩
  columns := [⟨"id", .integer⟩, ⟨"__proto__", .string⟩, ⟨"z", .long⟩]
  record := [("id", ⟨"id", .integer⟩), ("z", ⟨"z", .long⟩)]

theorem Table.reserved_declared :
    Table.declare (.text "db") (.text "t") (typeTexts reservedColumns) = .ok .reserved := by
  decide

/-- The columns declared and registered: one list, two records; and columns that are registered, but
    not declared. -/
theorem declared_as_registered_reserved :
    Table.declare (.text "db") (.text "t") (typeTexts reservedColumns) = .ok .reserved ∧
      Table.reserved.RecordedBut [reservedKey] ∧
      (∃ t', Table.register (.text "db") (.text "t") (.record (typeTexts reservedColumns)) =
          .ok t' ∧
        t'.RecordedBut [] ∧ Table.reserved.columnList = t'.columnList ∧
        Table.reserved.columnRecord ≠ t'.columnRecord) ∧
      Table.declare (.text "db") (.text "t") (typeTexts obstructedColumns) =
        .error (.unassignable "name") ∧
      ∃ t', Table.register (.text "db") (.text "t") (.record (typeTexts obstructedColumns)) =
          .ok t' ∧
        t'.RecordedBut [] ∧ ∃ field, Obstructs (columnNames t'.columns) field ∧
          Table.declare (.text "db") (.text "t") (typeTexts obstructedColumns) =
            .error (.unassignable field) := by
  obtain ⟨together, declared, registered⟩ :=
    declared_as_registered (.text "db") (.text "t") reservedColumns
  obtain ⟨broken, _, registered'⟩ :=
    declared_as_registered (.text "db") (.text "t") obstructedColumns
  have hbroken : Table.declare (.text "db") (.text "t") (typeTexts obstructedColumns) =
      .error (.unassignable "name") := by decide
  refine ⟨Table.reserved_declared, declared _ _ Table.reserved_declared, ?_, hbroken, ?_⟩
  · rcases together with ⟨_, _, hrefused, _⟩ | ⟨t', ht', ⟨t, ht, _, _, hlist, hrecord⟩ |
      ⟨_, _, hdefect⟩⟩
    · rw [Table.reserved_declared] at hrefused
      cases hrefused
    · obtain rfl : Table.reserved = t := Except.ok.inj (Table.reserved_declared.symm.trans ht)
      have hreserved : reservedKey ∈ columnNames Table.reserved.columns := by decide
      exact ⟨t', ht', registered _ _ ht', hlist, fun hsame => hrecord.mp hsame hreserved⟩
    · rw [Table.reserved_declared] at hdefect
      cases hdefect
  · rcases broken with ⟨_, _, hrefused, _⟩ | ⟨t', ht', ⟨t, ht, _⟩ | hobstructed⟩
    · rw [hbroken] at hrefused
      cases hrefused
    · rw [hbroken] at ht
      cases ht
    · exact ⟨t', ht', registered' _ _ ht', hobstructed⟩

/-- **A declared column need not be shown under its name**, though it is listed; registered, it
    is shown. -/
theorem listed_column_not_shown :
    (∃ t, Table.declare (.text "db") (.text "t")
          [("id", "integer"), ("__proto__", "string"), ("z", "long")] = .ok t ∧
        t.columnList.map ColumnDefinition.name = ["id", "__proto__", "z"] ∧
        t.columnRecord.map Prod.fst = ["id", "z"]) ∧
      ∃ t, Table.register (.text "db") (.text "t")
          (.record [("id", "integer"), ("__proto__", "string"), ("z", "long")]) = .ok t ∧
        t.columnRecord.map Prod.fst = ["id", "__proto__", "z"] := by
  have hregister : Table.register (.text "db") (.text "t") (.record (typeTexts reservedColumns)) =
      .ok { Table.reserved with record := recordOfEntries Table.reserved.columns } := by
    rw [Table.register_record]
    decide
  exact ⟨⟨.reserved, Table.reserved_declared, rfl, rfl⟩, _, hregister, rfl⟩

end QueryPipeline
