import QueryPipeline.Proofs.Snapshots

/-!
# Projections

Which columns a selection of names keeps, and what a second selection makes of them. A projection
has the given names and columns of the schema (`Schema.project_eq_ok_iff`). Names are distinct in
both of them, so that a name stands for the same column wherever it is kept.

* `Schema.exists_project_iff`: there is a projection iff the names are distinct and known;
* `Schema.project_project`: a projection of a projection is one of the schema itself, by names that
  were kept; `Schema.project_names_of_append`: columns that were put behind are dropped again;
* `resolve_select_names` and `resolve_distinct_names` say this of requests by names;
* **`projection_laws`** puts them together.
-/

namespace QueryPipeline

variable {s t u : Schema} {names more : List String} {r : Resolved}

/-! ## 1. Projections of a schema -/

namespace Schema

/-- Known names are those of some columns of the schema. -/
theorem exists_columns (h : ∀ n ∈ names, n ∈ s.names) :
    ∃ columns, columnNames columns = names ∧ ∀ c ∈ columns, c ∈ s.columns := by
  induction names with
  | nil => exact ⟨[], rfl, fun c hc => absurd hc List.not_mem_nil⟩
  | cons n rest ih =>
    obtain ⟨hn, hrest⟩ := List.forall_mem_cons.mp h
    obtain ⟨c, hc, rfl⟩ := List.mem_map.mp hn
    obtain ⟨columns, rfl, hmem⟩ := ih hrest
    exact ⟨c :: columns, rfl, List.forall_mem_cons.mpr ⟨hc, hmem⟩⟩

/-- **There is a projection iff the names are distinct and known.** -/
theorem exists_project_iff :
    (∃ t, s.project names = .ok t) ↔ names.Nodup ∧ ∀ n ∈ names, n ∈ s.names := by
  constructor
  · intro h
    obtain ⟨t, h⟩ := h
    obtain ⟨rfl, hmem⟩ := project_eq_ok_iff.mp h
    exact ⟨t.distinct, fun n => names_subset hmem⟩
  · intro h
    obtain ⟨hnodup, hknown⟩ := h
    obtain ⟨columns, rfl, hmem⟩ := exists_columns hknown
    exact ⟨⟨columns, hnodup⟩, project_eq_ok_iff.mpr ⟨rfl, hmem⟩⟩

/-- **A projection of a projection** is one of the schema, by names that were kept. -/
theorem project_project (h : s.project names = .ok t) :
    t.project more = .ok u ↔ s.project more = .ok u ∧ ∀ n ∈ more, n ∈ names := by
  obtain ⟨rfl, hkept⟩ := project_eq_ok_iff.mp h
  simp only [project_eq_ok_iff]
  constructor
  · intro h
    obtain ⟨rfl, hmem⟩ := h
    exact ⟨⟨rfl, fun c hc => hkept c (hmem c hc)⟩, fun n => names_subset hmem⟩
  · intro h
    obtain ⟨⟨rfl, hmem⟩, hnames⟩ := h
    refine ⟨rfl, fun c hc => ?_⟩
    -- the column that was kept under this name is the only one of the schema with it
    obtain ⟨d, hd, hname⟩ := List.mem_map.mp (hnames c.name (List.mem_map_of_mem hc))
    obtain rfl := List.inj_on_of_nodup_map s.distinct (hkept d hd) (hmem c hc) hname
    exact hd

/-- **Columns that were put behind a schema are dropped again** by its own names. -/
theorem project_names_of_append {columns : List Column} (h : s.append columns = .ok t) :
    t.project s.names = .ok s := by
  refine project_eq_ok_iff.mpr ⟨rfl, fun c hc => ?_⟩
  rw [ofColumns_eq_ok.mp h]
  exact List.mem_append_left _ hc

theorem project_names (s : Schema) : s.project s.names = .ok s :=
  project_eq_ok_iff.mpr ⟨rfl, fun _ hc => hc⟩

theorem names_ne_nil (h : s.columns ≠ []) : s.names ≠ [] :=
  fun hempty => h (List.map_eq_nil_iff.mp hempty)

end Schema

/-! ## 2. Requests by names -/

theorem columnInputs_names :
    (names.map ColumnInput.name).map ColumnInput.toExpr = more.map Expr.column ↔ more = names := by
  have hinjective : Function.Injective Expr.column := fun _ _ h => Expr.column.inj h
  rw [List.map_map, eq_comm]
  exact (List.map_injective_iff.mpr hinjective).eq_iff

/-- A selection of names is accepted iff there are some and they have a projection. -/
theorem resolve_select_names :
    s.resolve (.select (names.map .name)) = .ok r ↔
      names ≠ [] ∧ ∃ t, s.project names = .ok t ∧ r = ⟨.select (names.map .column), t⟩ := by
  have hempty : names.map ColumnInput.name ≠ [] ↔ names ≠ [] := List.map_eq_nil_iff.not
  refine resolveSelect_eq_ok.trans ?_
  simp only [columnInputs_names, hempty]
  constructor
  · rintro ⟨_, t, hne, rfl, ht, rfl⟩
    exact ⟨hne, t, ht, rfl⟩
  · rintro ⟨hne, t, ht, rfl⟩
    exact ⟨names, t, hne, rfl, ht, rfl⟩

/-- Distinct rows by names are accepted iff the names have a projection. -/
theorem resolve_distinct_names (hne : names ≠ []) :
    s.resolve (.distinct (names.map .name)) = .ok r ↔
      ∃ t, s.project names = .ok t ∧ r = ⟨.distinct (names.map .column), t⟩ := by
  have hempty : ¬ names.isEmpty = true := by simpa using hne
  refine resolveDistinct_eq_ok.trans ?_
  simp only [columnInputs_names]
  constructor
  · rintro ⟨_, t, rfl, ht, rfl⟩
    rw [if_neg hempty] at ht
    exact ⟨t, ht, rfl⟩
  · rintro ⟨t, ht, rfl⟩
    exact ⟨names, t, rfl, by rw [if_neg hempty]; exact ht, rfl⟩

/-- A request that puts columns behind those of the schema. -/
def ClauseRequest.Appends : ClauseRequest → Prop
  | extend _ | join _ _ _ => True
  | _ => False

theorem resolve_appends {request : ClauseRequest} (hrequest : request.Appends)
    (h : s.resolve request = .ok r) : ∃ columns, s.append columns = .ok r.schema := by
  cases request with
  | extend inputs =>
    obtain ⟨computed, schema, _, _, hschema, rfl⟩ := resolveExtend_eq_ok.mp h
    exact ⟨_, hschema⟩
  | join other kind condition =>
    obtain ⟨_, otherSchema, combined, _, _, _, hcombined, _, rfl⟩ := resolveJoin_eq_ok.mp h
    exact ⟨_, hcombined⟩
  | _ => exact absurd hrequest id

/-! ## 3. Laws of selections -/

/-- **Laws of selections and distinct rows**, on every schema. After a selection of names, another
    one is accepted iff it has names, each of them once and each of them selected before; it gives
    what it gives on the schema itself. The names of a schema with columns select that schema, also
    after a request that put columns behind it. Distinct rows by names leave the schema that the
    selection of them leaves, and are accepted with it; without names they leave the schema as it
    is. -/
theorem projection_laws (s : Schema) :
    (∀ (names : List String) (first : Resolved),
      s.resolve (.select (names.map .name)) = .ok first → ∀ more : List String,
        ((∃ second, first.schema.resolve (.select (more.map .name)) = .ok second) ↔
          more ≠ [] ∧ more.Nodup ∧ ∀ n ∈ more, n ∈ names) ∧
        ∀ second, first.schema.resolve (.select (more.map .name)) = .ok second →
          s.resolve (.select (more.map .name)) = .ok second) ∧
    (s.columns ≠ [] →
      (∃ r, s.resolve (.select (s.names.map .name)) = .ok r ∧ r.schema = s) ∧
      ∀ request wider, request.Appends → s.resolve request = .ok wider →
        ∃ r, wider.schema.resolve (.select (s.names.map .name)) = .ok r ∧ r.schema = s) ∧
    (∀ names : List String, names ≠ [] → ∀ t,
      (∃ r, s.resolve (.distinct (names.map .name)) = .ok r ∧ r.schema = t) ↔
        ∃ r, s.resolve (.select (names.map .name)) = .ok r ∧ r.schema = t) ∧
    ∃ r, s.resolve (.distinct []) = .ok r ∧ r.schema = s := by
  refine ⟨fun names first hfirst more => ?_,
    fun hs => ⟨?_, fun request wider hrequest hwider => ?_⟩,
    fun names hne t => ?_, _, rfl, rfl⟩
  · obtain ⟨_, t, ht, rfl⟩ := resolve_select_names.mp hfirst
    obtain ⟨rfl, _⟩ := Schema.project_eq_ok_iff.mp ht
    constructor
    · rw [← Schema.exists_project_iff (s := t)]
      simp only [resolve_select_names]
      constructor
      · rintro ⟨_, hne, u, hu, _⟩
        exact ⟨hne, u, hu⟩
      · rintro ⟨hne, u, hu⟩
        exact ⟨_, hne, u, hu, rfl⟩
    · intro second hsecond
      obtain ⟨hne, u, hu, rfl⟩ := resolve_select_names.mp hsecond
      obtain ⟨hschema, _⟩ := (Schema.project_project ht).mp hu
      exact resolve_select_names.mpr ⟨hne, u, hschema, rfl⟩
  · exact ⟨_, resolve_select_names.mpr ⟨Schema.names_ne_nil hs, s, s.project_names, rfl⟩, rfl⟩
  · obtain ⟨columns, hcolumns⟩ := resolve_appends hrequest hwider
    have hback := Schema.project_names_of_append hcolumns
    exact ⟨_, resolve_select_names.mpr ⟨Schema.names_ne_nil hs, s, hback, rfl⟩, rfl⟩
  · simp only [resolve_distinct_names hne, resolve_select_names]
    constructor
    · rintro ⟨_, ⟨t, ht, rfl⟩, rfl⟩
      exact ⟨_, ⟨hne, t, ht, rfl⟩, rfl⟩
    · rintro ⟨_, ⟨_, t, ht, rfl⟩, rfl⟩
      exact ⟨_, ⟨t, ht, rfl⟩, rfl⟩

/-- A join with the teams. -/
def ClauseRequest.withTeams : ClauseRequest :=
  .join Table.teams "inner" (.binary (.comparison .equal) (.column "team") (.column "team_id"))

/-- After the names and ages of the people are selected, the ages alone can be and the teams cannot;
    a join with the teams is followed by the columns of the people again. -/
theorem projection_laws_people :
    (∃ first second, Pipeline.ofPeople.origin.resolve (.select [.name "name", .name "age"]) =
        .ok first ∧
      first.schema.resolve (.select [.name "age"]) = .ok second ∧
      Pipeline.ofPeople.origin.resolve (.select [.name "age"]) = .ok second ∧
      ¬ ∃ third, first.schema.resolve (.select [.name "team"]) = .ok third) ∧
    (Pipeline.ofPeople.origin.columns ≠ [] ∧ ClauseRequest.Appends .withTeams ∧
      ∃ wider r, Pipeline.ofPeople.origin.resolve .withTeams = .ok wider ∧
        wider.schema.resolve
          (.select [.name "id", .name "name", .name "age", .name "team"]) = .ok r ∧
        r.schema = Pipeline.ofPeople.origin) ∧
    ["team"] ≠ [] ∧
      ∃ r, Pipeline.ofPeople.origin.resolve (.distinct [.name "team"]) = .ok r ∧
        r.schema.names = ["team"] := by
  obtain ⟨hselect, hnames, hdistinct, _⟩ := projection_laws Pipeline.ofPeople.origin
  have hfirst : Pipeline.ofPeople.origin.resolve (.select [.name "name", .name "age"]) =
      .ok ⟨.select [.column "name", .column "age"],
        ⟨[⟨"name", .string⟩, ⟨"age", .integer⟩], by decide⟩⟩ := rfl
  obtain ⟨hage, hsame⟩ := hselect ["name", "age"] _ hfirst ["age"]
  obtain ⟨second, hsecond⟩ := hage.mpr (by decide)
  refine ⟨⟨_, second, hfirst, hsecond, hsame second hsecond, fun hteam => ?_⟩, ?_, by decide, ?_⟩
  · have hkept := ((hselect ["name", "age"] _ hfirst ["team"]).1.mp hteam).2.2
    exact absurd hkept (by decide)
  · have hcolumns : Pipeline.ofPeople.origin.columns ≠ [] := by decide
    obtain ⟨wider, hwider⟩ : ∃ wider, Pipeline.ofPeople.origin.resolve .withTeams = .ok wider :=
      ⟨_, rfl⟩
    obtain ⟨r, hr, hback⟩ := (hnames hcolumns).2 .withTeams wider trivial hwider
    exact ⟨hcolumns, trivial, wider, r, hwider, hr, hback⟩
  · have hteam : ["team"] ≠ [] := by decide
    obtain ⟨r, hr, hschema⟩ := (hdistinct ["team"] hteam ⟨[⟨"team", .integer⟩], by decide⟩).mpr
      ⟨⟨.select [.column "team"], ⟨[⟨"team", .integer⟩], by decide⟩⟩, rfl, rfl⟩
    exact ⟨r, hr, hschema ▸ rfl⟩

end QueryPipeline
