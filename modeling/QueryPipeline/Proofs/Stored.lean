import QueryPipeline.Proofs.Expressions
import QueryPipeline.Proofs.Renaming
import QueryPipeline.Proofs.Runs
import QueryPipeline.Proofs.Selections
import QueryPipeline.Proofs.Words

/-!
# Stored clauses

What is known of the expressions in the clauses of a pipeline, whichever requests it accepted.

* `Clause.Typed before after`: each expression of the clause has a type, on the schema and in the
  mode of its place, and stands for a column where its kind asks for one;
* **`resolve_typed`**: what a request resolves to is such a clause;
* `Clause.TypedIn S` keeps of it that there is a schema with the property `S`, whichever it is;
* **`resolve_identifiers`**: the names of columns stay identifiers.
-/

namespace QueryPipeline

/-! ## 1. Typed expressions -/

/-- The expressions of a clause. -/
def Clause.exprs : Clause → List Expr
  | select columns | extend columns | rename columns | distinct columns => columns
  | filter predicate => [predicate]
  | groupBy keys selections having => keys ++ selections ++ having.toList
  | orderBy terms => terms.map OrderTerm.toExpr
  | join _ _ condition => [condition]
  | limit _ | offset _ | foreign _ _ => []

/-- A clause whose expressions have types: on the schema before it, a condition on groups and the
    condition of a join on the schema after it. Aggregates are accepted in groupings only. -/
def Clause.Typed (before after : Schema) : Clause → Prop
  | select columns | distinct columns => ∀ e ∈ columns, ∃ n, e = .column n ∧ before.has n = true
  | extend columns => ∀ e ∈ columns, ∃ type, e.infer before {} = .ok type
  | rename columns => ∀ e ∈ columns, ∃ pair, e = renamedColumn pair ∧ before.has pair.1 = true
  | filter predicate => predicate.infer before {} = .ok .boolean
  | groupBy keys selections having =>
    (∀ e ∈ keys, ∃ n, e = .column n ∧ before.has n = true) ∧
      (∀ e ∈ selections, ∃ type, e.infer before .grouped = .ok type) ∧
      ∀ e ∈ having, e.infer after .grouped = .ok .boolean
  | orderBy terms => ∀ t ∈ terms, ∃ type, t.term.infer before {} = .ok type
  | limit _ | offset _ => True
  | join _ _ condition => condition.infer after {} = .ok .boolean
  | foreign _ _ => False

/-- An expression with a type in a schema that has the given property. -/
def Expr.TypedIn (S : Schema → Prop) (e : Expr) : Prop :=
  ∃ s mode type, S s ∧ e.infer s mode = .ok type

theorem Expr.TypedIn.checked {S : Schema → Prop} {e : Expr} (h : e.TypedIn S) :
    ∃ s, S s ∧ e.Checked s := by
  obtain ⟨s, mode, type, hs, h⟩ := h
  exact ⟨s, hs, checked_of_infer h⟩

/-- A clause whose expressions have types in schemas with the given property. -/
def Clause.TypedIn (S : Schema → Prop) : Clause → Prop
  | select columns | distinct columns => ∀ e ∈ columns, (∃ n, e = .column n) ∧ e.TypedIn S
  | extend columns => ∀ e ∈ columns, e.TypedIn S
  | rename columns => ∀ e ∈ columns, (∃ pair, e = renamedColumn pair) ∧ e.TypedIn S
  | filter predicate => predicate.TypedIn S
  | groupBy keys selections having =>
    (∀ e ∈ keys, (∃ n, e = .column n) ∧ e.TypedIn S) ∧ (∀ e ∈ selections, e.TypedIn S) ∧
      ∀ e ∈ having, e.TypedIn S
  | orderBy terms => ∀ t ∈ terms, t.term.TypedIn S
  | limit _ | offset _ => True
  | join _ _ condition => condition.TypedIn S
  | foreign _ _ => False

variable {S : Schema → Prop} {s : Schema} {r : Resolved}

/-- A column of the schema has its type, in every mode. -/
theorem Schema.infer_column {n : String} (h : s.has n = true) (mode : Mode) :
    ∃ type, (Expr.column n).infer s mode = .ok type := by
  obtain ⟨c, hc⟩ := Schema.has_iff_get.mp h
  exact ⟨c.type, by rw [Expr.infer, hc]; rfl⟩

/-- **A typed clause is typed in a property that its two schemas have.** -/
theorem Clause.Typed.typedIn {before after : Schema} {c : Clause} (h : c.Typed before after)
    (hbefore : S before) (hafter : S after) : c.TypedIn S := by
  have column {n : String} (hn : before.has n = true) : (Expr.column n).TypedIn S := by
    obtain ⟨type, htype⟩ := Schema.infer_column hn {}
    exact ⟨before, {}, type, hbefore, htype⟩
  have columns {es : List Expr} (hes : ∀ e ∈ es, ∃ n, e = .column n ∧ before.has n = true) :
      ∀ e ∈ es, (∃ n, e = .column n) ∧ e.TypedIn S := by
    intro e he
    obtain ⟨n, rfl, hn⟩ := hes e he
    exact ⟨⟨n, rfl⟩, column hn⟩
  cases c with
  | select es => exact columns h
  | distinct es => exact columns h
  | extend es =>
    intro e he
    obtain ⟨type, htype⟩ := h e he
    exact ⟨before, {}, type, hbefore, htype⟩
  | rename es =>
    intro e he
    obtain ⟨pair, rfl, hpair⟩ := h e he
    exact ⟨⟨pair, rfl⟩, column hpair⟩
  | filter predicate => exact ⟨before, {}, .boolean, hbefore, h⟩
  | groupBy keys selections having =>
    obtain ⟨hkeys, hselections, hhaving⟩ := h
    refine ⟨columns hkeys, fun e he => ?_, fun e he => ?_⟩
    · obtain ⟨type, htype⟩ := hselections e he
      exact ⟨before, .grouped, type, hbefore, htype⟩
    · exact ⟨after, .grouped, .boolean, hafter, hhaving e he⟩
  | orderBy terms =>
    intro t ht
    obtain ⟨type, htype⟩ := h t ht
    exact ⟨before, {}, type, hbefore, htype⟩
  | limit count => trivial
  | offset count => trivial
  | join other kind condition => exact ⟨after, {}, .boolean, hafter, h⟩
  | foreign kind source => exact h

/-! ## 2. What the checks leave -/

theorem Schema.project_has {names : List String} {schema : Schema}
    (h : s.project names = .ok schema) :
    ∀ e ∈ names.map Expr.column, ∃ n, e = .column n ∧ s.has n = true := by
  obtain ⟨rfl, hmem⟩ := project_eq_ok_iff.mp h
  intro e he
  obtain ⟨n, hn, rfl⟩ := List.mem_map.mp he
  exact ⟨n, rfl, has_iff.mpr (names_subset hmem hn)⟩

theorem computedColumns_typed {earlier : List String} {inputs : List ColumnInput}
    {computed : List (Aliased × Column)} (h : computedColumns s earlier inputs = .ok computed) :
    ∀ c ∈ computed, c.1.toExpr.infer s {} = .ok c.2.type :=
  fun c hc => ((computedColumns_eq_ok.mp h).2.1 c hc).2.2

theorem checkPairs_sources {earlier pairs : List (String × String)}
    (h : checkPairs s earlier pairs = .ok ()) : ∀ pair ∈ pairs, s.has pair.1 = true :=
  fun pair hp => ((checkPairs_eq_ok.mp h).1 pair.1 (List.mem_map_of_mem hp)).1

theorem checkTerms_typed {terms : List OrderTerm} (h : checkTerms s terms = .ok ()) :
    ∀ t ∈ terms, ∃ type, t.term.infer s {} = .ok type := by
  induction terms with
  | nil => exact fun t ht => absurd ht List.not_mem_nil
  | cons t rest ih =>
    simp only [checkTerms, Outcome.bind_eq_ok] at h
    obtain ⟨type, htype, h⟩ := h
    intro u hu
    rcases List.mem_cons.mp hu with rfl | hu
    · exact ⟨type, htype⟩
    · exact ih h u hu

/-- **What a request resolves to is typed.** -/
theorem resolve_typed {request : ClauseRequest} (h : s.resolve request = .ok r) :
    r.clause.Typed s r.schema := by
  cases request with
  | select columns =>
    obtain ⟨names, schema, _, _, hschema, rfl⟩ := resolveSelect_eq_ok.mp h
    exact Schema.project_has hschema
  | extend columns =>
    obtain ⟨computed, schema, _, hcomputed, _, rfl⟩ := resolveExtend_eq_ok.mp h
    intro e he
    obtain ⟨c, hc, rfl⟩ := List.mem_map.mp he
    exact ⟨c.2.type, computedColumns_typed hcomputed c hc⟩
  | rename input =>
    obtain ⟨schema, _, hpairs, _, _, rfl⟩ := resolveRename_eq_ok.mp h
    intro e he
    obtain ⟨pair, hp, rfl⟩ := List.mem_map.mp he
    exact ⟨pair, rfl, checkPairs_sources hpairs pair hp⟩
  | filter predicate =>
    obtain ⟨htype, rfl⟩ := resolveFilter_eq_ok.mp h
    exact htype
  | groupBy g =>
    obtain ⟨columns, grouped, _, _, hkeys, hcolumns, _, hhaving, rfl⟩ :=
      resolveGroupBy_eq_ok.mp h
    have hselectable := (selectionColumns_eq_ok.mp hcolumns).1
    refine ⟨fun e he => ?_, fun e he => (hselectable e he).typed,
      fun e he => (checkHaving_eq_ok.mp hhaving e he).2⟩
    obtain ⟨key, hk, rfl⟩ := List.mem_map.mp he
    exact ⟨key, rfl, checkKeys_eq_ok.mp hkeys key hk⟩
  | orderBy inputs =>
    obtain ⟨_, hterms, rfl⟩ := resolveOrderBy_eq_ok.mp h
    exact checkTerms_typed hterms
  | limit count =>
    obtain ⟨_, rfl⟩ := resolveLimit_eq_ok.mp h
    trivial
  | offset count =>
    obtain ⟨_, rfl⟩ := resolveOffset_eq_ok.mp h
    trivial
  | distinct columns =>
    obtain ⟨names, schema, _, hschema, rfl⟩ := resolveDistinct_eq_ok.mp h
    cases names with
    | nil => exact fun e he => absurd he List.not_mem_nil
    | cons n ns => exact Schema.project_has hschema
  | join other kind condition =>
    obtain ⟨_, _, _, _, _, _, _, hcondition, rfl⟩ := resolveJoin_eq_ok.mp h
    exact hcondition

/-! ## 3. Names of columns -/

/-- A schema whose columns are named by identifiers. -/
def Schema.Identified (s : Schema) : Prop := ∀ n ∈ s.names, isIdentifier n = true

theorem computedColumns_names {earlier : List String} {inputs : List ColumnInput}
    {computed : List (Aliased × Column)} (h : computedColumns s earlier inputs = .ok computed) :
    ∀ c ∈ computed, isIdentifier c.1.name = true ∧ c.2.name = c.1.name := by
  intro c hc
  obtain ⟨hid, hname, _⟩ := (computedColumns_eq_ok.mp h).2.1 c hc
  exact ⟨hid, hname⟩

theorem checkPairs_targets {earlier pairs : List (String × String)}
    (h : checkPairs s earlier pairs = .ok ()) : ∀ pair ∈ pairs, isIdentifier pair.2 = true :=
  fun pair hp => ((checkPairs_eq_ok.mp h).2.1 pair.2 (List.mem_map_of_mem hp)).1

/-- The name of a selection is an identifier: its alias, a column, or its position. -/
theorem selectionName_identifier (hs : s.Identified) {mode : Mode} {type : ColumnType}
    {position : Nat} {e : Expr} {name : String} (htype : e.infer s mode = .ok type)
    (h : selectionName position e = .ok name) : isIdentifier name = true := by
  cases e with
  | named given inner => exact (requireIdentifier_text_eq_ok.mp h).2
  | column given =>
    cases h
    obtain ⟨c, hc, _⟩ := Outcome.bind_eq_ok.mp htype
    exact hs _ (Schema.has_iff.mp (Schema.has_iff_get.mpr ⟨c, hc⟩))
  | _ =>
    cases h
    exact isIdentifier_position position

theorem selectionColumns_identifiers (hs : s.Identified) {keys : List String} {position : Nat}
    {es : List Expr} {columns : List Column}
    (h : selectionColumns s keys position es = .ok columns) :
    ∀ c ∈ columns, isIdentifier c.name = true := by
  induction es generalizing position columns with
  | nil =>
    cases h
    exact fun c hc => absurd hc List.not_mem_nil
  | cons e rest ih =>
    obtain ⟨type, name, more, _, htype, hname, hmore, rfl⟩ := selectionColumns_cons_eq_ok.mp h
    intro c hc
    rcases List.mem_cons.mp hc with rfl | hc
    · exact selectionName_identifier hs htype hname
    · exact ih hmore c hc

theorem Schema.identified_iff : s.Identified ↔ ∀ c ∈ s.columns, isIdentifier c.name = true := by
  simp [Identified, names, columnNames]

theorem Schema.project_identified (hs : s.Identified) {names : List String} {schema : Schema}
    (h : s.project names = .ok schema) : schema.Identified := by
  obtain ⟨_, hmem⟩ := project_eq_ok_iff.mp h
  exact identified_iff.mpr fun c hc => identified_iff.mp hs c (hmem c hc)

theorem Schema.append_identified (hs : s.Identified) {columns : List Column} {schema : Schema}
    (hcolumns : ∀ c ∈ columns, isIdentifier c.name = true)
    (h : s.append columns = .ok schema) : schema.Identified := by
  rw [identified_iff, ofColumns_eq_ok.mp h]
  intro c hc
  rcases List.mem_append.mp hc with hc | hc
  · exact identified_iff.mp hs c hc
  · exact hcolumns c hc

/-- **The names of columns stay identifiers**, if the columns of joined tables have such names. -/
theorem resolve_identifiers (hs : s.Identified) {request : ClauseRequest}
    (joined : ∀ other, request.joined? = some other → other.WellNamed)
    (h : s.resolve request = .ok r) : r.schema.Identified := by
  cases request with
  | select columns =>
    obtain ⟨names, schema, _, _, hschema, rfl⟩ := resolveSelect_eq_ok.mp h
    exact Schema.project_identified hs hschema
  | extend columns =>
    obtain ⟨computed, schema, _, hcomputed, hschema, rfl⟩ := resolveExtend_eq_ok.mp h
    refine Schema.append_identified hs (fun c hc => ?_) hschema
    obtain ⟨pair, hpair, rfl⟩ := List.mem_map.mp hc
    obtain ⟨hid, hname⟩ := computedColumns_names hcomputed pair hpair
    exact hname ▸ hid
  | rename input =>
    obtain ⟨schema, _, hpairs, _, hschema, rfl⟩ := resolveRename_eq_ok.mp h
    rw [Schema.identified_iff, Schema.ofColumns_eq_ok.mp hschema]
    intro c hc
    obtain ⟨old, hold, rfl⟩ := List.mem_map.mp hc
    show isIdentifier (Schema.renamed input.pairs old.name) = true
    rcases Schema.renamed_spec input.pairs old.name with hpair | ⟨_, e⟩
    · have hid := checkPairs_targets hpairs _ hpair
      exact hid
    · rw [e]
      exact Schema.identified_iff.mp hs old hold
  | filter predicate =>
    obtain ⟨_, rfl⟩ := resolveFilter_eq_ok.mp h
    exact hs
  | groupBy g =>
    obtain ⟨columns, grouped, _, _, _, hcolumns, hgrouped, _, rfl⟩ := resolveGroupBy_eq_ok.mp h
    rw [Schema.identified_iff, Schema.ofColumns_eq_ok.mp hgrouped]
    exact selectionColumns_identifiers hs hcolumns
  | orderBy inputs =>
    obtain ⟨_, _, rfl⟩ := resolveOrderBy_eq_ok.mp h
    exact hs
  | limit count =>
    obtain ⟨_, rfl⟩ := resolveLimit_eq_ok.mp h
    exact hs
  | offset count =>
    obtain ⟨_, rfl⟩ := resolveOffset_eq_ok.mp h
    exact hs
  | distinct columns =>
    obtain ⟨names, schema, _, hschema, rfl⟩ := resolveDistinct_eq_ok.mp h
    cases names with
    | nil =>
      cases hschema
      exact hs
    | cons n ns => exact Schema.project_identified hs hschema
  | join other kind condition =>
    obtain ⟨_, otherSchema, combined, _, hother, _, hcombined, _, rfl⟩ := resolveJoin_eq_ok.mp h
    have named := joined other rfl
    rw [named.schema_eq] at hother
    cases hother
    exact Schema.append_identified hs
      (fun c hc => named.columns c.name (List.mem_map_of_mem hc)) hcombined

/-! ## 4. Runs -/

/-- **Every stored clause is typed**, on some schema before it and some schema after it. -/
theorem Accepts.typed_between {p q : Pipeline} {given : List ClauseRequest} (h : Accepts p given q)
    (fresh : p.history = []) : ∀ c ∈ q.clauses, ∃ before after, c.Typed before after :=
  (h.invariant (P := fun _ => True) fresh trivial
    fun s _ _ _ r hr => ⟨trivial, s, r.schema, resolve_typed hr⟩).2

theorem Accepts.typed {p q : Pipeline} {given : List ClauseRequest} (h : Accepts p given q)
    (fresh : p.history = []) : ∀ c ∈ q.clauses, c.TypedIn fun _ => True := by
  intro c hc
  obtain ⟨before, after, hc⟩ := h.typed_between fresh c hc
  exact hc.typedIn trivial trivial

end QueryPipeline
