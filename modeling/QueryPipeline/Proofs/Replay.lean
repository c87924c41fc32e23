import QueryPipeline.Proofs.Acceptance
import QueryPipeline.Proofs.Runs

/-!
# Replaying a history

A stored clause can be read back as a request, and resolving that request on the schema before the
clause gives the clause and the schema after it once more.

* `Clause.request?` reads a clause back. A stored join keeps only the name of the other table, so
  the table itself is given from outside;
* `resolve_request?`: what a request resolved to is a fixed point of reading back and resolving;
* **`run_replays`**: in every run from a made table, the whole history of every pipeline replays
  in this way.
-/

namespace QueryPipeline

/-! ## 1. Reading a clause back -/

/-- The source and the target of a renamed column. -/
def renamedPair? : Expr → Option (String × String)
  | .named target (.column source) => some (source, target)
  | _ => none

/-- The request that a stored clause stands for, given the table that it joins. -/
def Clause.request? (joined : Option Table) : Clause → Option ClauseRequest
  | .select columns => some (.select (columns.map .node))
  | .extend columns => some (.extend (columns.map .node))
  | .rename columns => do return .rename (.list (← columns.mapM renamedPair?))
  | .filter predicate => some (.filter predicate)
  | .groupBy keys selections having =>
    some (.groupBy (.ofInputs (selections.map .node) (keys.map .node) having))
  | .orderBy terms => some (.orderBy (terms.map fun t => .node t.toExpr))
  | .limit count => some (.limit count)
  | .offset count => some (.offset count)
  | .distinct columns => some (.distinct (columns.map .node))
  | .join _ kind condition => do return .join (← joined) kind.text condition
  | .foreign _ _ => none

/-! ## 2. Reading back what was stored -/

theorem map_toExpr_node (es : List Expr) :
    (es.map ColumnInput.node).map ColumnInput.toExpr = es := by
  rw [List.map_map]
  exact List.map_id es

theorem mapM_renamedPair? (pairs : List (String × String)) :
    (pairs.map renamedColumn).mapM renamedPair? = some pairs := by
  induction pairs with
  | nil => rfl
  | cons pair rest ih =>
    rw [List.map_cons, List.mapM_cons, ih]
    rfl

/-- The keys of a grouping are read back from the references that are stored for them. -/
theorem ofInputs_stored (g : Grouping) :
    Grouping.ofInputs (g.selections.map .node) ((g.keys.map Expr.column).map .node) g.having =
      g := by
  have hkeys : ((g.keys.map Expr.column).map ColumnInput.node).map ColumnInput.columnName =
      g.keys := by
    rw [List.map_map, List.map_map]
    exact List.map_id g.keys
  unfold Grouping.ofInputs
  rw [hkeys, map_toExpr_node]

theorem map_orderTerm_stored (terms : List OrderTerm) :
    (terms.map fun t => ColumnInput.node t.toExpr).map orderTerm = terms := by
  rw [List.map_map]
  exact List.map_id terms

/-! ## 3. One clause -/

section Clause

variable {s : Schema} {r : Resolved}

theorem select_request? {columns : List ColumnInput} {joined : Option Table}
    (h : resolveSelect s columns = .ok r) :
    ∃ again, r.clause.request? joined = some again ∧ s.resolve again = .ok r := by
  obtain ⟨names, schema, hne, hnames, hschema, rfl⟩ := resolveSelect_eq_ok.mp h
  have hcount : columns.length = names.length := by simpa using congrArg List.length hnames
  refine ⟨_, rfl, resolveSelect_eq_ok.mpr ⟨names, schema, ?_, map_toExpr_node _, hschema, rfl⟩⟩
  intro e
  simp only [List.map_eq_nil_iff] at e
  rw [e] at hcount
  exact hne (List.eq_nil_of_length_eq_zero hcount)

theorem distinct_request? {columns : List ColumnInput} {joined : Option Table}
    (h : resolveDistinct s columns = .ok r) :
    ∃ again, r.clause.request? joined = some again ∧ s.resolve again = .ok r := by
  obtain ⟨names, schema, _, hschema, rfl⟩ := resolveDistinct_eq_ok.mp h
  exact ⟨_, rfl, resolveDistinct_eq_ok.mpr ⟨names, schema, map_toExpr_node _, hschema, rfl⟩⟩

theorem extend_request? {columns : List ColumnInput} {joined : Option Table}
    (h : resolveExtend s columns = .ok r) :
    ∃ again, r.clause.request? joined = some again ∧ s.resolve again = .ok r := by
  obtain ⟨computed, schema, hne, hcomputed, hschema, rfl⟩ := resolveExtend_eq_ok.mp h
  have hinputs : (computed.map fun c => c.1.toExpr).map ColumnInput.node = columns := by
    rw [computedColumns_inputs hcomputed, List.map_map]
    rfl
  refine ⟨_, rfl, ?_⟩
  rw [hinputs]
  exact resolveExtend_eq_ok.mpr ⟨computed, schema, hne, hcomputed, hschema, rfl⟩

theorem rename_request? {input : RenameInput} {joined : Option Table}
    (h : resolveRename s input = .ok r) :
    ∃ again, r.clause.request? joined = some again ∧ s.resolve again = .ok r := by
  obtain ⟨schema, hne, hpairs, hcol, hschema, rfl⟩ := resolveRename_eq_ok.mp h
  refine ⟨.rename (.list input.pairs), ?_, ?_⟩
  · simp only [Clause.request?, mapM_renamedPair?]
    rfl
  · exact resolveRename_eq_ok.mpr ⟨schema, hne, hpairs, hcol, hschema, rfl⟩

theorem groupBy_request? {g : Grouping} {joined : Option Table}
    (h : resolveGroupBy s g = .ok r) :
    ∃ again, r.clause.request? joined = some again ∧ s.resolve again = .ok r := by
  have hstored := h
  obtain ⟨_, _, _, _, _, _, _, _, rfl⟩ := resolveGroupBy_eq_ok.mp h
  refine ⟨_, rfl, ?_⟩
  rw [ofInputs_stored]
  exact hstored

theorem orderBy_request? {inputs : List ColumnInput} {joined : Option Table}
    (h : resolveOrderBy s inputs = .ok r) :
    ∃ again, r.clause.request? joined = some again ∧ s.resolve again = .ok r := by
  obtain ⟨hne, hterms, rfl⟩ := resolveOrderBy_eq_ok.mp h
  refine ⟨_, rfl, resolveOrderBy_eq_ok.mpr ?_⟩
  rw [map_orderTerm_stored]
  exact ⟨by simpa using hne, hterms, rfl⟩

theorem join_request? {other : Table} {kind : String} {condition : Expr}
    (h : resolveJoin s other kind condition = .ok r) :
    ∃ again, r.clause.request? (some other) = some again ∧ s.resolve again = .ok r := by
  have hstored := h
  obtain ⟨k, _, _, hkind, _, _, _, _, rfl⟩ := resolveJoin_eq_ok.mp h
  obtain ⟨hread, hknown⟩ := requireJoinKind_eq_ok.mp hkind
  refine ⟨_, rfl, ?_⟩
  subst hread
  have hwritten : (JoinKind.ofText kind).text = kind := Vocabulary.text_read hknown
  rw [hwritten]
  exact hstored

/-- **What a request resolved to is a fixed point of reading back and resolving.** -/
theorem resolve_request? {request : ClauseRequest} (h : s.resolve request = .ok r) :
    ∃ again, r.clause.request? request.joined? = some again ∧ s.resolve again = .ok r := by
  cases request with
  | select columns => exact select_request? h
  | extend columns => exact extend_request? h
  | rename input => exact rename_request? h
  | filter predicate =>
    have hstored := h
    obtain ⟨_, rfl⟩ := resolveFilter_eq_ok.mp h
    exact ⟨_, rfl, hstored⟩
  | groupBy g => exact groupBy_request? h
  | orderBy inputs => exact orderBy_request? h
  | limit count =>
    have hstored := h
    obtain ⟨_, rfl⟩ := resolveLimit_eq_ok.mp h
    exact ⟨_, rfl, hstored⟩
  | offset count =>
    have hstored := h
    obtain ⟨_, rfl⟩ := resolveOffset_eq_ok.mp h
    exact ⟨_, rfl, hstored⟩
  | distinct columns => exact distinct_request? h
  | join other kind condition => exact join_request? h

end Clause

/-! ## 4. A whole history -/

/-- A pipeline whose history replays: each clause is what the request it stands for resolves to on
    the snapshot before it, together with the snapshot after it. `given` are the requests that
    were accepted, one for each clause; of them only the joined tables are used. -/
def Pipeline.Replays (p : Pipeline) (given : List ClauseRequest) : Prop :=
  given.length = p.clauses.length ∧
    ∀ i c, p.clauses[i]? = some c → ∃ request again before after,
      given[i]? = some request ∧ p.snapshots[i]? = some before ∧
        p.snapshots[i + 1]? = some after ∧ c.request? request.joined? = some again ∧
        before.resolve again = .ok ⟨c, after⟩

theorem Accepts.replays {p q : Pipeline} {given : List ClauseRequest} (h : Accepts p given q)
    (fresh : p.history = []) : q.Replays given := by
  refine ⟨?_, fun i c hc => ?_⟩
  · have hlen := h.keeps.2.2
    simp only [fresh, List.length_nil, Nat.zero_add] at hlen
    simp [Pipeline.clauses, hlen]
  · have hc' := hc
    rw [Pipeline.clauses, List.getElem?_map, Option.map_eq_some_iff] at hc'
    obtain ⟨r, hr, rfl⟩ := hc'
    obtain ⟨request, before, hrequest, hbefore, hres⟩ := h.resolved fresh hr
    obtain ⟨again, hagain, hres'⟩ := resolve_request? hres
    refine ⟨request, again, before, r.schema, hrequest, hbefore, ?_, hagain, hres'⟩
    rw [Pipeline.snapshots, List.getElem?_cons_succ, List.getElem?_map, hr]
    rfl

/-- **Every history of a run replays.** From a made table a pipeline starts, and every pipeline
    that a run of requests obtains from it has one snapshot more than clauses, begins with the
    schema of the table, ends with its own schema, and replays by requests of the run. -/
theorem run_replays {t : Table} (made : t.Made) (listening : Bool)
    (steps : List (Nat × Request)) :
    ∃ base schema, Pipeline.ofTable t listening = .ok base ∧ t.schema = .ok schema ∧
      ∀ p ∈ ((Session.start base).run steps).pipelines,
        p.snapshots.length = p.clauses.length + 1 ∧
        p.snapshots[0]? = some schema ∧
        p.snapshots.getLast? = some p.schema ∧
        ∃ given, Accepts base given p ∧ (∀ g ∈ given, ∃ e ∈ steps, g ∈ e.2.parts) ∧
          p.Replays given := by
  have named := made.wellNamed
  refine ⟨_, _, Pipeline.ofTable_wellNamed named listening, named.schema_eq, fun p hp => ?_⟩
  obtain ⟨given, haccepts, hgiven⟩ := Session.run_accepts hp
  refine ⟨p.length_snapshots, ?_, p.getLast?_snapshots, given, haccepts, hgiven,
    haccepts.replays rfl⟩
  show some p.origin = _
  rw [haccepts.keeps.2.1]

/-- A run that branches: a renaming that swaps two names, a join and a grouping after it, a page on
    the first pipeline, and a request that is refused. -/
def branchingRun : List (Nat × Request) :=
  [(0, .clause (.rename (.list [("id", "age"), ("age", "id")]))),
    (1, .leftJoin .teams (.binary (.comparison .equal) (.column "team") (.column "team_id"))),
    (2, .clause (.groupBy ⟨["name"], [.column "name", .call .max [.column "budget"]], none⟩)),
    (0, .page ⟨0x4024000000000000⟩ ⟨0x4014000000000000⟩),
    (0, .clause (.select [.name "salary"]))]

/-- The refused request adds no pipeline, and the page adds one with two clauses. -/
theorem run_replays_branching :
    Table.people.Made ∧
      ∃ base schema, Pipeline.ofTable .people true = .ok base ∧ Table.people.schema = .ok schema ∧
        ((Session.start base).run branchingRun).pipelines.map (fun p => p.clauses.length) =
          [0, 1, 2, 3, 2] ∧
        ∀ p ∈ ((Session.start base).run branchingRun).pipelines,
          p.snapshots.length = p.clauses.length + 1 ∧
          p.snapshots[0]? = some schema ∧
          p.snapshots.getLast? = some p.schema ∧
          ∃ given, Accepts base given p ∧
            (∀ g ∈ given, ∃ e ∈ branchingRun, g ∈ e.2.parts) ∧ p.Replays given := by
  obtain ⟨base, schema, hbase, hschema, hrun⟩ := run_replays Table.people_made true branchingRun
  refine ⟨Table.people_made, base, schema, hbase, hschema, ?_, hrun⟩
  obtain rfl := Except.ok.inj hbase
  decide +kernel

end QueryPipeline
