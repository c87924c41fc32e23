import QueryPipeline.Proofs.Coverage
import QueryPipeline.Proofs.WiderTypes

/-!
# Wider tables

What becomes of accepted requests when the columns of the tables get wider types.

* `Table.Widens` and `ClauseRequest.Widens` relate tables, and requests that join them;
* each check that was passed on a schema is passed on a wider one, since it looks at names, at
  families of types, or at expressions (`Expr.infer_widens`);
* **`resolve_widens`** is one step, and **`widening_keeps_runs`** a whole run: the same clauses, the
  same text, and schemas that are wider one by one.
-/

namespace QueryPipeline

variable {toDouble : Bool} {s s' : Schema}

/-- The same table with wider types of columns. -/
structure Table.Widens (toDouble : Bool) (t t' : Table) : Prop where
  name : t'.name = t.name
  columns : List.Forall₂ (Column.Widens toDouble) t.columns t'.columns

theorem Table.Widens.refl (t : Table) : t.Widens toDouble t :=
  ⟨rfl, List.forall₂_same.mpr fun _ _ => ⟨rfl, .refl _⟩⟩

/-- The same request, with a wider table where a table is joined. -/
inductive ClauseRequest.Widens (toDouble : Bool) : ClauseRequest → ClauseRequest → Prop
  | refl (request : ClauseRequest) : Widens toDouble request request
  | join {other other' : Table} (wider : other.Widens toDouble other') (kind : String)
      (condition : Expr) :
      Widens toDouble (.join other kind condition) (.join other' kind condition)

/-- The expressions of a request. -/
def ClauseRequest.exprs : ClauseRequest → List Expr
  | select columns | extend columns | distinct columns => columns.map ColumnInput.toExpr
  | filter predicate => [predicate]
  | groupBy g => g.selections ++ g.having.toList
  | orderBy terms => terms.map ColumnInput.toExpr
  | join _ _ condition => [condition]
  | rename _ | limit _ | offset _ => []

/-- No expression of the request takes whole numbers only. -/
def ClauseRequest.AvoidsIntegral (request : ClauseRequest) : Prop :=
  ∀ e ∈ request.exprs, e.AvoidsIntegral

instance (request : ClauseRequest) : Decidable request.AvoidsIntegral :=
  inferInstanceAs (Decidable (∀ e ∈ request.exprs, e.AvoidsIntegral))

/-! ## 1. New schemas -/

/-- **Wider columns make a wider schema**: names alone decide whether there is one. -/
theorem Schema.ofColumns_widens {columns columns' : List Column} {schema : Schema}
    (h : Schema.ofColumns columns = .ok schema)
    (wider : List.Forall₂ (Column.Widens toDouble) columns columns') :
    ∃ schema', Schema.ofColumns columns' = .ok schema' ∧ schema.Widens toDouble schema' := by
  obtain rfl := ofColumns_eq_ok.mp h
  have hnodup : (columnNames columns').Nodup := by
    rw [columnNames_widens wider]
    exact schema.distinct
  exact ⟨⟨columns', hnodup⟩, ofColumns_columns ⟨columns', hnodup⟩, wider⟩

theorem Schema.Widens.getAll (hs : s.Widens toDouble s') {names : List String}
    {columns : List Column} (h : s.getAll names = .ok columns) :
    ∃ columns', s'.getAll names = .ok columns' ∧
      List.Forall₂ (Column.Widens toDouble) columns columns' := by
  induction names generalizing columns with
  | nil =>
    cases h
    exact ⟨[], rfl, .nil⟩
  | cons n rest ih =>
    obtain ⟨c, hc, h⟩ := Outcome.bind_eq_ok.mp h
    obtain ⟨more, hmore, h⟩ := Outcome.bind_eq_ok.mp h
    obtain rfl := Except.ok.inj h
    obtain ⟨c', hc', hwider⟩ := hs.get hc
    obtain ⟨more', hmore', hwiders⟩ := ih hmore
    refine ⟨c' :: more', ?_, .cons hwider hwiders⟩
    rw [Schema.getAll, hc', Outcome.ok_bind, hmore']
    rfl

theorem Schema.Widens.project (hs : s.Widens toDouble s') {names : List String} {schema : Schema}
    (h : s.project names = .ok schema) :
    ∃ schema', s'.project names = .ok schema' ∧ schema.Widens toDouble schema' := by
  obtain ⟨columns, hcolumns, h⟩ := Outcome.bind_eq_ok.mp h
  obtain ⟨columns', hcolumns', wider⟩ := hs.getAll hcolumns
  rw [Schema.project, hcolumns', Outcome.ok_bind]
  exact Schema.ofColumns_widens h wider

theorem Schema.Widens.append (hs : s.Widens toDouble s') {columns columns' : List Column}
    {schema : Schema} (wider : List.Forall₂ (Column.Widens toDouble) columns columns')
    (h : s.append columns = .ok schema) :
    ∃ schema', s'.append columns' = .ok schema' ∧ schema.Widens toDouble schema' :=
  Schema.ofColumns_widens h (List.rel_append hs wider)

theorem Schema.Widens.rename (hs : s.Widens toDouble s') {pairs : List (String × String)}
    {schema : Schema} (h : s.rename pairs = .ok schema) :
    ∃ schema', s'.rename pairs = .ok schema' ∧ schema.Widens toDouble schema' := by
  refine Schema.ofColumns_widens h ?_
  rw [List.forall₂_map_left_iff, List.forall₂_map_right_iff]
  refine hs.imp fun c c' hc => ⟨?_, hc.type⟩
  show Schema.renamed pairs c'.name = Schema.renamed pairs c.name
  rw [hc.name]

/-! ## 2. Checks of expressions -/

/-- A boolean expression is boolean on a wider schema. -/
theorem Expr.infer_boolean_widens (hs : s.Widens toDouble s') {mode : Mode} {e : Expr}
    (spared : e.Spared toDouble) (h : e.infer s mode = .ok .boolean) :
    e.infer s' mode = .ok .boolean := by
  obtain ⟨type', htype', hwider⟩ := Expr.infer_widens hs spared h
  rw [htype', hwider.of_boolean]

theorem computedColumns_widens (hs : s.Widens toDouble s') {earlier : List String}
    {inputs : List ColumnInput} {computed : List (Aliased × Column)}
    (spared : ∀ input ∈ inputs, input.toExpr.Spared toDouble)
    (h : computedColumns s earlier inputs = .ok computed) :
    ∃ computed', computedColumns s' earlier inputs = .ok computed' ∧
      computed'.map Prod.fst = computed.map Prod.fst ∧
      List.Forall₂ (Column.Widens toDouble) (computed.map Prod.snd) (computed'.map Prod.snd) := by
  induction inputs generalizing earlier computed with
  | nil =>
    cases h
    exact ⟨[], rfl, rfl, .nil⟩
  | cons input rest ih =>
    obtain ⟨a, type, more, rfl, hid, hnew, hearlier, htype, hmore, rfl⟩ :=
      computedColumns_cons_eq_ok.mp h
    have hexpr : a.expr.Spared toDouble :=
      Expr.Spared.child (e := a.toExpr) (spared _ List.mem_cons_self)
        (by simp [Aliased.toExpr, Expr.children])
    obtain ⟨type', htype', hwider⟩ := Expr.infer_widens hs hexpr htype
    obtain ⟨more', hmore', hnames, hwiders⟩ :=
      ih (fun i hi => spared i (List.mem_cons_of_mem _ hi)) hmore
    refine ⟨(a, ⟨a.name, type'⟩) :: more', ?_, by simp [hnames], .cons ⟨rfl, hwider⟩ hwiders⟩
    refine computedColumns_cons_eq_ok.mpr
      ⟨a, type', more', rfl, hid, ?_, hearlier, htype', hmore', rfl⟩
    rw [Schema.has_congr hs.names]
    exact hnew

theorem selectionColumns_widens (hs : s.Widens toDouble s') {keys : List String} {position : Nat}
    {es : List Expr} {columns : List Column} (spared : ∀ e ∈ es, e.Spared toDouble)
    (h : selectionColumns s keys position es = .ok columns) :
    ∃ columns', selectionColumns s' keys position es = .ok columns' ∧
      List.Forall₂ (Column.Widens toDouble) columns columns' := by
  induction es generalizing position columns with
  | nil =>
    cases h
    exact ⟨[], rfl, .nil⟩
  | cons e rest ih =>
    obtain ⟨type, name, more, hrefs, htype, hname, hmore, rfl⟩ := selectionColumns_cons_eq_ok.mp h
    obtain ⟨type', htype', hwider⟩ := Expr.infer_widens hs (spared e List.mem_cons_self) htype
    obtain ⟨more', hmore', hwiders⟩ :=
      ih (fun e he => spared e (List.mem_cons_of_mem _ he)) hmore
    refine ⟨⟨name, type'⟩ :: more', ?_, .cons ⟨rfl, hwider⟩ hwiders⟩
    refine selectionColumns_cons_eq_ok.mpr ⟨type', name, more', ?_, htype', hname, hmore', rfl⟩
    rw [checkSelectionReferences_congr hs.names]
    exact hrefs

theorem checkHaving_widens {grouped grouped' : Schema} (hs : s.Widens toDouble s')
    (hgrouped : grouped.Widens toDouble grouped') {keys : List String} {having : Option Expr}
    (spared : ∀ e ∈ having, e.Spared toDouble) (h : checkHaving s grouped keys having = .ok ()) :
    checkHaving s' grouped' keys having = .ok () := by
  cases having with
  | none => rfl
  | some e =>
    obtain ⟨hrefs, htype⟩ := Outcome.check_bind_eq_ok.mp h
    refine Outcome.check_bind_eq_ok.mpr ⟨?_, requirePredicate_eq_ok.mpr ?_⟩
    · rw [checkHavingReferences_congr hs.names hgrouped.names]
      exact hrefs
    · exact Expr.infer_boolean_widens hgrouped (spared e rfl) (requirePredicate_eq_ok.mp htype)

theorem checkTerms_widens (hs : s.Widens toDouble s') {terms : List OrderTerm}
    (spared : ∀ t ∈ terms, t.term.Spared toDouble) (h : checkTerms s terms = .ok ()) :
    checkTerms s' terms = .ok () := by
  induction terms with
  | nil => rfl
  | cons t rest ih =>
    obtain ⟨type, htype, h⟩ := Outcome.bind_eq_ok.mp h
    obtain ⟨type', htype', _⟩ := Expr.infer_widens hs (spared t List.mem_cons_self) htype
    rw [checkTerms, htype', Outcome.ok_bind]
    exact ih (fun t ht => spared t (List.mem_cons_of_mem _ ht)) h

/-- The term of an ordering has the whole numbers of the input it was read from. -/
theorem orderTerm_spared {input : ColumnInput} (h : input.toExpr.Spared toDouble) :
    (orderTerm input).term.Spared toDouble := by
  unfold orderTerm
  split
  · exact h.child (by simp [ColumnInput.toExpr, Expr.children])
  · exact h

/-! ## 3. One request -/

/-- What a request gave on a schema is given as well: the same clause, and a wider schema. -/
def Resolved.GivenWider (toDouble : Bool) (r : Resolved) (given : Outcome Resolved) : Prop :=
  ∃ r', given = .ok r' ∧ r.clause = r'.clause ∧ r.schema.Widens toDouble r'.schema

section Kinds

variable {r : Resolved}

theorem resolveSelect_widens (hs : s.Widens toDouble s') {columns : List ColumnInput}
    (h : resolveSelect s columns = .ok r) : r.GivenWider toDouble (resolveSelect s' columns) := by
  obtain ⟨names, schema, hne, hnames, hschema, rfl⟩ := resolveSelect_eq_ok.mp h
  obtain ⟨schema', hschema', hwider⟩ := hs.project hschema
  exact ⟨_, resolveSelect_eq_ok.mpr ⟨names, schema', hne, hnames, hschema', rfl⟩, rfl, hwider⟩

theorem resolveDistinct_widens (hs : s.Widens toDouble s') {columns : List ColumnInput}
    (h : resolveDistinct s columns = .ok r) :
    r.GivenWider toDouble (resolveDistinct s' columns) := by
  obtain ⟨names, schema, hnames, hschema, rfl⟩ := resolveDistinct_eq_ok.mp h
  cases names with
  | nil =>
    cases hschema
    exact ⟨_, resolveDistinct_eq_ok.mpr ⟨[], s', hnames, rfl, rfl⟩, rfl, hs⟩
  | cons n ns =>
    obtain ⟨schema', hschema', hwider⟩ := hs.project hschema
    exact ⟨_, resolveDistinct_eq_ok.mpr ⟨n :: ns, schema', hnames, hschema', rfl⟩, rfl, hwider⟩

theorem resolveExtend_widens (hs : s.Widens toDouble s') {columns : List ColumnInput}
    (spared : ∀ input ∈ columns, input.toExpr.Spared toDouble)
    (h : resolveExtend s columns = .ok r) : r.GivenWider toDouble (resolveExtend s' columns) := by
  obtain ⟨computed, schema, hne, hcomputed, hschema, rfl⟩ := resolveExtend_eq_ok.mp h
  obtain ⟨computed', hcomputed', hsame, hwiders⟩ := computedColumns_widens hs spared hcomputed
  obtain ⟨schema', hschema', hwider⟩ := hs.append hwiders hschema
  refine ⟨_, resolveExtend_eq_ok.mpr ⟨computed', schema', hne, hcomputed', hschema', rfl⟩, ?_,
    hwider⟩
  -- a clause holds the expressions, not the types
  have hclause (c : List (Aliased × Column)) :
      c.map (fun c => c.1.toExpr) = (c.map Prod.fst).map Aliased.toExpr := by simp
  show Clause.extend _ = Clause.extend _
  rw [hclause, hclause, hsame]

theorem resolveRename_widens (hs : s.Widens toDouble s') {input : RenameInput}
    (h : resolveRename s input = .ok r) : r.GivenWider toDouble (resolveRename s' input) := by
  obtain ⟨schema, hne, hpairs, hcol, hschema, rfl⟩ := resolveRename_eq_ok.mp h
  obtain ⟨schema', hschema', hwider⟩ := hs.rename hschema
  rw [← checkPairs_congr hs.names] at hpairs
  rw [← collidingTarget?_congr hs.names] at hcol
  exact ⟨_, resolveRename_eq_ok.mpr ⟨schema', hne, hpairs, hcol, hschema', rfl⟩, rfl, hwider⟩

theorem resolveFilter_widens (hs : s.Widens toDouble s') {predicate : Expr}
    (spared : predicate.Spared toDouble) (h : resolveFilter s predicate = .ok r) :
    r.GivenWider toDouble (resolveFilter s' predicate) := by
  obtain ⟨htype, rfl⟩ := resolveFilter_eq_ok.mp h
  have htype' := Expr.infer_boolean_widens hs spared htype
  exact ⟨_, resolveFilter_eq_ok.mpr ⟨htype', rfl⟩, rfl, hs⟩

theorem resolveGroupBy_widens (hs : s.Widens toDouble s') {g : Grouping}
    (spared : ∀ e ∈ g.selections ++ g.having.toList, e.Spared toDouble)
    (h : resolveGroupBy s g = .ok r) : r.GivenWider toDouble (resolveGroupBy s' g) := by
  obtain ⟨columns, grouped, hk, hsel, hkeys, hcolumns, hgrouped, hhaving, rfl⟩ :=
    resolveGroupBy_eq_ok.mp h
  obtain ⟨columns', hcolumns', hwiders⟩ := selectionColumns_widens hs
    (fun e he => spared e (List.mem_append_left _ he)) hcolumns
  obtain ⟨grouped', hgrouped', hwider⟩ := Schema.ofColumns_widens hgrouped hwiders
  have hhaving' := checkHaving_widens hs hwider
    (fun e he => spared e (List.mem_append_right _ (Option.mem_toList.mpr he))) hhaving
  rw [← checkKeys_congr hs.names] at hkeys
  exact ⟨_, resolveGroupBy_eq_ok.mpr
    ⟨columns', grouped', hk, hsel, hkeys, hcolumns', hgrouped', hhaving', rfl⟩, rfl, hwider⟩

theorem resolveOrderBy_widens (hs : s.Widens toDouble s') {inputs : List ColumnInput}
    (spared : ∀ input ∈ inputs, input.toExpr.Spared toDouble)
    (h : resolveOrderBy s inputs = .ok r) : r.GivenWider toDouble (resolveOrderBy s' inputs) := by
  obtain ⟨hne, hterms, rfl⟩ := resolveOrderBy_eq_ok.mp h
  have hspared : ∀ t ∈ inputs.map orderTerm, t.term.Spared toDouble :=
    List.forall_mem_map.mpr fun input hinput => orderTerm_spared (spared input hinput)
  exact ⟨_, resolveOrderBy_eq_ok.mpr ⟨hne, checkTerms_widens hs hspared hterms, rfl⟩, rfl, hs⟩

theorem resolveLimit_widens (hs : s.Widens toDouble s') {count : Binary64}
    (h : resolveLimit s count = .ok r) : r.GivenWider toDouble (resolveLimit s' count) := by
  obtain ⟨hcount, rfl⟩ := resolveLimit_eq_ok.mp h
  exact ⟨_, resolveLimit_eq_ok.mpr ⟨hcount, rfl⟩, rfl, hs⟩

theorem resolveOffset_widens (hs : s.Widens toDouble s') {count : Binary64}
    (h : resolveOffset s count = .ok r) : r.GivenWider toDouble (resolveOffset s' count) := by
  obtain ⟨hcount, rfl⟩ := resolveOffset_eq_ok.mp h
  exact ⟨_, resolveOffset_eq_ok.mpr ⟨hcount, rfl⟩, rfl, hs⟩

theorem resolveJoin_widens (hs : s.Widens toDouble s') {other other' : Table} {kind : String}
    {condition : Expr} (wider : other.Widens toDouble other')
    (spared : condition.Spared toDouble) (h : resolveJoin s other kind condition = .ok r) :
    r.GivenWider toDouble (resolveJoin s' other' kind condition) := by
  obtain ⟨k, otherSchema, combined, hk, hother, hcol, hcombined, hcondition, rfl⟩ :=
    resolveJoin_eq_ok.mp h
  obtain ⟨otherSchema', hother', hwider⟩ := Schema.ofColumns_widens hother wider.columns
  obtain ⟨combined', hcombined', hcombinedWider⟩ := hs.append hwider hcombined
  have hcol' : checkCollisions s' otherSchema' = .ok () := by
    rw [checkCollisions_congr hs.names hwider.names]
    exact hcol
  have hcondition' := Expr.infer_boolean_widens hcombinedWider spared hcondition
  refine ⟨⟨.join other'.name k condition, combined'⟩, ?_, ?_, hcombinedWider⟩
  · exact resolveJoin_eq_ok.mpr
      ⟨k, otherSchema', combined', hk, hother', hcol', hcombined', hcondition', rfl⟩
  · rw [wider.name]

/-- **A request that resolves on a schema resolves on a wider one**, to the same clause and a wider
    schema. -/
theorem resolve_widens (hs : s.Widens toDouble s') {request request' : ClauseRequest}
    (wider : request.Widens toDouble request') (spared : ∀ e ∈ request.exprs, e.Spared toDouble)
    (h : s.resolve request = .ok r) : r.GivenWider toDouble (s'.resolve request') := by
  cases wider with
  | join wider kind condition =>
    exact resolveJoin_widens hs wider (spared condition List.mem_cons_self) h
  | refl =>
    cases request with
    | select columns => exact resolveSelect_widens hs h
    | extend columns => exact resolveExtend_widens hs (List.forall_mem_map.mp spared) h
    | rename input => exact resolveRename_widens hs h
    | filter predicate => exact resolveFilter_widens hs (spared predicate List.mem_cons_self) h
    | groupBy g => exact resolveGroupBy_widens hs spared h
    | orderBy inputs => exact resolveOrderBy_widens hs (List.forall_mem_map.mp spared) h
    | limit count => exact resolveLimit_widens hs h
    | offset count => exact resolveOffset_widens hs h
    | distinct columns => exact resolveDistinct_widens hs h
    | join other kind condition =>
      exact resolveJoin_widens hs (.refl other) (spared condition List.mem_cons_self) h

end Kinds

/-! ## 4. Runs -/

/-- **Wider types of columns never break a query.** Let a made table, and the tables that are
    joined, be given with wider types; where a type becomes `double`, let no request take whole
    numbers only. Then the requests that are accepted on the table are accepted on the wider one,
    with the same clauses and the same text in every dialect, and each schema on the way is wider
    than the one in its place. -/
theorem widening_keeps_runs {t t' : Table} (made : t.Made) (wider : t.Widens toDouble t')
    (listening : Bool) {given given' : List ClauseRequest}
    (requests : List.Forall₂ (ClauseRequest.Widens toDouble) given given')
    (spared : toDouble = true → ∀ request ∈ given, request.AvoidsIntegral) :
    ∃ base base', Pipeline.ofTable t listening = .ok base ∧
      Pipeline.ofTable t' listening = .ok base' ∧
      ∀ q, Accepts base given q → ∃ q', Accepts base' given' q' ∧ q'.clauses = q.clauses ∧
        (∀ d : Arrow, (q'.render d.renderer).result = (q.render d.renderer).result) ∧
        List.Forall₂ (Schema.Widens toDouble) q.snapshots q'.snapshots := by
  have hnames : columnNames t'.columns = columnNames t.columns := columnNames_widens wider.columns
  have hdistinct : (columnNames t'.columns).Nodup := hnames ▸ made.wellNamed.distinct
  have hbase' : Pipeline.ofTable t' listening =
      .ok ⟨t'.name, ⟨t'.columns, hdistinct⟩, [], listening⟩ := by
    rw [Pipeline.ofTable, Table.schema, Schema.ofColumns_columns ⟨t'.columns, hdistinct⟩]
    rfl
  refine ⟨_, _, Pipeline.ofTable_wellNamed made.wellNamed listening, hbase', fun q h => ?_⟩
  -- the two runs are related request by request, each spared where types become `double`
  have related := (List.forall₂_and_left _ _).mpr
    ⟨fun request hr (allowed : toDouble = true) => spared allowed request hr, requests⟩
  obtain ⟨q', hq', _, hclauses, hsnapshots⟩ :
      ∃ q', Accepts ⟨t'.name, ⟨t'.columns, hdistinct⟩, [], listening⟩ given' q' ∧
        q.schema.Widens toDouble q'.schema ∧ List.Forall₂ Eq q.clauses q'.clauses ∧
        List.Forall₂ (Schema.Widens toDouble) q.snapshots q'.snapshots :=
    h.simulation rfl rfl wider.columns related fun s s' hs request request' hrequest r hr =>
      resolve_widens hs hrequest.2 (fun e he allowed => hrequest.1 allowed e he) hr
  rw [List.forall₂_eq_eq_eq] at hclauses
  refine ⟨q', hq', hclauses.symm, fun d => ?_, hsnapshots⟩
  have hsource : q'.source = q.source := hq'.keeps.1.trans (wider.name.trans h.keeps.1.symm)
  rw [Arrow.render_result, Arrow.render_result, hsource, hclauses]

/-- The people with another type for their numbers. -/
def Table.peopleOf (type : ColumnType) : Table where
  name := Table.people.name
  columns := [⟨"id", type⟩, ⟨"name", .string⟩, ⟨"age", type⟩, ⟨"team", type⟩]
  record := []

/-- The teams with long numbers. -/
def Table.teamsLong : Table where
  name := Table.teams.name
  columns := [⟨"team_id", .long⟩, ⟨"budget", .double⟩]
  record := []

/-- Whether an age is even. -/
def evenAge : Expr :=
  .binary (.comparison .equal)
    (.binary (.arithmetic .remainder) (.column "age") (.literal (.integer ⟨0x4000000000000000⟩)))
    (.literal (.integer ⟨0⟩))

/-- Joins a table of teams to the people. -/
def joinWithTeams (teams : Table) : ClauseRequest :=
  .join teams "left" (.binary (.comparison .equal) (.column "team") (.column "team_id"))

/-- The greatest and the summed age of each team. -/
def agesByTeam : ClauseRequest :=
  .groupBy ⟨["team"], [.column "team", .named "oldest" (.call .max [.column "age"]),
    .named "total" (.call .sum [.column "age"])],
    some (.binary (.comparison .greater) (.column "total") (.literal (.long 30)))⟩

/-- Even ages survive longs, and a join of a wider table; groups survive doubles. -/
theorem widening_keeps_runs_numbers :
    (∃ base', Pipeline.ofTable (.peopleOf .long) true = .ok base' ∧
      ∃ q q', Accepts .ofPeople [.filter evenAge, joinWithTeams .teams] q ∧
        Accepts base' [.filter evenAge, joinWithTeams .teamsLong] q' ∧ q'.clauses = q.clauses ∧
        List.Forall₂ (Schema.Widens false) q.snapshots q'.snapshots) ∧
    ∃ base', Pipeline.ofTable (.peopleOf .double) true = .ok base' ∧
      ∃ q q', Accepts .ofPeople [agesByTeam] q ∧ Accepts base' [agesByTeam] q' ∧
        q'.clauses = q.clauses ∧ List.Forall₂ (Schema.Widens true) q.snapshots q'.snapshots := by
  constructor
  · have hpeople : Table.people.Widens false (.peopleOf .long) :=
      ⟨rfl, .cons ⟨rfl, .integerToLong⟩ (.cons ⟨rfl, .refl _⟩ (.cons ⟨rfl, .integerToLong⟩
        (.cons ⟨rfl, .integerToLong⟩ .nil)))⟩
    have hteams : Table.teams.Widens false .teamsLong :=
      ⟨rfl, .cons ⟨rfl, .integerToLong⟩ (.cons ⟨rfl, .refl _⟩ .nil)⟩
    have hrequests : List.Forall₂ (ClauseRequest.Widens false)
        [.filter evenAge, joinWithTeams .teams] [.filter evenAge, joinWithTeams .teamsLong] :=
      .cons (.refl _) (.cons (.join hteams _ _) .nil)
    obtain ⟨base, base', hbase, hbase', hruns⟩ :=
      widening_keeps_runs Table.people_made hpeople true hrequests fun allowed => by cases allowed
    obtain rfl : Pipeline.ofPeople = base := Except.ok.inj hbase
    have haccepts : Accepts .ofPeople [.filter evenAge, joinWithTeams .teams] _ :=
      .step (.single rfl) rfl
    obtain ⟨q', hq', hclauses, _, hsnapshots⟩ := hruns _ haccepts
    exact ⟨base', hbase', _, q', haccepts, hq', hclauses, hsnapshots⟩
  · have hpeople : Table.people.Widens true (.peopleOf .double) :=
      ⟨rfl, .cons ⟨rfl, .integralToDouble rfl rfl⟩ (.cons ⟨rfl, .refl _⟩
        (.cons ⟨rfl, .integralToDouble rfl rfl⟩ (.cons ⟨rfl, .integralToDouble rfl rfl⟩ .nil)))⟩
    have hrequests : List.Forall₂ (ClauseRequest.Widens true) [agesByTeam] [agesByTeam] :=
      .cons (.refl _) .nil
    obtain ⟨base, base', hbase, hbase', hruns⟩ :=
      widening_keeps_runs Table.people_made hpeople true hrequests fun _ => by decide
    obtain rfl : Pipeline.ofPeople = base := Except.ok.inj hbase
    have haccepts : Accepts .ofPeople [agesByTeam] _ := .single rfl
    obtain ⟨q', hq', hclauses, _, hsnapshots⟩ := hruns _ haccepts
    exact ⟨base', hbase', _, q', haccepts, hq', hclauses, hsnapshots⟩

/-- Remainders need whole numbers, so they do not survive doubles. -/
example :
    evenAge.infer ⟨(Table.peopleOf .double).columns, by decide⟩ {} =
      mistyped "MOD" (.remainderOnNonIntegral .double .integer) := rfl

end QueryPipeline
