import QueryPipeline.Dialect.Arrow
import QueryPipeline.Proofs.Rewriting
import QueryPipeline.Proofs.Stored

/-!
# Names in expressions

A named expression can stand anywhere inside of another one, and its name goes into the text of the
pipeline as it is. Which of these names are identifiers?

* `Clause.aliases` are all names in a clause, at any depth. They are of two sorts: a `heading`
  names a column of the result, all others are `buried`;
* headings are checked (`Accepts.headings`);
* buried names are not looked at: types and references do not depend on names
  (`Expr.infer_mapAliases`, `Expr.walk_mapAliases`), so a request that is sound apart from
  its names is refused for its first bad heading, and accepted if it has none
  (`resolve_of_repaired`);
* **`names_checked_as_headings`** puts this together for all pipelines that start at a made table.
-/

namespace QueryPipeline

/-! ## 1. The names of an expression -/

namespace Expr

mutual

/-- The names in an expression, at any depth. -/
def aliases : Expr → List String
  | literal _ | column _ | valueList _ | foreign _ _ => []
  | unary _ operand => operand.aliases
  | binary _ left right => left.aliases ++ right.aliases
  | call _ args => aliasesAll args
  | named name inner => name :: inner.aliases
  | conditional test yes no => test.aliases ++ (yes.aliases ++ no.aliases)
  | ordering _ term => term.aliases
  | grouping keys selections none => aliasesAll keys ++ aliasesAll selections
  | grouping keys selections (some having) =>
    aliasesAll keys ++ (aliasesAll selections ++ having.aliases)
  | joining condition => condition.aliases

/-- The names in a list of expressions. -/
def aliasesAll : List Expr → List String
  | [] => []
  | e :: rest => e.aliases ++ aliasesAll rest

end

mutual

/-- Changes every name in an expression. -/
def mapAliases (f : String → String) : Expr → Expr
  | literal value => literal value
  | column name => column name
  | unary op operand => unary op (mapAliases f operand)
  | binary op left right => binary op (mapAliases f left) (mapAliases f right)
  | valueList items => valueList items
  | call function args => call function (mapAliasesAll f args)
  | named name inner => named (f name) (mapAliases f inner)
  | conditional test yes no =>
    conditional (mapAliases f test) (mapAliases f yes) (mapAliases f no)
  | ordering direction term => ordering direction (mapAliases f term)
  | grouping keys selections none =>
    grouping (mapAliasesAll f keys) (mapAliasesAll f selections) none
  | grouping keys selections (some having) =>
    grouping (mapAliasesAll f keys) (mapAliasesAll f selections) (some (mapAliases f having))
  | joining condition => joining (mapAliases f condition)
  | foreign kind source => foreign kind source

/-- Changes every name in a list of expressions. -/
def mapAliasesAll (f : String → String) : List Expr → List Expr
  | [] => []
  | e :: rest => mapAliases f e :: mapAliasesAll f rest

end

/-- The name of the column that an expression gives. -/
def heading? : Expr → Option String
  | named name _ => some name
  | _ => none

/-- The names below the heading. -/
def buried : Expr → List String
  | named _ inner => inner.aliases
  | e => e.aliases

theorem mem_aliases {e : Expr} {n : String} :
    n ∈ e.aliases ↔ e.heading? = some n ∨ n ∈ e.buried := by
  cases e with
  | named name inner => simp [aliases, heading?, buried, @eq_comm _ n]
  | _ => simp [heading?, buried]

/-! ## 2. Names and types -/

section MapAliases

variable {f : String → String}

theorem mapAliasesAll_eq (es : List Expr) : mapAliasesAll f es = es.map (mapAliases f) := by
  induction es with
  | nil => rfl
  | cons e rest ih => rw [mapAliasesAll, ih, List.map_cons]

/-- Changes the name of a single node. -/
def realias (f : String → String) : Expr → Expr
  | named name inner => named (f name) inner
  | e => e

/-- To change every name in an expression is to change that of each node. -/
theorem mapAliases_eq_rewrite (e : Expr) : e.mapAliases f = e.rewrite (realias f) := by
  have list {es : List Expr} (h : ∀ e ∈ es, e.mapAliases f = e.rewrite (realias f)) :
      mapAliasesAll f es = rewriteAll (realias f) es := by
    rw [mapAliasesAll_eq, rewriteAll_eq]
    exact List.map_congr_left h
  induction e with
  | literal value => rfl
  | column name => rfl
  | unary op operand ih => exact congrArg (unary op) ih
  | binary op left right ihl ihr => exact congrArg₂ (binary op) ihl ihr
  | valueList items => rfl
  | call function args ih => exact congrArg (call function) (list ih)
  | named name inner ih => exact congrArg (named (f name)) ih
  | conditional test yes no iht ihy ihn =>
    rw [mapAliases, iht, ihy, ihn]
    rfl
  | ordering direction term ih => exact congrArg (ordering direction) ih
  | grouping keys selections having ihk ihs ihh =>
    cases having with
    | none =>
      rw [mapAliases, list ihk, list ihs]
      rfl
    | some having =>
      rw [mapAliases, list ihk, list ihs, ihh having rfl]
      rfl
  | joining condition ih => exact congrArg joining ih
  | foreign kind source => rfl

/-- Typing does not look at a name. -/
theorem typedAlike_realias (e : Expr) : TypedAlike e (realias f e) := by
  cases e with
  | named name inner => exact ⟨fun _ _ => rfl, rfl, fun _ _ => rfl⟩
  | _ => exact .refl _

/-- **The type of an expression does not depend on the names in it**, and neither does the reason
    why it has none. -/
theorem infer_mapAliases (s : Schema) (mode : Mode) (e : Expr) :
    (e.mapAliases f).infer s mode = e.infer s mode := by
  rw [mapAliases_eq_rewrite]
  exact (rewrite_typedAlike typedAlike_realias e).infer s mode

/-- **A walk does not look at a name**, so it ends in the same way. -/
theorem walk_mapAliases (within : Bool) (check : String → Outcome Unit) (e : Expr) :
    (e.mapAliases f).walk within check = e.walk within check := by
  rw [mapAliases_eq_rewrite]
  refine walk_rewrite (fun e => ?_) e
  cases e with
  | _ => rfl

end MapAliases
end Expr

/-! ## 3. Names in clauses and requests -/

/-- Changes every name in an input; the name of a column is no name in an expression. -/
def ColumnInput.mapAliases (f : String → String) : ColumnInput → ColumnInput
  | node e => node (e.mapAliases f)
  | input => input

/-- The name of the column that an input gives. -/
def ColumnInput.heading? (input : ColumnInput) : Option String := input.toExpr.heading?

namespace Clause

/-- The names in a clause, at any depth. -/
def aliases (c : Clause) : List String := c.exprs.flatMap Expr.aliases

/-- The names of the columns that a clause computes or renames. -/
def headings : Clause → List String
  | extend columns | rename columns => columns.filterMap Expr.heading?
  | groupBy _ selections _ => selections.filterMap Expr.heading?
  | _ => []

/-- The names in a clause that are no headings. -/
def buried : Clause → List String
  | extend columns | rename columns => columns.flatMap Expr.buried
  | groupBy keys selections having =>
    keys.flatMap Expr.aliases ++ selections.flatMap Expr.buried ++
      having.toList.flatMap Expr.aliases
  | c => c.aliases

theorem mem_flatMap_aliases {es : List Expr} {n : String} :
    n ∈ es.flatMap Expr.aliases ↔ n ∈ es.filterMap Expr.heading? ∨ n ∈ es.flatMap Expr.buried := by
  simp only [List.mem_flatMap, List.mem_filterMap, Expr.mem_aliases, and_or_left, exists_or]

/-- **A name in a clause is a heading or buried.** -/
theorem mem_aliases {c : Clause} {n : String} :
    n ∈ c.aliases ↔ n ∈ c.headings ∨ n ∈ c.buried := by
  cases c with
  | extend columns => exact mem_flatMap_aliases
  | rename columns => exact mem_flatMap_aliases
  | groupBy keys selections having =>
    simp only [aliases, exprs, headings, buried, List.flatMap_append, List.mem_append,
      @mem_flatMap_aliases selections]
    tauto
  | _ => simp [headings, buried]

end Clause

namespace ClauseRequest

/-- Changes every name in a request. -/
def mapAliases (f : String → String) : ClauseRequest → ClauseRequest
  | select columns => select (columns.map (ColumnInput.mapAliases f))
  | extend columns => extend (columns.map (ColumnInput.mapAliases f))
  | rename input => rename (.list (input.pairs.map fun pair => (pair.1, f pair.2)))
  | filter predicate => filter (predicate.mapAliases f)
  | groupBy g => groupBy ⟨g.keys, g.selections.map (Expr.mapAliases f),
      g.having.map (Expr.mapAliases f)⟩
  | orderBy terms => orderBy (terms.map (ColumnInput.mapAliases f))
  | limit count => limit count
  | offset count => offset count
  | distinct columns => distinct (columns.map (ColumnInput.mapAliases f))
  | join other kind condition => join other kind (condition.mapAliases f)

/-- The names that a request gives to columns. -/
def headings : ClauseRequest → List String
  | extend columns => columns.filterMap ColumnInput.heading?
  | rename input => input.pairs.map Prod.snd
  | groupBy g => g.selections.filterMap Expr.heading?
  | _ => []

end ClauseRequest

/-- How such a name is called when it is refused. -/
def ClauseKind.headingRole : ClauseKind → String
  | rename => "Rename target"
  | _ => "Alias"

/-! ## 4. Headings are checked -/

section Headings

variable {s : Schema} {r : Resolved}

/-- The headings of selectable expressions are identifiers. -/
theorem Expr.Selectable.heading_identifier {keys : List String} {e : Expr} {n : String}
    (h : e.Selectable s keys) (hn : e.heading? = some n) : isIdentifier n = true := by
  cases e with
  | named name inner =>
    obtain rfl := Option.some.inj hn
    exact h.named _ _ rfl
  | _ => cases hn

/-- **What a request resolves to has identifiers as headings.** -/
theorem resolve_headings {request : ClauseRequest} (h : s.resolve request = .ok r) :
    ∀ n ∈ r.clause.headings, isIdentifier n = true := by
  have none : ∀ n ∈ ([] : List String), isIdentifier n = true :=
    fun n hn => absurd hn List.not_mem_nil
  cases request with
  | extend columns =>
    obtain ⟨computed, schema, _, hcomputed, _, rfl⟩ := resolveExtend_eq_ok.mp h
    intro n hn
    obtain ⟨e, he, hn⟩ := List.mem_filterMap.mp hn
    obtain ⟨c, hc, rfl⟩ := List.mem_map.mp he
    have e : c.1.name = n := by simpa [Aliased.toExpr, Expr.heading?] using hn
    exact e ▸ (computedColumns_names hcomputed c hc).1
  | rename input =>
    obtain ⟨schema, _, hpairs, _, _, rfl⟩ := resolveRename_eq_ok.mp h
    intro n hn
    obtain ⟨e, he, hn⟩ := List.mem_filterMap.mp hn
    obtain ⟨pair, hp, rfl⟩ := List.mem_map.mp he
    have e : pair.2 = n := by simpa [renamedColumn, Expr.heading?] using hn
    exact e ▸ checkPairs_targets hpairs pair hp
  | groupBy g =>
    obtain ⟨_, _, _, _, _, hcolumns, _, _, rfl⟩ := resolveGroupBy_eq_ok.mp h
    intro n hn
    obtain ⟨e, he, hn⟩ := List.mem_filterMap.mp hn
    exact ((selectionColumns_eq_ok.mp hcolumns).1 e he).heading_identifier hn
  | select columns =>
    obtain ⟨_, _, _, _, _, rfl⟩ := resolveSelect_eq_ok.mp h
    exact none
  | filter predicate =>
    obtain ⟨_, rfl⟩ := resolveFilter_eq_ok.mp h
    exact none
  | orderBy inputs =>
    obtain ⟨_, _, rfl⟩ := resolveOrderBy_eq_ok.mp h
    exact none
  | limit count =>
    obtain ⟨_, rfl⟩ := resolveLimit_eq_ok.mp h
    exact none
  | offset count =>
    obtain ⟨_, rfl⟩ := resolveOffset_eq_ok.mp h
    exact none
  | distinct columns =>
    obtain ⟨_, _, _, _, rfl⟩ := resolveDistinct_eq_ok.mp h
    exact none
  | join other kind condition =>
    obtain ⟨_, _, _, _, _, _, _, _, rfl⟩ := resolveJoin_eq_ok.mp h
    exact none

end Headings

/-! ## 5. Names as obstacles -/

/-- The names that are no identifiers. -/
def misnamed (names : List String) : List String := names.filter fun n => !isIdentifier n

/-- The failure of a name that is no identifier. -/
def misnamedFailure (role n : String) : Failure :=
  .because (.invalidValue n (.notAnIdentifier role))

theorem misnamed_cons_of_identifier {n : String} {names : List String}
    (h : isIdentifier n = true) : misnamed (n :: names) = misnamed names := by
  simp [misnamed, h]

theorem misnamed_cons {n : String} {names : List String} (h : isIdentifier n = false) :
    misnamed (n :: names) = n :: misnamed names := by
  simp [misnamed, h]

theorem misnamed_eq_nil {names : List String} :
    misnamed names = [] ↔ ∀ n ∈ names, isIdentifier n = true := by
  simp [misnamed]

theorem requireIdentifier_misnamed {name what : String} (h : isIdentifier name = false) :
    requireIdentifier (.text name) what = .error (misnamedFailure what name) := by
  simp [requireIdentifier, RawName.identifier?, RawName.shown, h, misnamedFailure, refuse]

/-! ## 6. Requests that are sound apart from their names -/

section Repaired

variable {s : Schema} {r : Resolved} {f : String → String}

/-- Inputs refer to the same columns whatever the names in them are. -/
theorem columnReferences_mapAliases {inputs : List ColumnInput} {names : List String} :
    (inputs.map (ColumnInput.mapAliases f)).map ColumnInput.toExpr = names.map Expr.column ↔
      inputs.map ColumnInput.toExpr = names.map Expr.column := by
  have step (input : ColumnInput) (name : String) :
      (input.mapAliases f).toExpr = .column name ↔ input.toExpr = .column name := by
    cases input with
    | node e =>
      cases e with
      | grouping keys selections having =>
        cases having <;> simp [ColumnInput.mapAliases, ColumnInput.toExpr, Expr.mapAliases]
      | _ => simp [ColumnInput.mapAliases, ColumnInput.toExpr, Expr.mapAliases]
    | _ => rfl
  induction inputs generalizing names with
  | nil => rfl
  | cons input rest ih =>
    cases names with
    | nil => simp
    | cons name names => simp only [List.map_cons, List.cons.injEq, step, ih]

/-- An input whose repaired form is a named expression is one itself. -/
theorem named_of_mapAliases {input : ColumnInput} {a : Aliased}
    (h : input.mapAliases f = .node a.toExpr) :
    ∃ name inner, input = .node (.named name inner) ∧ a.name = f name ∧
      a.expr = inner.mapAliases f := by
  obtain ⟨name, expr⟩ := a
  cases input with
  | node e =>
    cases e with
    | named given inner =>
      simp only [ColumnInput.mapAliases, Expr.mapAliases, Aliased.toExpr, ColumnInput.node.injEq,
        Expr.named.injEq] at h
      exact ⟨given, inner, rfl, h.1.symm, h.2.symm⟩
    | grouping keys selections having =>
      cases having <;>
        simp [ColumnInput.mapAliases, Expr.mapAliases, Aliased.toExpr] at h
    | _ => simp [ColumnInput.mapAliases, Expr.mapAliases, Aliased.toExpr] at h
  | _ => simp [ColumnInput.mapAliases] at h

/-- **Only names decide about computed columns that are sound apart from them.** -/
theorem computedColumns_of_repaired (fixes : ∀ n, isIdentifier n = true → f n = n)
    {earlier : List String} {inputs : List ColumnInput} {computed : List (Aliased × Column)}
    (h : computedColumns s earlier (inputs.map (ColumnInput.mapAliases f)) = .ok computed) :
    DecidedBy (misnamedFailure "Alias") (fun own => own.map Prod.snd = computed.map Prod.snd)
      (misnamed (inputs.filterMap ColumnInput.heading?)) (computedColumns s earlier inputs) := by
  induction inputs generalizing earlier computed with
  | nil =>
    cases h
    exact ⟨[], rfl, rfl⟩
  | cons input rest ih =>
    obtain ⟨a, type, more, hinput, _, hnew, hearlier, htype, hmore, rfl⟩ :=
      computedColumns_cons_eq_ok.mp h
    obtain ⟨name, inner, rfl, hname, hexpr⟩ := named_of_mapAliases hinput
    have hheading : (ColumnInput.node (.named name inner)).heading? = some name := rfl
    rw [List.filterMap_cons_some hheading]
    by_cases hid : isIdentifier name = true
    · -- the name is its own repair, so the checks of this column are those that were passed
      rw [fixes name hid] at hname
      rw [hexpr, Expr.infer_mapAliases] at htype
      rw [hname] at hnew hearlier hmore ⊢
      have hstep : computedColumns s earlier (.node (.named name inner) :: rest) =
          computedColumns s (name :: earlier) rest >>= fun more =>
            .ok ((⟨name, inner⟩, ⟨name, type⟩) :: more) := by
        simp [computedColumns, requireAliased, requireIdentifier, RawName.identifier?, hid, hnew,
          hearlier, htype]
      rw [misnamed_cons_of_identifier hid, hstep]
      refine (ih hmore).bind_ok fun _ own hown => ⟨_, rfl, ?_⟩
      rw [List.map_cons, List.map_cons, hown]
    · have hid : isIdentifier name = false := by simpa using hid
      rw [misnamed_cons hid]
      simp [DecidedBy, computedColumns, requireAliased, requireIdentifier_misnamed hid]

/-- **Only names decide about pairs that are sound apart from their targets.** -/
theorem checkPairs_of_repaired (fixes : ∀ n, isIdentifier n = true → f n = n)
    {earlier pairs : List (String × String)}
    (h : checkPairs s earlier (pairs.map fun pair => (pair.1, f pair.2)) = .ok ()) :
    DecidedBy (misnamedFailure "Rename target") (fun _ => True) (misnamed (pairs.map Prod.snd))
      (checkPairs s earlier pairs) := by
  induction pairs generalizing earlier with
  | nil => exact ⟨(), rfl, trivial⟩
  | cons pair rest ih =>
    obtain ⟨source, target⟩ := pair
    obtain ⟨hsource, _, hnew, hfresh, hmore⟩ := checkPairs_cons_eq_ok.mp h
    obtain ⟨c, hc⟩ := Schema.has_iff_get.mp hsource
    rw [List.map_cons]
    by_cases hid : isIdentifier target = true
    · rw [fixes target hid] at hfresh hmore
      rw [misnamed_cons_of_identifier hid]
      have hstep : checkPairs s earlier ((source, target) :: rest) =
          checkPairs s ((source, target) :: earlier) rest := by
        simp only [checkPairs, hc, requireIdentifier, RawName.identifier?, hid, if_true, hnew,
          hfresh, if_false, Outcome.ok_bind]
      rw [hstep]
      exact ih hmore
    · have hid : isIdentifier target = false := by simpa using hid
      rw [misnamed_cons hid]
      simp [DecidedBy, checkPairs, hc, requireIdentifier_misnamed hid]

/-- A selection without a heading is named as its repaired form is. -/
theorem selectionName_mapAliases {position : Nat} {e : Expr} (h : e.heading? = none) :
    selectionName position (e.mapAliases f) = selectionName position e := by
  cases e with
  | named name inner => simp [Expr.heading?] at h
  | grouping keys selections having => cases having <;> rfl
  | _ => rfl

/-- **Only names decide about selections that are sound apart from them.** -/
theorem selectionColumns_of_repaired (fixes : ∀ n, isIdentifier n = true → f n = n)
    {keys : List String} {position : Nat} {es : List Expr} {columns : List Column}
    (h : selectionColumns s keys position (es.map (Expr.mapAliases f)) = .ok columns) :
    DecidedBy (misnamedFailure "Alias") (· = columns) (misnamed (es.filterMap Expr.heading?))
      (selectionColumns s keys position es) := by
  induction es generalizing position columns with
  | nil =>
    cases h
    exact ⟨[], rfl, rfl⟩
  | cons e rest ih =>
    obtain ⟨type, name, more, hrefs, htype, hname, hmore, rfl⟩ :=
      selectionColumns_cons_eq_ok.mp h
    rw [Expr.infer_mapAliases] at htype
    have hrefs : checkSelectionReferences s keys e = .ok () := by
      rw [← hrefs, checkSelectionReferences, checkSelectionReferences, Expr.walk_mapAliases]
    have hstep : selectionColumns s keys position (e :: rest) =
        selectionName position e >>= fun name =>
          selectionColumns s keys (position + 1) rest >>= fun more =>
            .ok (⟨name, type⟩ :: more) := by
      simp [selectionColumns, hrefs, htype]
    rw [hstep]
    cases hheading : e.heading? with
    | none =>
      rw [selectionName_mapAliases hheading] at hname
      rw [List.filterMap_cons_none hheading, hname]
      exact (ih hmore).bind_ok fun _ own hown => ⟨_, rfl, by rw [hown]⟩
    | some heading =>
      rw [List.filterMap_cons_some hheading]
      cases e with
      | named given inner =>
        obtain rfl : given = heading := by simpa [Expr.heading?] using hheading
        by_cases hid : isIdentifier given = true
        · rw [misnamed_cons_of_identifier hid]
          obtain ⟨rfl, _⟩ := requireIdentifier_text_eq_ok.mp hname
          rw [fixes given hid, selectionName,
            requireIdentifier_text_eq_ok.mpr ⟨rfl, hid⟩]
          exact (ih hmore).bind_ok fun _ own hown => ⟨_, rfl, by rw [hown]⟩
        · have hid : isIdentifier given = false := by simpa using hid
          rw [misnamed_cons hid, selectionName, requireIdentifier_misnamed hid]
          rfl
      | _ => simp [Expr.heading?] at hheading

/-- Terms are typed alike whatever the names in them are. -/
theorem checkTerms_mapAliases {inputs : List ColumnInput} :
    checkTerms s ((inputs.map (ColumnInput.mapAliases f)).map orderTerm) =
      checkTerms s (inputs.map orderTerm) := by
  have step (input : ColumnInput) :
      (orderTerm (input.mapAliases f)).term = (orderTerm input).term.mapAliases f := by
    cases input with
    | node e =>
      cases e with
      | grouping keys selections having => cases having <;> rfl
      | _ => rfl
    | _ => rfl
  induction inputs with
  | nil => rfl
  | cons input rest ih =>
    simp only [List.map_cons, checkTerms, step, Expr.infer_mapAliases, ih]

theorem checkHaving_mapAliases {grouped : Schema} {keys : List String} {having : Option Expr} :
    checkHaving s grouped keys (having.map (Expr.mapAliases f)) =
      checkHaving s grouped keys having := by
  cases having with
  | none => rfl
  | some having =>
    simp only [Option.map_some, checkHaving, checkHavingReferences, requirePredicate,
      Expr.walk_mapAliases, Expr.infer_mapAliases]

theorem extend_of_repaired (fixes : ∀ n, isIdentifier n = true → f n = n)
    {columns : List ColumnInput}
    (h : resolveExtend s (columns.map (ColumnInput.mapAliases f)) = .ok r) :
    DecidedBy (misnamedFailure "Alias") (fun own => own.schema = r.schema)
      (misnamed (columns.filterMap ColumnInput.heading?)) (resolveExtend s columns) := by
  obtain ⟨computed, schema, hne, hcomputed, hschema, rfl⟩ := resolveExtend_eq_ok.mp h
  have hne : requireNonEmpty columns "extend" = .ok () :=
    requireNonEmpty_eq_ok.mpr fun e => hne (by rw [e]; rfl)
  rw [resolveExtend, hne]
  refine (computedColumns_of_repaired fixes hcomputed).bind_ok fun _ own hown => ?_
  refine ⟨⟨.extend (own.map fun c => c.1.toExpr), schema⟩, ?_, rfl⟩
  rw [hown, hschema]
  rfl

theorem rename_of_repaired (fixes : ∀ n, isIdentifier n = true → f n = n) {input : RenameInput}
    (h : resolveRename s (.list (input.pairs.map fun pair => (pair.1, f pair.2))) = .ok r) :
    DecidedBy (misnamedFailure "Rename target") (fun own => own.schema = r.schema)
      (misnamed (input.pairs.map Prod.snd)) (resolveRename s input) := by
  obtain ⟨schema, hne, hpairs, hcol, hschema, rfl⟩ := resolveRename_eq_ok.mp h
  have hne : requireNonEmpty input.pairs "rename" = .ok () :=
    requireNonEmpty_eq_ok.mpr fun e => hne (List.map_eq_nil_iff.mpr e)
  rw [resolveRename, hne]
  refine (checkPairs_of_repaired fixes hpairs).bind_ok fun hgood _ _ => ?_
  have hsame : (input.pairs.map fun pair => (pair.1, f pair.2)) = input.pairs := by
    refine (List.map_congr_left fun pair hp => ?_).trans (List.map_id _)
    rw [fixes pair.2 (misnamed_eq_nil.mp hgood pair.2 (List.mem_map_of_mem hp))]
    rfl
  refine ⟨⟨.rename (input.pairs.map renamedColumn), schema⟩, ?_, rfl⟩
  rw [RenameInput.pairs, hsame] at hcol hschema
  rw [hcol, hschema]
  rfl

theorem groupBy_of_repaired (fixes : ∀ n, isIdentifier n = true → f n = n) {g : Grouping}
    (h : resolveGroupBy s ⟨g.keys, g.selections.map (Expr.mapAliases f),
      g.having.map (Expr.mapAliases f)⟩ = .ok r) :
    DecidedBy (misnamedFailure "Alias") (fun own => own.schema = r.schema)
      (misnamed (g.selections.filterMap Expr.heading?)) (resolveGroupBy s g) := by
  obtain ⟨columns, grouped, hk, hsel, hkeys, hcolumns, hgrouped, hhaving, rfl⟩ :=
    resolveGroupBy_eq_ok.mp h
  have hk : requireNonEmpty g.keys "groupBy keys" = .ok () := requireNonEmpty_eq_ok.mpr hk
  have hsel : requireNonEmpty g.selections "groupBy selections" = .ok () :=
    requireNonEmpty_eq_ok.mpr fun e => hsel (List.map_eq_nil_iff.mpr e)
  rw [checkHaving_mapAliases] at hhaving
  rw [resolveGroupBy, hk, hsel, hkeys]
  refine (selectionColumns_of_repaired fixes hcolumns).bind_ok fun _ own hown => ?_
  refine ⟨⟨.groupBy (g.keys.map .column) g.selections g.having, grouped⟩, ?_, rfl⟩
  rw [hown, hgrouped]
  show (checkHaving s grouped g.keys g.having >>= _) = _
  rw [hhaving]
  rfl

/-- **Only names decide about a request that is sound apart from them**, and of them only those
    that head a column. -/
theorem resolve_of_repaired (fixes : ∀ n, isIdentifier n = true → f n = n)
    {request : ClauseRequest} (h : s.resolve (request.mapAliases f) = .ok r) :
    DecidedBy (misnamedFailure request.kind.headingRole) (fun own => own.schema = r.schema)
      (misnamed request.headings) (s.resolve request) := by
  cases request with
  | select columns =>
    obtain ⟨names, schema, hne, hnames, hschema, rfl⟩ := resolveSelect_eq_ok.mp h
    have hne : columns ≠ [] := fun e => hne (by rw [e]; rfl)
    exact ⟨_, resolveSelect_eq_ok.mpr
      ⟨names, schema, hne, columnReferences_mapAliases.mp hnames, hschema, rfl⟩, rfl⟩
  | extend columns => exact extend_of_repaired fixes h
  | rename input => exact rename_of_repaired fixes h
  | filter predicate =>
    obtain ⟨htype, rfl⟩ := resolveFilter_eq_ok.mp h
    rw [Expr.infer_mapAliases] at htype
    exact ⟨_, resolveFilter_eq_ok.mpr ⟨htype, rfl⟩, rfl⟩
  | groupBy g => exact groupBy_of_repaired fixes h
  | orderBy inputs =>
    obtain ⟨hne, hterms, rfl⟩ := resolveOrderBy_eq_ok.mp h
    have hne : inputs ≠ [] := fun e => hne (by rw [e]; rfl)
    rw [checkTerms_mapAliases] at hterms
    exact ⟨_, resolveOrderBy_eq_ok.mpr ⟨hne, hterms, rfl⟩, rfl⟩
  | limit count => exact ⟨r, h, rfl⟩
  | offset count => exact ⟨r, h, rfl⟩
  | distinct columns =>
    obtain ⟨names, schema, hnames, hschema, rfl⟩ := resolveDistinct_eq_ok.mp h
    exact ⟨_, resolveDistinct_eq_ok.mpr
      ⟨names, schema, columnReferences_mapAliases.mp hnames, hschema, rfl⟩, rfl⟩
  | join other kind condition =>
    obtain ⟨k, otherSchema, combined, hk, hother, hcol, hcomb, hcond, rfl⟩ :=
      resolveJoin_eq_ok.mp h
    rw [Expr.infer_mapAliases] at hcond
    exact ⟨_, resolveJoin_eq_ok.mpr
      ⟨k, otherSchema, combined, hk, hother, hcol, hcomb, hcond, rfl⟩, rfl⟩

end Repaired

/-! ## 7. Pipelines -/

/-- **Every heading in the history of a pipeline is an identifier.** -/
theorem Accepts.headings {p q : Pipeline} {given : List ClauseRequest} (h : Accepts p given q)
    (fresh : p.history = []) : ∀ c ∈ q.clauses, ∀ n ∈ c.headings, isIdentifier n = true :=
  (h.invariant (P := fun _ => True) fresh trivial
    fun _ _ _ _ _ hr => ⟨trivial, resolve_headings hr⟩).2

/-- A refusal of the checks is attributed to the kind of clause that was asked for. -/
theorem Pipeline.apply_refused {p : Pipeline} {request : ClauseRequest} {cause : Cause}
    (h : p.schema.resolve request = refuse cause) :
    (p.apply request).result = .error (.refused ⟨cause, some request.kind.name⟩) := by
  unfold apply
  rw [h]
  rfl

/-- **Names are checked where they head a column, and nowhere else.** In every pipeline that starts
    at a made table all headings are identifiers, so that all names of a clause are identifiers
    iff the buried ones are. A request to the pipeline that is accepted with its names repaired is
    refused for its first heading that is no identifier, and accepted if there is none, whatever
    its buried names are. -/
theorem names_checked_as_headings {t : Table} (made : t.Made) (listening : Bool) :
    ∃ base, Pipeline.ofTable t listening = .ok base ∧ ∀ given p, Accepts base given p →
      (∀ c ∈ p.clauses, (∀ n ∈ c.headings, isIdentifier n = true) ∧
        ((∀ n ∈ c.aliases, isIdentifier n = true) ↔ ∀ n ∈ c.buried, isIdentifier n = true)) ∧
      ∀ request (repair : String → String), (∀ n, isIdentifier n = true → repair n = n) →
        ∀ repaired, (p.apply (request.mapAliases repair)).result = .ok repaired →
          (∀ n rest, misnamed request.headings = n :: rest → (p.apply request).result =
            .error (.refused ⟨.invalidValue n (.notAnIdentifier request.kind.headingRole),
              some request.kind.name⟩)) ∧
          (misnamed request.headings = [] →
            ∃ q, (p.apply request).result = .ok q ∧ q.schema = repaired.schema) := by
  refine ⟨_, Pipeline.ofTable_wellNamed made.wellNamed listening, fun given p h => ⟨?_, ?_⟩⟩
  · intro c hc
    have hheadings := h.headings rfl c hc
    refine ⟨hheadings, ?_⟩
    simp only [Clause.mem_aliases]
    constructor
    · intro hall n hn
      exact hall n (Or.inr hn)
    · intro hburied n hn
      rcases hn with hn | hn
      · exact hheadings n hn
      · exact hburied n hn
  · intro request repair fixes repaired hrepaired
    obtain ⟨r, hr, rfl⟩ := Pipeline.apply_eq_ok.mp hrepaired
    have hdecide := resolve_of_repaired fixes hr
    refine ⟨fun n rest hn => ?_, fun hn => ?_⟩
    · rw [hn] at hdecide
      exact Pipeline.apply_refused hdecide
    · rw [hn] at hdecide
      obtain ⟨own, hown, hschema⟩ := hdecide
      refine ⟨p.extended own, Pipeline.apply_eq_ok.mpr ⟨own, hown, rfl⟩, ?_⟩
      rw [Pipeline.schema_extended, Pipeline.schema_extended, hschema]

/-- A condition under a name that is no identifier. -/
def misnamedFilter : ClauseRequest :=
  .filter (.named "bad name!" (.binary (.comparison .greater) (.column "age")
    (.literal (.integer ⟨0x403e000000000000⟩))))

/-- A column whose name is no identifier, and neither is a name inside of it. -/
def misnamedExtend : ClauseRequest :=
  .extend [.node (.named "next age" (.binary (.arithmetic .add) (.named "the age" (.column "age"))
    (.literal (.integer ⟨0x3ff0000000000000⟩))))]

/-- Puts an identifier in place of other names. -/
def repairedName (n : String) : String := if isIdentifier n then n else "repaired"

/-- After the condition was accepted, the column is refused for its heading. -/
theorem names_checked_as_headings_misnamed :
    Table.people.Made ∧ Pipeline.ofTable .people true = .ok .ofPeople ∧
      (∀ n, isIdentifier n = true → repairedName n = n) ∧
      ∃ p repaired, Accepts .ofPeople [misnamedFilter] p ∧
        (p.apply (misnamedExtend.mapAliases repairedName)).result = .ok repaired ∧
        (p.apply misnamedExtend).result =
          .error (.refused
            ⟨.invalidValue "next age" (.notAnIdentifier "Alias"), some "Extend"⟩) := by
  have fixes : ∀ n, isIdentifier n = true → repairedName n = n := fun n h => if_pos h
  obtain ⟨base, hbase, hchecked⟩ := names_checked_as_headings Table.people_made true
  obtain rfl : Pipeline.ofPeople = base := Except.ok.inj hbase
  have haccepts : Accepts .ofPeople [misnamedFilter] _ := .single rfl
  obtain ⟨_, hrequest⟩ := hchecked _ _ haccepts
  exact ⟨Table.people_made, rfl, fixes, _, _, haccepts, rfl,
    (hrequest misnamedExtend repairedName fixes _ rfl).1 "next age" [] rfl⟩

/-- **A buried name need not be an identifier**, and is written as it is. -/
theorem buried_name_accepted :
    Table.people.Made ∧ Pipeline.ofTable .people true = .ok .ofPeople ∧
      ∃ p, Accepts .ofPeople [misnamedFilter] p ∧
        (∃ c ∈ p.clauses, ∃ n ∈ c.aliases, isIdentifier n = false) ∧
        (p.render ({} : Arrow).renderer).result =
          .ok "company.people\n->filter((age > 30) as bad name!)" := by
  refine ⟨Table.people_made, rfl, _, Accepts.single rfl, ?_, ?_⟩
  · exact ⟨_, List.mem_singleton.mpr rfl, "bad name!", List.mem_cons_self, by decide⟩
  · decide +kernel

end QueryPipeline
