import QueryPipeline.Proofs.Groupings
import QueryPipeline.Proofs.Refusals

/-!
# What refusals say

A refused request is told a cause, and the cause is a fact about the request and the schema it was
made on, although it is found by checks that know neither.

* `ClauseRequest.Explains s` says of each cause what it must mean for the request, with its subject
  and its reason;
* there is one lemma for each kind of request (`select_explains`, `extend_explains`, ...), and
  **`resolve_explains`** puts them together;
* **`rejections_truthful`**: what a pipeline is refused for is the cause that its checks gave,
  attributed to the kind of clause that was asked for, and it is true.
-/

namespace QueryPipeline

variable {s : Schema}

/-! ## 1. What a cause must mean -/

/-- The column that an expression is. -/
def Expr.columnName? : Expr → Option String
  | column name => some name
  | _ => none

/-- The columns that are listed, in order. -/
def listedNames (columns : List ColumnInput) : List String :=
  columns.filterMap fun input => input.toExpr.columnName?

namespace ClauseRequest

/-- The request names a column, and the schema in which it looks for it lacks it. -/
def NamesMissing (s : Schema) (n : String) : ClauseRequest → Prop
  | select columns | distinct columns => n ∈ listedNames columns ∧ n ∉ s.names
  | extend columns | orderBy columns =>
    (∃ input ∈ columns, n ∈ input.toExpr.references) ∧ n ∉ s.names
  | rename input => n ∈ input.pairs.map Prod.fst ∧ n ∉ s.names
  | filter predicate => n ∈ predicate.references ∧ n ∉ s.names
  | groupBy g =>
    n ∉ s.names ∧ (n ∈ g.keys ∨ (∃ e ∈ g.selections, n ∈ e.references) ∨
      (∃ e ∈ g.having, n ∈ e.references) ∧ n ∉ g.resultNames)
  | join other _ condition =>
    n ∈ condition.references ∧ n ∉ s.names ∧ n ∉ columnNames other.columns
  | limit _ | offset _ => False

/-- The request would make two columns of one name, or names a column twice. -/
def NamesTwice (s : Schema) (n : String) : ClauseRequest → Prop
  | select columns | distinct columns => (listedNames columns).Duplicate n
  | extend columns =>
    n ∈ columns.filterMap ColumnInput.heading? ∧ n ∈ s.names ∨
      (columns.filterMap ColumnInput.heading?).Duplicate n
  | rename input =>
    (input.pairs.map Prod.fst).Duplicate n ∨ (input.pairs.map Prod.snd).Duplicate n ∨
      n ∈ input.pairs.map Prod.snd ∧ n ∈ s.names ∧ n ∉ input.pairs.map Prod.fst
  | groupBy g => g.resultNames.Duplicate n
  | join other _ _ => n ∈ s.names ∧ n ∈ columnNames other.columns
  | _ => False

/-- A condition or a selection of a grouping uses a column of the schema that the grouping does not
    keep for it. -/
def Misuses (s : Schema) (n : String) (fault : ReferenceFault) : ClauseRequest → Prop
  | groupBy g =>
    n ∈ s.names ∧
      match fault with
      | .neitherKeyNorAggregate => n ∉ g.keys ∧ ∃ e ∈ g.selections, n ∈ e.looseReferences
      | .keyNotSelected => n ∈ g.keys ∧ n ∉ g.resultNames ∧ ∃ e ∈ g.having, n ∈ e.references
      | .notGrouped => n ∉ g.keys ∧ n ∉ g.resultNames ∧ ∃ e ∈ g.having, n ∈ e.references
      | .described _ => False
  | _ => False

/-- A list that must have entries has none. -/
def LacksEntries (what : String) : ClauseRequest → Prop
  | select columns => columns = [] ∧ what = "select"
  | extend columns => columns = [] ∧ what = "extend"
  | rename input => input.pairs = [] ∧ what = "rename"
  | groupBy g =>
    g.keys = [] ∧ what = "groupBy keys" ∨ g.selections = [] ∧ what = "groupBy selections"
  | orderBy terms => terms = [] ∧ what = "orderBy"
  | _ => False

/-- A value of the request is none of those that its place allows. -/
def HasInvalid (subject : String) (fault : ValueFault) (request : ClauseRequest) : Prop :=
  match fault with
  | .noEntries what => subject = "[]" ∧ request.LacksEntries what
  | .notAnIdentifier what =>
    subject ∈ request.headings ∧ isIdentifier subject = false ∧ what = request.kind.headingRole
  | .notACount what =>
    ∃ count, (request = limit count ∧ what = "limit" ∨ request = offset count ∧ what = "offset") ∧
      subject = count.text ∧ ∀ n, count.safeInteger? = some n → n < 0
  | .unknownJoinKind =>
    ∃ other condition, request = join other subject condition ∧ ¬ (JoinKind.ofText subject).Known
  | _ => False

/-- An input is no reference to a column, where a clause takes only these. -/
def Unlisted (clause subject : String) (fault : TypeFault) (columns : List ColumnInput) : Prop :=
  ∃ input ∈ columns, (∀ n, input.toExpr ≠ .column n) ∧
    subject = input.toExpr.kindName ∧ fault = .notAColumn clause

/-- An expression of the request has no type that its place allows, which is said of the node whose
    rule it breaks, or of the clause if only a boolean is missing there; or an input is no
    expression of the kind that its place allows. -/
def HasMistyped (s : Schema) (subject : String) (fault : TypeFault) : ClauseRequest → Prop
  | select columns => Unlisted "select" subject fault columns
  | distinct columns => Unlisted "distinct" subject fault columns
  | extend columns =>
    ∃ input ∈ columns, ((∀ name inner, input ≠ .node (.named name inner)) ∧
      subject = input.kindName ∧ fault = .notAliased) ∨ input.toExpr.Mistyped s {} subject fault
  | filter predicate => predicate.NoPredicate s {} "filter" "predicate" subject fault
  | groupBy g =>
    (∃ e ∈ g.selections, e.Mistyped s .grouped subject fault) ∨
      ∃ grouped, g.Gives s grouped ∧
        ∃ e ∈ g.having, e.NoPredicate grouped .grouped "having" "predicate" subject fault
  | orderBy inputs => ∃ input ∈ inputs, (orderTerm input).term.Mistyped s {} subject fault
  | join other _ condition =>
    ∃ both : Schema, both.columns = s.columns ++ other.columns ∧
      condition.NoPredicate both {} "join" "condition" subject fault
  | rename _ | limit _ | offset _ => False

/-- **What a cause must mean** where a request is refused for it. -/
def Explains (s : Schema) (request : ClauseRequest) : Cause → Prop
  | .unknownColumn n => request.NamesMissing s n
  | .typeMismatch subject fault => request.HasMistyped s subject fault
  | .duplicateColumn n => request.NamesTwice s n
  | .invalidReference n fault => request.Misuses s n fault
  | .invalidValue subject fault => request.HasInvalid subject fault
  | .unsupported _ _ => False

end ClauseRequest

/-! ## 2. Names in requests -/

/-- What was accepted as references are the listed columns. -/
theorem listedNames_eq {clause : String} {inputs : List ColumnInput} {names : List String}
    (h : columnReferences clause inputs = .ok names) : listedNames inputs = names := by
  have hinputs := columnReferences_eq_ok.mp h
  have hlisted :
      listedNames inputs = (inputs.map ColumnInput.toExpr).filterMap Expr.columnName? := by
    rw [List.filterMap_map]
    rfl
  rw [hlisted, hinputs, List.filterMap_map]
  simp [Expr.columnName?, Function.comp_def]

/-- A name that two lists put together repeat is in both, or the second list repeats it. -/
theorem duplicate_append {first second : List String} {n : String} (h : first.Nodup)
    (hn : (first ++ second).Duplicate n) : n ∈ first ∧ n ∈ second ∨ second.Duplicate n := by
  induction first with
  | nil => exact Or.inr hn
  | cons m rest ih =>
    obtain ⟨hm, hrest⟩ := List.nodup_cons.mp h
    rw [List.cons_append] at hn
    rcases List.duplicate_cons_iff.mp hn with ⟨rfl, hmem⟩ | hn
    · rcases List.mem_append.mp hmem with hmem | hmem
      · exact absurd hmem hm
      · exact Or.inl ⟨List.mem_cons_self, hmem⟩
    · exact (ih hrest hn).imp_left fun h => ⟨List.mem_cons_of_mem _ h.1, h.2⟩

/-- The computed columns have the names of the inputs. -/
theorem computedColumns_headings {earlier : List String} {inputs : List ColumnInput}
    {computed : List (Aliased × Column)} (h : computedColumns s earlier inputs = .ok computed) :
    columnNames (computed.map Prod.snd) = inputs.filterMap ColumnInput.heading? := by
  obtain ⟨rfl, hcolumns, _⟩ := computedColumns_eq_ok.mp h
  rw [columnNames, List.map_map, List.filterMap_map, ← List.filterMap_eq_map]
  refine List.filterMap_congr fun c hc => ?_
  show some c.2.name = some c.1.name
  rw [(hcolumns c hc).2.1]

/-- An ordering term mentions what its input mentions. -/
theorem orderTerm_references (input : ColumnInput) :
    (orderTerm input).term.references = input.toExpr.references := by
  unfold orderTerm
  split <;> rfl

/-! ## 3. Kinds of request -/

/-- What listed columns that are projected are refused for, in either kind of clause. -/
theorem listed_refused {P : Cause → Prop} {columns : List ColumnInput} {names : List String}
    {clause : String} (hnames : columnReferences clause columns = .ok names)
    (unknown : ∀ n, n ∈ listedNames columns → n ∉ s.names → P (.unknownColumn n))
    (twice : ∀ n, (listedNames columns).Duplicate n → P (.duplicateColumn n)) :
    RefusedFor P (s.project names) := by
  obtain rfl := listedNames_eq hnames
  exact Schema.project_refused (fun n hn hs => unknown n hn hs) twice

theorem select_explains (columns : List ColumnInput) :
    RefusedFor ((ClauseRequest.select columns).Explains s) (resolveSelect s columns) := by
  refine (requireNonEmpty_refused fun h => ⟨rfl, h, rfl⟩).bind fun _ _ => ?_
  refine (columnReferences_refused fun input hi hother => ⟨input, hi, hother, rfl, rfl⟩).bind
    fun names hnames => ?_
  exact (listed_refused hnames (fun n hn hs => ⟨hn, hs⟩) fun n hn => hn).bind fun _ _ => .ok _

theorem distinct_explains (columns : List ColumnInput) :
    RefusedFor ((ClauseRequest.distinct columns).Explains s) (resolveDistinct s columns) := by
  refine (columnReferences_refused fun input hi hother => ⟨input, hi, hother, rfl, rfl⟩).bind
    fun names hnames => ?_
  refine .ite (fun _ => .ok _) fun _ => ?_
  exact (listed_refused hnames (fun n hn hs => ⟨hn, hs⟩) fun n hn => hn).bind fun _ _ => .ok _

theorem extend_explains (columns : List ColumnInput) :
    RefusedFor ((ClauseRequest.extend columns).Explains s) (resolveExtend s columns) := by
  refine (requireNonEmpty_refused fun h => ⟨rfl, h, rfl⟩).bind fun _ _ => ?_
  refine RefusedFor.bind (computedColumns_refused ?_ ?_ ?_ ?_ ?_ ?_) fun computed hcomputed => ?_
  · exact fun input hi hother => ⟨input, hi, Or.inl ⟨hother, rfl, rfl⟩⟩
  · exact fun input hi subject fault h => ⟨input, hi, Or.inr h⟩
  · exact fun input hi n hn hs => ⟨⟨input, hi, hn⟩, hs⟩
  · exact fun n hn hid => ⟨hn, hid, rfl⟩
  · exact fun n hn htaken => htaken.elim (fun hs => Or.inl ⟨hn, hs⟩) fun h => by cases h
  · exact fun n hn => Or.inr hn
  refine (Schema.ofColumns_refused fun n hn => ?_).bind fun _ _ => .ok _
  rw [columnNames, List.map_append, ← columnNames, ← columnNames,
    computedColumns_headings hcomputed] at hn
  exact (duplicate_append s.distinct hn).imp_left And.symm

theorem rename_explains (input : RenameInput) :
    RefusedFor ((ClauseRequest.rename input).Explains s) (resolveRename s input) := by
  refine (requireNonEmpty_refused fun h => ⟨rfl, h, rfl⟩).bind fun _ _ => ?_
  refine RefusedFor.bind (checkPairs_refused ?_ ?_ ?_ ?_ ?_ ?_) fun _ hpairs => ?_
  · exact fun n hn hs => ⟨hn, hs⟩
  · exact fun n hn hid => ⟨hn, hid, rfl⟩
  · exact fun n _ h => by cases h
  · exact fun n _ h => by cases h
  · exact fun n hn => Or.inl hn
  · exact fun n hn => Or.inr (Or.inl hn)
  cases hfree : collidingTarget? s input.pairs with
  | some target =>
    have htarget := List.mem_of_find?_eq_some hfree
    have hcollides : s.has target = true ∧ target ∉ input.pairs.map Prod.fst := by
      simpa using List.find?_some hfree
    exact .refuse (Or.inr (Or.inr ⟨htarget, Schema.has_iff.mp hcollides.1, hcollides.2⟩))
  | none =>
    obtain ⟨t, ht⟩ := Schema.rename_succeeds hpairs hfree
    show RefusedFor _ (s.rename input.pairs >>= _)
    rw [ht]
    exact .ok _

theorem filter_explains (predicate : Expr) :
    RefusedFor ((ClauseRequest.filter predicate).Explains s) (resolveFilter s predicate) :=
  (requirePredicate_refused (fun _ hn hs => ⟨hn, hs⟩) fun _ _ h => h).bind fun _ _ => .ok _

/-- The condition on groups is refused for what it means on the schema that the grouping gives. -/
theorem having_explains {g : Grouping} {grouped : Schema} (gives : g.Gives s grouped)
    (known : ∀ key ∈ g.keys, s.has key = true) :
    RefusedFor ((ClauseRequest.groupBy g).Explains s) (checkHaving s grouped g.keys g.having) := by
  have lost {n : String} (h : n ∉ grouped.names) : n ∉ g.resultNames := gives.names ▸ h
  refine checkHaving_refused ?_ ?_ ?_ ?_
  · exact fun e he n hn hlost hkey =>
      ⟨Schema.has_iff.mp (known n hkey), hkey, lost hlost, e, he, hn⟩
  · exact fun e he n hn hlost hkey hs => ⟨hs, hkey, lost hlost, e, he, hn⟩
  · exact fun e he n hn hlost hs => ⟨hs, Or.inr (Or.inr ⟨⟨e, he, hn⟩, lost hlost⟩)⟩
  · exact fun e he subject fault h => Or.inr ⟨grouped, gives, e, he, h⟩

theorem groupBy_explains (g : Grouping) :
    RefusedFor ((ClauseRequest.groupBy g).Explains s) (resolveGroupBy s g) := by
  refine (requireNonEmpty_refused fun h => ⟨rfl, Or.inl ⟨h, rfl⟩⟩).bind fun _ _ => ?_
  refine (requireNonEmpty_refused fun h => ⟨rfl, Or.inr ⟨h, rfl⟩⟩).bind fun _ _ => ?_
  refine (checkKeys_refused fun n hn hs => ⟨hs, Or.inl hn⟩).bind fun _ hkeys => ?_
  refine RefusedFor.bind (selectionColumns_refused ?_ ?_ ?_ ?_) fun columns hcolumns => ?_
  · exact fun e he n hn hkey hs => ⟨hs, hkey, e, he, hn⟩
  · exact fun e he n hn hs => ⟨hs, Or.inr (Or.inl ⟨e, he, hn⟩)⟩
  · exact fun e he subject fault h => Or.inl ⟨e, he, h⟩
  · exact fun n hn hid => ⟨hn, hid, rfl⟩
  obtain ⟨selectable, hnames, _⟩ := selectionColumns_eq_ok.mp hcolumns
  have htwice (n : String) (hn : (columnNames columns).Duplicate n) :
      g.resultNames.Duplicate n := by rwa [hnames] at hn
  refine (Schema.ofColumns_refused htwice).bind fun grouped hgrouped => ?_
  obtain rfl := Schema.ofColumns_eq_ok.mp hgrouped
  have gives := (Grouping.gives_iff selectable).mpr hcolumns
  exact (having_explains gives (checkKeys_eq_ok.mp hkeys)).bind fun _ _ => .ok _

theorem orderBy_explains (inputs : List ColumnInput) :
    RefusedFor ((ClauseRequest.orderBy inputs).Explains s) (resolveOrderBy s inputs) := by
  refine (requireNonEmpty_refused fun h => ⟨rfl, h, rfl⟩).bind fun _ _ => ?_
  refine RefusedFor.bind (checkTerms_refused ?_ ?_) fun _ _ => .ok _
  · intro t ht n hn hs
    obtain ⟨input, hinput, rfl⟩ := List.mem_map.mp ht
    exact ⟨⟨input, hinput, orderTerm_references input ▸ hn⟩, hs⟩
  · intro t ht subject fault h
    obtain ⟨input, hinput, rfl⟩ := List.mem_map.mp ht
    exact ⟨input, hinput, h⟩

theorem limit_explains (count : Binary64) :
    RefusedFor ((ClauseRequest.limit count).Explains s) (resolveLimit s count) := by
  refine (requireCount_refused fun h => ?_).bind fun _ _ => .ok _
  exact ⟨count, Or.inl ⟨rfl, rfl⟩, rfl, h⟩

theorem offset_explains (count : Binary64) :
    RefusedFor ((ClauseRequest.offset count).Explains s) (resolveOffset s count) := by
  refine (requireCount_refused fun h => ?_).bind fun _ _ => .ok _
  exact ⟨count, Or.inr ⟨rfl, rfl⟩, rfl, h⟩

theorem join_explains {other : Table} (named : other.WellNamed) (kind : String)
    (condition : Expr) :
    RefusedFor ((ClauseRequest.join other kind condition).Explains s)
      (resolveJoin s other kind condition) := by
  refine (requireJoinKind_refused fun h => ⟨other, condition, rfl, h⟩).bind fun _ _ => ?_
  show RefusedFor _ (other.schema >>= _)
  rw [named.schema_eq, Outcome.ok_bind]
  refine (checkCollisions_refused fun n hn hother => ⟨hn, hother⟩).bind fun _ _ => ?_
  refine (Schema.ofColumns_refused fun n hn => ?_).bind fun combined hcombined => ?_
  · rw [columnNames, List.map_append, ← columnNames, ← columnNames] at hn
    exact (duplicate_append s.distinct hn).resolve_right fun h => h.not_nodup named.distinct
  · have hcolumns := Schema.ofColumns_eq_ok.mp hcombined
    refine (requirePredicate_refused (fun n hn hmissing => ?_) fun subject fault h =>
      ⟨combined, hcolumns, h⟩).bind fun _ _ => .ok _
    rw [Schema.names, hcolumns, columnNames, List.map_append, List.mem_append, not_or] at hmissing
    exact ⟨hn, hmissing.1, hmissing.2⟩

/-- **What a request is refused for is true**, if the columns of joined tables have distinct
    names. -/
theorem resolve_explains {request : ClauseRequest}
    (joined : ∀ other, request.joined? = some other → other.WellNamed) :
    RefusedFor (request.Explains s) (s.resolve request) := by
  cases request with
  | select columns => exact select_explains columns
  | distinct columns => exact distinct_explains columns
  | extend columns => exact extend_explains columns
  | rename input => exact rename_explains input
  | filter predicate => exact filter_explains predicate
  | groupBy g => exact groupBy_explains g
  | orderBy inputs => exact orderBy_explains inputs
  | limit count => exact limit_explains count
  | offset count => exact offset_explains count
  | join other kind condition => exact join_explains (joined other rfl) kind condition

/-! ## 4. Pipelines -/

/-- A refused request was refused by its checks, for the same cause. -/
theorem Pipeline.apply_eq_refused {p : Pipeline} {request : ClauseRequest} {refusal : Refusal}
    (h : (p.apply request).result = .error (.refused refusal)) :
    ∃ raised, p.schema.resolve request = .error (.refused raised) ∧
      refusal = raised.inClause request.kind.name := by
  unfold apply at h
  cases hresolve : p.schema.resolve request with
  | ok r =>
    rw [hresolve] at h
    cases h
  | error failure =>
    rw [hresolve] at h
    cases failure with
    | refused raised =>
      exact ⟨raised, rfl, (Failure.refused.inj (Except.error.inj h)).symm⟩
    | defect message => cases h

/-- **Refusals tell the truth.** Whatever a pipeline is, a request for one clause that is refused is
    attributed to the kind of clause that was asked for, with the cause that the checks gave on the
    schema of the pipeline, and this cause means of the request what it says: columns are missing
    or repeated, are not kept by a grouping, or types and values do not fit their places. Nothing
    is refused as unsupported. -/
theorem rejections_truthful {p : Pipeline} {request : ClauseRequest} {refusal : Refusal}
    (joined : ∀ other, request.joined? = some other → other.Made)
    (h : (p.apply request).result = .error (.refused refusal)) :
    refusal.clause = some request.kind.name ∧
      (∃ raised, p.schema.resolve request = .error (.refused raised) ∧
        refusal.cause = raised.cause) ∧
      request.Explains p.schema refusal.cause := by
  obtain ⟨raised, hraised, rfl⟩ := Pipeline.apply_eq_refused h
  refine ⟨rfl, ⟨raised, hraised, rfl⟩, ?_⟩
  exact resolve_explains (fun other hother => (joined other hother).wellNamed) raised hraised

/-- A grouping by team with a condition on the ages, which the grouping does not keep. -/
def elderTeams : ClauseRequest :=
  .groupBy ⟨["team"], [.column "team"],
    some (.binary (.comparison .greater) (.column "age") (.literal (.long 30)))⟩

/-- A join on a column that neither side has. -/
def joinByCity : ClauseRequest :=
  .join .teams "inner" (.binary (.comparison .equal) (.column "team") (.column "city"))

/-- A filter that adds a number to a name, below another name and a comparison. -/
def nameFilter : ClauseRequest :=
  .filter (.binary (.comparison .greater)
    (.named "sum" (.binary (.arithmetic .add) (.column "name") (.literal (.long 1))))
    (.literal (.long 30)))

/-- The ages are columns of the people that the grouping has neither as key nor as result; the city
    is a column of neither side; the rule of the addition refuses the name. -/
theorem rejections_truthful_people :
    (Pipeline.ofPeople.apply elderTeams).result =
        .error (.refused ⟨.invalidReference "age" .notGrouped, some "GroupBy"⟩) ∧
      elderTeams.Explains Pipeline.ofPeople.schema (.invalidReference "age" .notGrouped) ∧
    (Pipeline.ofPeople.apply joinByCity).result =
        .error (.refused ⟨.unknownColumn "city", some "Join"⟩) ∧
      joinByCity.Explains Pipeline.ofPeople.schema (.unknownColumn "city") ∧
    (Pipeline.ofPeople.apply nameFilter).result =
        .error (.refused ⟨.typeMismatch "+" (.arithmeticOnNonNumeric .string .long),
          some "Filter"⟩) ∧
      nameFilter.Explains Pipeline.ofPeople.schema
        (.typeMismatch "+" (.arithmeticOnNonNumeric .string .long)) := by
  have hgroup : (Pipeline.ofPeople.apply elderTeams).result =
      .error (.refused ⟨.invalidReference "age" .notGrouped, some "GroupBy"⟩) := rfl
  have hjoin : (Pipeline.ofPeople.apply joinByCity).result =
      .error (.refused ⟨.unknownColumn "city", some "Join"⟩) := rfl
  have hfilter : (Pipeline.ofPeople.apply nameFilter).result =
      .error (.refused ⟨.typeMismatch "+" (.arithmeticOnNonNumeric .string .long),
        some "Filter"⟩) := rfl
  refine ⟨hgroup, (rejections_truthful (fun other hother => by cases hother) hgroup).2.2, hjoin, ?_,
    hfilter, (rejections_truthful (fun other hother => by cases hother) hfilter).2.2⟩
  refine (rejections_truthful (fun other hother => ?_) hjoin).2.2
  obtain rfl := Option.some.inj hother
  exact Table.teams_made

end QueryPipeline
