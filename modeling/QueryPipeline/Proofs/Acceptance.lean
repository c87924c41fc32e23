import Mathlib.Data.List.Nodup
import QueryPipeline.Clause.Resolve
import QueryPipeline.Proofs.Tables

/-!
# When a request is accepted

One lemma for each check and each kind of request: the request is accepted with a result iff its
checks hold, and then the result is the one written here. Everything else that is proved about
accepted requests starts from these lemmas and opens no check again.

* `Schema.get_eq_ok_iff`, `Schema.project_eq_ok_iff`: looking columns up, one or several;
* `columnReferences_eq_ok`, `computedColumns_eq_ok`, `requireJoinKind_eq_ok`, ...: the checks;
* `resolveSelect_eq_ok`, ..., `resolveJoin_eq_ok`: the ten kinds of request.
-/

namespace QueryPipeline

variable {α : Type} {s : Schema} {r : Resolved}

/-! ## 1. Single checks -/

@[simp] theorem requireNonEmpty_eq_ok {items : List α} {what : String} {u : Unit} :
    requireNonEmpty items what = .ok u ↔ items ≠ [] := by
  cases items <;> simp [requireNonEmpty]

@[simp] theorem requireBoolean_eq_ok {subject role : String} {type : ColumnType} {u : Unit} :
    requireBoolean subject role type = .ok u ↔ type = .boolean := by
  by_cases h : type = .boolean <;> simp [requireBoolean, mistyped, h]

@[simp] theorem requirePredicate_eq_ok {mode : Mode} {subject role : String} {e : Expr} {u : Unit} :
    requirePredicate s mode subject role e = .ok u ↔ e.infer s mode = .ok .boolean := by
  simp [requirePredicate, Outcome.bind_eq_ok]

theorem requireJoinKind_eq_ok {text : String} {kind : JoinKind} :
    requireJoinKind text = .ok kind ↔ JoinKind.ofText text = kind ∧ kind.Known := by
  unfold requireJoinKind
  cases h : JoinKind.ofText text with
  | other word =>
    refine iff_of_false (by simp) ?_
    rintro ⟨rfl, hknown⟩
    exact JoinKind.vocabulary.other_unknown word hknown
  | _ =>
    rw [ok_eq_ok_comm, eq_comm]
    exact (and_iff_left_of_imp fun hkind => hkind ▸ by decide).symm

/-! ## 2. Columns -/

theorem Schema.get_eq_ok {name : String} {c : Column} :
    s.get name = .ok c ↔ s.find? name = some c := by
  unfold get
  cases s.find? name <;> simp

/-- Looking a column up succeeds iff the schema has it. -/
theorem Schema.has_iff_get {name : String} : s.has name = true ↔ ∃ c, s.get name = .ok c := by
  simp only [get_eq_ok, find?, has_iff, names, columnNames, List.mem_map,
    ← Option.isSome_iff_exists, List.find?_isSome, beq_iff_eq]

/-- **A column is found iff it is the one of that name.** -/
theorem Schema.get_eq_ok_iff {name : String} {c : Column} :
    s.get name = .ok c ↔ c ∈ s.columns ∧ c.name = name := by
  rw [get_eq_ok]
  constructor
  · intro h
    exact ⟨List.mem_of_find?_eq_some h, by simpa using List.find?_some h⟩
  · rintro ⟨hc, rfl⟩
    cases hfind : s.find? c.name with
    | none => exact absurd (List.find?_eq_none.mp hfind c hc) (by simp)
    | some d =>
      have hd : d ∈ s.columns := List.mem_of_find?_eq_some hfind
      have hname : d.name = c.name := by simpa using List.find?_some hfind
      rw [List.inj_on_of_nodup_map s.distinct hd hc hname]

/-- **Looking names up gives the columns of the schema with these names**, in their order. -/
theorem Schema.getAll_eq_ok_iff {names : List String} {columns : List Column} :
    s.getAll names = .ok columns ↔
      columnNames columns = names ∧ ∀ c ∈ columns, c ∈ s.columns := by
  induction names generalizing columns with
  | nil => cases columns <;> simp [getAll, columnNames]
  | cons n rest ih =>
    simp only [getAll, Outcome.bind_eq_ok, get_eq_ok_iff, ih, Outcome.pure_eq, Except.ok.injEq]
    cases columns with
    | nil => simp [columnNames]
    | cons c columns =>
      simp only [columnNames, List.map_cons, List.cons.injEq, List.forall_mem_cons]
      constructor
      · intro h
        obtain ⟨_, ⟨hc, hname⟩, _, ⟨hnames, hmem⟩, rfl, rfl⟩ := h
        exact ⟨⟨hname, hnames⟩, hc, hmem⟩
      · intro h
        obtain ⟨⟨hname, hnames⟩, hc, hmem⟩ := h
        exact ⟨c, ⟨hc, hname⟩, columns, ⟨hnames, hmem⟩, rfl, rfl⟩

theorem Schema.ofColumns_eq_ok {columns : List Column} :
    ofColumns columns = .ok s ↔ s.columns = columns := by
  unfold ofColumns
  constructor
  · intro h
    split at h
    · exact congrArg Schema.columns (Except.ok.inj h).symm
    · simp at h
  · intro h
    rw [← h, dif_pos s.distinct]

/-- **A projection has the given names and columns of the schema.** -/
theorem Schema.project_eq_ok_iff {names : List String} {schema : Schema} :
    s.project names = .ok schema ↔
      schema.names = names ∧ ∀ c ∈ schema.columns, c ∈ s.columns := by
  simp only [project, Outcome.bind_eq_ok, ofColumns_eq_ok, getAll_eq_ok_iff, exists_eq_right']
  rfl

/-- The names of a schema whose columns are columns of another one are names of that one. -/
theorem Schema.names_subset {t : Schema} (h : ∀ c ∈ t.columns, c ∈ s.columns) {n : String}
    (hn : n ∈ t.names) : n ∈ s.names := by
  obtain ⟨c, hc, rfl⟩ := List.mem_map.mp hn
  exact List.mem_map_of_mem (h c hc)

theorem columnReference_eq_ok {clause name : String} {input : ColumnInput} :
    columnReference clause input = .ok name ↔ input.toExpr = .column name := by
  unfold columnReference
  cases input.toExpr <;> simp [mistyped]

/-- **References are accepted iff every input refers to a column.** -/
theorem columnReferences_eq_ok {clause : String} {inputs : List ColumnInput} {names : List String} :
    columnReferences clause inputs = .ok names ↔
      inputs.map ColumnInput.toExpr = names.map Expr.column := by
  induction inputs generalizing names with
  | nil => cases names <;> simp [columnReferences]
  | cons input rest ih =>
    simp only [columnReferences, Outcome.bind_eq_ok, columnReference_eq_ok, ih]
    cases names with
    | nil => simp
    | cons name names =>
      simp only [Outcome.pure_eq, Except.ok.injEq, List.map_cons, List.cons.injEq]
      constructor
      · intro h
        obtain ⟨n, hn, ns, hns, rfl, rfl⟩ := h
        exact ⟨hn, hns⟩
      · intro h
        obtain ⟨hn, hns⟩ := h
        exact ⟨name, hn, names, hns, rfl, rfl⟩

theorem requireAliased_eq_ok {input : ColumnInput} {a : Aliased} :
    requireAliased input = .ok a ↔ input = .node a.toExpr := by
  obtain ⟨name, expr⟩ := a
  unfold requireAliased Aliased.toExpr
  split <;> simp_all [mistyped]

/-- What it takes for one computed column to be accepted, and the others after it. -/
theorem computedColumns_cons_eq_ok {earlier : List String} {input : ColumnInput}
    {rest : List ColumnInput} {computed : List (Aliased × Column)} :
    computedColumns s earlier (input :: rest) = .ok computed ↔
      ∃ a type more, input = .node a.toExpr ∧ isIdentifier a.name = true ∧
        s.has a.name = false ∧ a.name ∉ earlier ∧ a.expr.infer s {} = .ok type ∧
        computedColumns s (a.name :: earlier) rest = .ok more ∧
        computed = (a, ⟨a.name, type⟩) :: more := by
  simp only [computedColumns, Outcome.bind_eq_ok, requireAliased_eq_ok,
    requireIdentifier_text_eq_ok]
  constructor
  · intro h
    obtain ⟨a, hin, _, ⟨rfl, hid⟩, h⟩ := h
    simp only [refuse_bind, ite_refuse_eq_ok, Outcome.bind_eq_ok, Bool.or_eq_true, not_or,
      Bool.not_eq_true, List.contains_eq_mem, decide_eq_false_iff_not] at h
    obtain ⟨⟨hnew, hearlier⟩, type, htype, more, hmore, h⟩ := h
    exact ⟨a, type, more, hin, hid, hnew, hearlier, htype, hmore, by simpa using h.symm⟩
  · intro h
    obtain ⟨a, type, more, hin, hid, hnew, hearlier, htype, hmore, rfl⟩ := h
    refine ⟨a, hin, a.name, ⟨rfl, hid⟩, ?_⟩
    simp [hnew, hearlier, htype, hmore]

/-- **Computed columns are accepted iff** the inputs are their nodes, every name is an identifier,
    every column has the name and the type of its expression, and no name stands twice, in the
    schema or among the earlier ones. -/
theorem computedColumns_eq_ok {earlier : List String} {inputs : List ColumnInput}
    {computed : List (Aliased × Column)} :
    computedColumns s earlier inputs = .ok computed ↔
      (inputs = computed.map fun c => .node c.1.toExpr) ∧
      (∀ c ∈ computed, isIdentifier c.1.name = true ∧ c.2.name = c.1.name ∧
        c.1.expr.infer s {} = .ok c.2.type) ∧
      (∀ n ∈ computed.map fun c => c.1.name, s.has n = false ∧ n ∉ earlier) ∧
      (computed.map fun c => c.1.name).Nodup := by
  induction inputs generalizing earlier computed with
  | nil => cases computed <;> simp [computedColumns]
  | cons input rest ih =>
    rw [computedColumns_cons_eq_ok]
    constructor
    · intro h
      obtain ⟨a, type, more, rfl, hid, hnew, hearlier, htype, hmore, rfl⟩ := h
      obtain ⟨rfl, hcolumns, hfresh, hdistinct⟩ := ih.mp hmore
      refine ⟨rfl, List.forall_mem_cons.mpr ⟨⟨hid, rfl, htype⟩, hcolumns⟩,
        List.forall_mem_cons.mpr ⟨⟨hnew, hearlier⟩, fun n hn => ?_⟩,
        List.nodup_cons.mpr ⟨fun hn => (hfresh _ hn).2 List.mem_cons_self, hdistinct⟩⟩
      exact ⟨(hfresh n hn).1, fun h => (hfresh n hn).2 (List.mem_cons_of_mem _ h)⟩
    · intro h
      obtain ⟨hinputs, hcolumns, hfresh, hdistinct⟩ := h
      cases computed with
      | nil => cases hinputs
      | cons c more =>
        obtain ⟨a, ⟨name, type⟩⟩ := c
        obtain ⟨rfl, hrest⟩ := List.cons.inj hinputs
        obtain ⟨⟨hid, hname, htype⟩, hmore⟩ := List.forall_mem_cons.mp hcolumns
        obtain rfl : name = a.name := hname
        obtain ⟨⟨hnew, hearlier⟩, hfresh⟩ := List.forall_mem_cons.mp hfresh
        obtain ⟨hhead, hdistinct⟩ := List.nodup_cons.mp hdistinct
        refine ⟨a, type, more, rfl, hid, hnew, hearlier, htype, ?_, rfl⟩
        refine ih.mpr ⟨hrest, hmore, fun n hn => ⟨(hfresh n hn).1, fun h => ?_⟩, hdistinct⟩
        rcases List.mem_cons.mp h with rfl | h
        · exact hhead hn
        · exact (hfresh n hn).2 h

/-- The accepted inputs are the nodes that are stored. -/
theorem computedColumns_inputs {earlier : List String} {inputs : List ColumnInput}
    {computed : List (Aliased × Column)} (h : computedColumns s earlier inputs = .ok computed) :
    inputs = computed.map fun c => .node c.1.toExpr :=
  (computedColumns_eq_ok.mp h).1

/-- What it takes for one renaming pair to be accepted, and the others after it. -/
theorem checkPairs_cons_eq_ok {earlier rest : List (String × String)} {source target : String}
    {u : Unit} :
    checkPairs s earlier ((source, target) :: rest) = .ok u ↔
      s.has source = true ∧ isIdentifier target = true ∧ source ∉ earlier.map Prod.fst ∧
        target ∉ earlier.map Prod.snd ∧
        checkPairs s ((source, target) :: earlier) rest = .ok u := by
  simp only [checkPairs, Outcome.bind_eq_ok, requireIdentifier_text_eq_ok, Schema.has_iff_get,
    refuse_bind, ite_refuse_eq_ok]
  constructor
  · intro h
    obtain ⟨c, hsource, _, ⟨rfl, hid⟩, h⟩ := h
    exact ⟨⟨c, hsource⟩, hid, by simpa using h⟩
  · intro h
    obtain ⟨⟨c, hsource⟩, hid, h⟩ := h
    exact ⟨c, hsource, target, ⟨rfl, hid⟩, by simpa using h⟩

/-- **Pairs pass iff** their sources are columns, their targets are identifiers, and neither occurs
    twice or among the earlier ones. -/
theorem checkPairs_eq_ok {earlier pairs : List (String × String)} {u : Unit} :
    checkPairs s earlier pairs = .ok u ↔
      (∀ n ∈ pairs.map Prod.fst, s.has n = true ∧ n ∉ earlier.map Prod.fst) ∧
      (∀ n ∈ pairs.map Prod.snd, isIdentifier n = true ∧ n ∉ earlier.map Prod.snd) ∧
      (pairs.map Prod.fst).Nodup ∧ (pairs.map Prod.snd).Nodup := by
  induction pairs generalizing earlier with
  | nil => simp [checkPairs]
  | cons pair rest ih =>
    obtain ⟨source, target⟩ := pair
    rw [checkPairs_cons_eq_ok, ih]
    simp only [List.map_cons, List.forall_mem_cons, List.nodup_cons]
    constructor
    · intro h
      obtain ⟨hhas, hid, hsource, htarget, hsources, htargets, hnodup, hnodup'⟩ := h
      refine ⟨⟨⟨hhas, hsource⟩, fun n hn => ?_⟩, ⟨⟨hid, htarget⟩, fun n hn => ?_⟩,
        ⟨fun h => (hsources source h).2 List.mem_cons_self, hnodup⟩,
        ⟨fun h => (htargets target h).2 List.mem_cons_self, hnodup'⟩⟩
      · exact ⟨(hsources n hn).1, fun h => (hsources n hn).2 (List.mem_cons_of_mem _ h)⟩
      · exact ⟨(htargets n hn).1, fun h => (htargets n hn).2 (List.mem_cons_of_mem _ h)⟩
    · intro h
      obtain ⟨⟨⟨hhas, hsource⟩, hsources⟩, ⟨⟨hid, htarget⟩, htargets⟩, ⟨hnew, hnodup⟩,
        ⟨hnew', hnodup'⟩⟩ := h
      refine ⟨hhas, hid, hsource, htarget, fun n hn => ⟨(hsources n hn).1, fun h => ?_⟩,
        fun n hn => ⟨(htargets n hn).1, fun h => ?_⟩, hnodup, hnodup'⟩
      · rcases List.mem_cons.mp h with rfl | h
        · exact hnew hn
        · exact (hsources n hn).2 h
      · rcases List.mem_cons.mp h with rfl | h
        · exact hnew' hn
        · exact (htargets n hn).2 h

/-- What it takes for one selection to be accepted, and the others after it. -/
theorem selectionColumns_cons_eq_ok {keys : List String} {position : Nat} {e : Expr}
    {rest : List Expr} {columns : List Column} :
    selectionColumns s keys position (e :: rest) = .ok columns ↔
      ∃ type name more, checkSelectionReferences s keys e = .ok () ∧
        e.infer s .grouped = .ok type ∧ selectionName position e = .ok name ∧
        selectionColumns s keys (position + 1) rest = .ok more ∧
        columns = ⟨name, type⟩ :: more := by
  simp only [selectionColumns, Outcome.bind_eq_ok]
  constructor
  · intro h
    obtain ⟨_, hrefs, type, htype, name, hname, more, hmore, h⟩ := h
    exact ⟨type, name, more, hrefs, htype, hname, hmore, by simpa using h.symm⟩
  · intro h
    obtain ⟨type, name, more, hrefs, htype, hname, hmore, rfl⟩ := h
    exact ⟨(), hrefs, type, htype, name, hname, more, hmore, rfl⟩

/-! ## 3. What only names decide -/

/-- A column that is looked up and not used is a check that the schema has it. -/
theorem Schema.get_bind (s : Schema) (name : String) (x : Outcome α) :
    (s.get name >>= fun _ => x) = if s.has name then x else refuse (.unknownColumn name) := by
  by_cases h : s.has name = true
  · obtain ⟨c, hc⟩ := has_iff_get.mp h
    rw [hc, if_pos h, Outcome.ok_bind]
  · rw [if_neg h]
    cases hfind : s.find? name with
    | some c => exact absurd (has_iff_get.mpr ⟨c, get_eq_ok.mpr hfind⟩) h
    | none => rw [get, hfind]; rfl

section SameNames

variable {t : Schema}

theorem Schema.has_congr (h : t.names = s.names) (name : String) : t.has name = s.has name := by
  rw [has, has, h]

theorem checkKeys_congr (h : t.names = s.names) (keys : List String) :
    checkKeys t keys = checkKeys s keys := by
  induction keys with
  | nil => rfl
  | cons key rest ih =>
    rw [checkKeys, checkKeys, Schema.get_bind, Schema.get_bind, Schema.has_congr h, ih]

theorem checkPairs_congr (h : t.names = s.names) (earlier pairs : List (String × String)) :
    checkPairs t earlier pairs = checkPairs s earlier pairs := by
  induction pairs generalizing earlier with
  | nil => rfl
  | cons pair rest ih =>
    obtain ⟨source, target⟩ := pair
    simp only [checkPairs, Schema.get_bind, Schema.has_congr h, ih]

theorem collidingTarget?_congr (h : t.names = s.names) (pairs : List (String × String)) :
    collidingTarget? t pairs = collidingTarget? s pairs := by
  simp only [collidingTarget?, Schema.has_congr h]

theorem checkSelectionReferences_congr (h : t.names = s.names) (keys : List String) (e : Expr) :
    checkSelectionReferences t keys e = checkSelectionReferences s keys e := by
  have hcheck : checkKeyReference t keys = checkKeyReference s keys := by
    funext name
    simp only [checkKeyReference, Schema.has_congr h]
  rw [checkSelectionReferences, hcheck, checkSelectionReferences]

theorem checkHavingReferences_congr {grouped grouped' : Schema} (h : t.names = s.names)
    (hgrouped : grouped'.names = grouped.names) (keys : List String) (having : Expr) :
    checkHavingReferences t grouped' keys having = checkHavingReferences s grouped keys having := by
  have hcheck : checkResultReference t grouped' keys = checkResultReference s grouped keys := by
    funext name
    simp only [checkResultReference, Schema.has_congr h, Schema.has_congr hgrouped]
  rw [checkHavingReferences, hcheck, checkHavingReferences]

theorem checkCollisions_congr {other other' : Schema} (h : t.names = s.names)
    (hother : other'.names = other.names) :
    checkCollisions t other' = checkCollisions s other := by
  rw [checkCollisions, checkCollisions, hother, show t.has = s.has from funext (Schema.has_congr h)]

end SameNames

/-! ## 4. Kinds of request -/

theorem resolveSelect_eq_ok {columns : List ColumnInput} :
    resolveSelect s columns = .ok r ↔
      ∃ names schema, columns ≠ [] ∧ columns.map ColumnInput.toExpr = names.map Expr.column ∧
        s.project names = .ok schema ∧ r = ⟨.select (names.map .column), schema⟩ := by
  simp only [resolveSelect, Outcome.bind_eq_ok, requireNonEmpty_eq_ok, columnReferences_eq_ok]
  constructor
  · intro h
    obtain ⟨_, hne, names, hnames, schema, hschema, h⟩ := h
    exact ⟨names, schema, hne, hnames, hschema, by simpa using h.symm⟩
  · intro h
    obtain ⟨names, schema, hne, hnames, hschema, rfl⟩ := h
    exact ⟨(), hne, names, hnames, schema, hschema, rfl⟩

theorem resolveDistinct_eq_ok {columns : List ColumnInput} :
    resolveDistinct s columns = .ok r ↔
      ∃ (names : List String) (schema : Schema),
        columns.map ColumnInput.toExpr = names.map Expr.column ∧
        (if names.isEmpty then .ok s else s.project names) = .ok schema ∧
        r = ⟨.distinct (names.map .column), schema⟩ := by
  simp only [resolveDistinct, Outcome.bind_eq_ok, columnReferences_eq_ok]
  constructor
  · intro h
    obtain ⟨names, hnames, h⟩ := h
    cases names with
    | nil => exact ⟨[], s, hnames, rfl, by simpa using h.symm⟩
    | cons n ns =>
      simp only [List.isEmpty_cons, Bool.false_eq_true, if_false, Outcome.bind_eq_ok] at h ⊢
      obtain ⟨schema, hschema, h⟩ := h
      exact ⟨n :: ns, schema, hnames, hschema, by simpa using h.symm⟩
  · intro h
    obtain ⟨names, schema, hnames, hschema, rfl⟩ := h
    refine ⟨names, hnames, ?_⟩
    cases names with
    | nil => simp_all
    | cons n ns => simp_all

theorem resolveExtend_eq_ok {columns : List ColumnInput} :
    resolveExtend s columns = .ok r ↔
      ∃ computed schema, columns ≠ [] ∧ computedColumns s [] columns = .ok computed ∧
        s.append (computed.map Prod.snd) = .ok schema ∧
        r = ⟨.extend (computed.map fun c => c.1.toExpr), schema⟩ := by
  simp only [resolveExtend, Outcome.bind_eq_ok, requireNonEmpty_eq_ok]
  constructor
  · intro h
    obtain ⟨_, hne, computed, hcomputed, schema, hschema, h⟩ := h
    exact ⟨computed, schema, hne, hcomputed, hschema, by simpa using h.symm⟩
  · intro h
    obtain ⟨computed, schema, hne, hcomputed, hschema, rfl⟩ := h
    exact ⟨(), hne, computed, hcomputed, schema, hschema, rfl⟩

theorem resolveRename_eq_ok {input : RenameInput} :
    resolveRename s input = .ok r ↔
      ∃ schema, input.pairs ≠ [] ∧ checkPairs s [] input.pairs = .ok () ∧
        collidingTarget? s input.pairs = none ∧ s.rename input.pairs = .ok schema ∧
        r = ⟨.rename (input.pairs.map renamedColumn), schema⟩ := by
  simp only [resolveRename, Outcome.bind_eq_ok, requireNonEmpty_eq_ok]
  constructor
  · intro h
    obtain ⟨_, hne, _, hpairs, h⟩ := h
    cases hcol : collidingTarget? s input.pairs with
    | some target => simp [hcol] at h
    | none =>
      simp only [hcol, Outcome.bind_eq_ok] at h
      obtain ⟨schema, hschema, h⟩ := h
      exact ⟨schema, hne, hpairs, rfl, hschema, by simpa using h.symm⟩
  · intro h
    obtain ⟨schema, hne, hpairs, hcol, hschema, rfl⟩ := h
    exact ⟨(), hne, (), hpairs, by simp [hcol, hschema]⟩

theorem resolveFilter_eq_ok {predicate : Expr} :
    resolveFilter s predicate = .ok r ↔
      predicate.infer s {} = .ok .boolean ∧ r = ⟨.filter predicate, s⟩ := by
  simp [resolveFilter, Outcome.bind_eq_ok, @eq_comm _ r]

theorem resolveGroupBy_eq_ok {g : Grouping} :
    resolveGroupBy s g = .ok r ↔
      ∃ columns grouped, g.keys ≠ [] ∧ g.selections ≠ [] ∧ checkKeys s g.keys = .ok () ∧
        selectionColumns s g.keys 1 g.selections = .ok columns ∧
        Schema.ofColumns columns = .ok grouped ∧ checkHaving s grouped g.keys g.having = .ok () ∧
        r = ⟨.groupBy (g.keys.map .column) g.selections g.having, grouped⟩ := by
  simp only [resolveGroupBy, Outcome.bind_eq_ok, requireNonEmpty_eq_ok]
  constructor
  · intro h
    obtain ⟨_, hk, _, hsel, _, hkeys, columns, hcols, grouped, hgrouped, _, hhaving, h⟩ := h
    exact ⟨columns, grouped, hk, hsel, hkeys, hcols, hgrouped, hhaving, by simpa using h.symm⟩
  · intro h
    obtain ⟨columns, grouped, hk, hsel, hkeys, hcols, hgrouped, hhaving, rfl⟩ := h
    exact ⟨(), hk, (), hsel, (), hkeys, columns, hcols, grouped, hgrouped, (), hhaving, rfl⟩

theorem resolveOrderBy_eq_ok {inputs : List ColumnInput} :
    resolveOrderBy s inputs = .ok r ↔
      inputs ≠ [] ∧ checkTerms s (inputs.map orderTerm) = .ok () ∧
        r = ⟨.orderBy (inputs.map orderTerm), s⟩ := by
  simp [resolveOrderBy, Outcome.check_bind_eq_ok, @eq_comm _ r]

theorem resolveLimit_eq_ok {count : Binary64} :
    resolveLimit s count = .ok r ↔
      requireCount count "limit" = .ok () ∧ r = ⟨.limit count, s⟩ := by
  simp [resolveLimit, Outcome.check_bind_eq_ok, @eq_comm _ r]

theorem resolveOffset_eq_ok {count : Binary64} :
    resolveOffset s count = .ok r ↔
      requireCount count "offset" = .ok () ∧ r = ⟨.offset count, s⟩ := by
  simp [resolveOffset, Outcome.check_bind_eq_ok, @eq_comm _ r]

theorem resolveJoin_eq_ok {other : Table} {kind : String} {condition : Expr} :
    resolveJoin s other kind condition = .ok r ↔
      ∃ k otherSchema combined, requireJoinKind kind = .ok k ∧ other.schema = .ok otherSchema ∧
        checkCollisions s otherSchema = .ok () ∧
        s.append otherSchema.columns = .ok combined ∧
        condition.infer combined {} = .ok .boolean ∧
        r = ⟨.join other.name k condition, combined⟩ := by
  simp only [resolveJoin, Outcome.bind_eq_ok, requirePredicate_eq_ok]
  constructor
  · intro h
    obtain ⟨k, hk, otherSchema, hother, _, hcol, combined, hcomb, _, hcond, h⟩ := h
    exact ⟨k, otherSchema, combined, hk, hother, hcol, hcomb, hcond, by simpa using h.symm⟩
  · intro h
    obtain ⟨k, otherSchema, combined, hk, hother, hcol, hcomb, hcond, rfl⟩ := h
    exact ⟨k, hk, otherSchema, hother, (), hcol, combined, hcomb, (), hcond, rfl⟩

end QueryPipeline
