import Mathlib.Data.List.Forall2
import QueryPipeline.Proofs.Mentions

/-!
# Extending a schema

Computed columns are typed on the schema before their clause, so that none of them can use another.
One clause with two lists of them, and two clauses with one list each, differ in this alone.

* `Schema.ExtendsBy` says which schema a list of named expressions leads to, and
  `resolveExtend_eq_ok_iff` that a request is accepted for such lists and with this schema;
* `Expr.infer_append`: an expression has a type on a schema iff it has it where columns are put
  after the schema, and mentions none of these;
* `Schema.extendsBy_append`: how the two forms are related;
* **`extend_splits`**: what is accepted in one clause is accepted in two, with the same schema, and
  the other way round iff the second list mentions no name of the first.
-/

namespace QueryPipeline

variable {s t u mid : Schema} {as first second : List Aliased} {added : List Column}

/-! ## 1. Extended schemas -/

/-- A column has the name of a named expression and the type of it on the schema. -/
def Schema.Computes (s : Schema) (a : Aliased) (c : Column) : Prop :=
  c.name = a.name ∧ a.expr.infer s {} = .ok c.type

/-- One schema is the other with a column for each of some named expressions after it, in their
    order. There is such an expression, and their names are identifiers; that the names are new and
    distinct is certain of any schema. -/
structure Schema.ExtendsBy (s : Schema) (as : List Aliased) (t : Schema) : Prop where
  nonempty : as ≠ []
  identified : ∀ a ∈ as, isIdentifier a.name = true
  columns : ∃ added, t.columns = s.columns ++ added ∧ List.Forall₂ s.Computes as added

/-- A named expression as the input of a request. -/
def Aliased.input (a : Aliased) : ColumnInput := .node a.toExpr

theorem Aliased.input_injective : Function.Injective Aliased.input := by
  intro a b h
  obtain ⟨hname, hexpr⟩ := Expr.named.inj (ColumnInput.node.inj h)
  cases a
  cases b
  cases hname
  cases hexpr
  rfl

namespace Schema

theorem names_append (h : t.columns = s.columns ++ added) :
    t.names = s.names ++ columnNames added := by
  rw [names, h, columnNames, List.map_append]
  rfl

/-- The names of the columns that are put after a schema are new, and distinct. -/
theorem fresh_append (h : t.columns = s.columns ++ added) :
    (∀ n ∈ columnNames added, n ∉ s.names) ∧ (columnNames added).Nodup := by
  have hdistinct : t.names.Nodup := t.distinct
  rw [names_append h] at hdistinct
  obtain ⟨_, hadded, hapart⟩ := List.nodup_append.mp hdistinct
  exact ⟨fun n hn hs => hapart n hs n hn rfl, hadded⟩

/-- Computed columns have the names of their expressions. -/
theorem names_computed (h : List.Forall₂ s.Computes as added) :
    columnNames added = as.map Aliased.name := by
  induction h with
  | nil => rfl
  | cons hc _ ih => rw [columnNames, List.map_cons, hc.1, List.map_cons, ← ih, columnNames]

/-- A schema is extended in one way only. -/
theorem ExtendsBy.unique (ht : s.ExtendsBy as t) (hu : s.ExtendsBy as u) : t = u := by
  obtain ⟨added, htcolumns, hadded⟩ := ht.columns
  obtain ⟨added', hucolumns, hadded'⟩ := hu.columns
  have computes_unique : Relator.RightUnique s.Computes := by
    rintro a ⟨n, type⟩ ⟨m, type'⟩ ⟨rfl, htype⟩ ⟨rfl, htype'⟩
    rw [htype] at htype'
    cases htype'
    rfl
  obtain rfl := List.right_unique_forall₂' computes_unique hadded hadded'
  exact Schema.ext (htcolumns.trans hucolumns.symm)

end Schema

/-- **Computed columns are accepted iff they extend the schema.** -/
theorem resolveExtend_eq_ok_iff {inputs : List ColumnInput} {r : Resolved} :
    resolveExtend s inputs = .ok r ↔
      ∃ as, inputs = as.map Aliased.input ∧ s.ExtendsBy as r.schema ∧
        r.clause = .extend (as.map Aliased.toExpr) := by
  simp only [resolveExtend_eq_ok, computedColumns_eq_ok]
  constructor
  · rintro ⟨computed, schema, hne, ⟨rfl, hcolumns, _⟩, hschema, rfl⟩
    refine ⟨computed.map Prod.fst, by rw [List.map_map]; rfl, ⟨?_, ?_, ?_⟩,
      by rw [List.map_map]; rfl⟩
    · rintro hempty
      rw [List.map_eq_nil_iff.mp hempty] at hne
      exact hne rfl
    · intro a ha
      obtain ⟨c, hc, rfl⟩ := List.mem_map.mp ha
      exact (hcolumns c hc).1
    · refine ⟨computed.map Prod.snd, Schema.ofColumns_eq_ok.mp hschema, ?_⟩
      rw [List.forall₂_map_left_iff, List.forall₂_map_right_iff, List.forall₂_same]
      exact fun c hc => (hcolumns c hc).2
  · rintro ⟨as, rfl, hext, hclause⟩
    obtain ⟨added, hadded, hcomputes⟩ := hext.columns
    have hlength := hcomputes.length_eq
    have hfst {β : Type} (f : Aliased → β) : (as.zip added).map (fun c => f c.1) = as.map f := by
      conv_rhs => rw [← List.map_fst_zip (Nat.le_of_eq hlength), List.map_map]
      rfl
    have hsnd : (as.zip added).map Prod.snd = added :=
      List.map_snd_zip (Nat.le_of_eq hlength.symm)
    obtain ⟨hfresh, hdistinct⟩ := Schema.fresh_append hadded
    rw [Schema.names_computed hcomputes] at hfresh hdistinct
    refine ⟨as.zip added, r.schema, ?_, ⟨(hfst Aliased.input).symm, fun c hc => ⟨?_, ?_⟩, ?_, ?_⟩,
      ?_, ?_⟩
    · exact fun hempty => hext.nonempty (List.map_eq_nil_iff.mp hempty)
    · exact hext.identified _ (List.of_mem_zip hc).1
    · exact List.forall₂_zip hcomputes hc
    · rw [hfst Aliased.name]
      refine fun n hn => ⟨?_, List.not_mem_nil⟩
      exact Bool.eq_false_iff.mpr fun h => hfresh n hn (Schema.has_iff.mp h)
    · rw [hfst Aliased.name]
      exact hdistinct
    · rw [hsnd]
      exact Schema.ofColumns_eq_ok.mpr hadded
    · rw [hfst Aliased.toExpr, ← hclause]

/-- A request with a list of named expressions leads to the schema that they extend. -/
theorem resolveExtend_schema_iff :
    (∃ r, resolveExtend s (as.map Aliased.input) = .ok r ∧ r.schema = t) ↔ s.ExtendsBy as t := by
  constructor
  · rintro ⟨r, hr, rfl⟩
    obtain ⟨as', has, hext, _⟩ := resolveExtend_eq_ok_iff.mp hr
    obtain rfl := List.map_injective_iff.mpr Aliased.input_injective has
    exact hext
  · intro h
    exact ⟨⟨.extend (as.map Aliased.toExpr), t⟩, resolveExtend_eq_ok_iff.mpr ⟨as, rfl, h, rfl⟩, rfl⟩

/-! ## 2. Types after an extension -/

/-- A column is looked up in the same way where others are put after the schema. -/
theorem Schema.get_append (h : t.columns = s.columns ++ added) {n : String} (hn : n ∈ s.names) :
    s.get n = t.get n := by
  obtain ⟨type, hget, hmem⟩ := exists_get_of_mem hn
  have hcolumn : ⟨n, type⟩ ∈ t.columns := by
    rw [h]
    exact List.mem_append_left _ hmem
  rw [hget, get_eq_ok_iff.mpr ⟨hcolumn, rfl⟩]

/-- **An expression has a type on a schema iff** it has it where columns are put after the schema,
    and mentions none of these. -/
theorem Expr.infer_append (h : t.columns = s.columns ++ added) {e : Expr} {mode : Mode}
    {type : ColumnType} :
    e.infer s mode = .ok type ↔
      (∀ n ∈ e.references, n ∉ columnNames added) ∧ e.infer t mode = .ok type := by
  have same (known : ∀ n ∈ e.references, n ∈ s.names) : e.infer s mode = e.infer t mode :=
    infer_of_mentions fun n hn => Schema.get_append h (known n hn)
  constructor
  · intro htype
    have known := (checked_of_infer htype).mentions_known
    refine ⟨fun n hn hadded => ?_, by rw [← same known, htype]⟩
    exact (Schema.fresh_append h).1 n hadded (known n hn)
  · rintro ⟨hapart, htype⟩
    have known : ∀ n ∈ e.references, n ∈ s.names := by
      intro n hn
      have hn' := (checked_of_infer htype).mentions_known n hn
      rw [Schema.names_append h] at hn'
      exact (List.mem_append.mp hn').resolve_right (hapart n hn)
    rw [same known, htype]

/-- Columns that are computed on a schema are computed after an extension as well, and the other
    way round if the names of the extension are not mentioned. -/
theorem Schema.computes_append (h : mid.columns = s.columns ++ added) {more : List Column} :
    List.Forall₂ s.Computes second more ↔
      (∀ a ∈ second, ∀ n ∈ a.toExpr.references, n ∉ columnNames added) ∧
        List.Forall₂ mid.Computes second more := by
  have single (a : Aliased) (c : Column) : s.Computes a c ↔
      (∀ n ∈ a.toExpr.references, n ∉ columnNames added) ∧ mid.Computes a c := by
    unfold Computes
    rw [Expr.infer_append h]
    exact and_left_comm
  have heq : s.Computes = fun a c =>
      (∀ n ∈ a.toExpr.references, n ∉ columnNames added) ∧ mid.Computes a c := by
    funext a c
    exact propext (single a c)
  rw [heq]
  exact List.forall₂_and_left second more

/-! ## 3. One extension and two -/

/-- **An extension by two lists is an extension by the first and one by the second after it**, if
    the second list does not mention the names of the first. -/
theorem Schema.extendsBy_append (hfirst : first ≠ []) (hsecond : second ≠ []) :
    s.ExtendsBy (first ++ second) t ↔
      ∃ mid, s.ExtendsBy first mid ∧ mid.ExtendsBy second t ∧
        ∀ a ∈ second, ∀ n ∈ a.toExpr.references, n ∉ first.map Aliased.name := by
  constructor
  · intro h
    obtain ⟨hidentified, hidentified'⟩ := List.forall_mem_append.mp h.identified
    obtain ⟨added, hcolumns, hadded⟩ := h.columns
    have hcomputes := List.forall₂_take first.length hadded
    have hcomputes' := List.forall₂_drop first.length hadded
    rw [List.take_left] at hcomputes
    rw [List.drop_left] at hcomputes'
    rw [← List.take_append_drop first.length added, ← List.append_assoc] at hcolumns
    have hdistinct : (columnNames (s.columns ++ added.take first.length)).Nodup := by
      refine List.Nodup.sublist ?_ t.distinct
      rw [hcolumns]
      exact (List.sublist_append_left _ _).map Column.name
    have hmid : (⟨_, hdistinct⟩ : Schema).columns = s.columns ++ added.take first.length := rfl
    obtain ⟨hapart, hgrown⟩ := (computes_append hmid).mp hcomputes'
    rw [names_computed hcomputes] at hapart
    exact ⟨⟨_, hdistinct⟩, ⟨hfirst, hidentified, _, rfl, hcomputes⟩,
      ⟨hsecond, hidentified', _, hcolumns, hgrown⟩, hapart⟩
  · rintro ⟨mid, h, h', hapart⟩
    obtain ⟨added, hcolumns, hadded⟩ := h.columns
    obtain ⟨more, hcolumns', hmore⟩ := h'.columns
    refine ⟨List.append_ne_nil_of_left_ne_nil hfirst _,
      List.forall_mem_append.mpr ⟨h.identified, h'.identified⟩, added ++ more, ?_, ?_⟩
    · rw [hcolumns', hcolumns, List.append_assoc]
    · rw [← names_computed hadded] at hapart
      exact List.rel_append hadded ((computes_append hcolumns).mpr ⟨hapart, hmore⟩)

/-- **Extensions split and fuse.** What one clause extends by two lists is extended by a clause for
    each of them, with the same schema at the end. Two clauses that are accepted one after the other
    are accepted as one iff no expression of the second mentions a name that the first introduces,
    and then they give the same schema. -/
theorem extend_splits (s : Schema) {first second : List Aliased} (hfirst : first ≠ [])
    (hsecond : second ≠ []) :
    (∀ r, resolveExtend s ((first ++ second).map Aliased.input) = .ok r →
      ∃ q p, resolveExtend s (first.map Aliased.input) = .ok q ∧
        resolveExtend q.schema (second.map Aliased.input) = .ok p ∧ p.schema = r.schema) ∧
    ∀ q p, resolveExtend s (first.map Aliased.input) = .ok q →
      resolveExtend q.schema (second.map Aliased.input) = .ok p →
      ((∃ r, resolveExtend s ((first ++ second).map Aliased.input) = .ok r) ↔
        ∀ a ∈ second, ∀ n ∈ a.toExpr.references, n ∉ first.map Aliased.name) ∧
      ∀ r, resolveExtend s ((first ++ second).map Aliased.input) = .ok r →
        r.schema = p.schema := by
  have extended {s : Schema} {as : List Aliased} {r : Resolved}
      (h : resolveExtend s (as.map Aliased.input) = .ok r) : s.ExtendsBy as r.schema :=
    resolveExtend_schema_iff.mp ⟨r, h, rfl⟩
  refine ⟨fun r hr => ?_, fun q p hq hp => ?_⟩
  · obtain ⟨mid, h, h', _⟩ := (Schema.extendsBy_append hfirst hsecond).mp (extended hr)
    obtain ⟨q, hq, rfl⟩ := resolveExtend_schema_iff.mpr h
    obtain ⟨p, hp, hschema⟩ := resolveExtend_schema_iff.mpr h'
    exact ⟨q, p, hq, hp, hschema⟩
  · -- the schemas in the middle and at the end are those of the two clauses
    have unique {t : Schema} (h : s.ExtendsBy (first ++ second) t) :
        t = p.schema ∧ ∀ a ∈ second, ∀ n ∈ a.toExpr.references, n ∉ first.map Aliased.name := by
      obtain ⟨mid, hmid, hlast, hapart⟩ := (Schema.extendsBy_append hfirst hsecond).mp h
      obtain rfl := hmid.unique (extended hq)
      exact ⟨hlast.unique (extended hp), hapart⟩
    refine ⟨⟨fun ⟨r, hr⟩ => (unique (extended hr)).2, fun hapart => ?_⟩,
      fun r hr => (unique (extended hr)).1⟩
    obtain ⟨r, hr, _⟩ := resolveExtend_schema_iff.mpr
      ((Schema.extendsBy_append hfirst hsecond).mpr ⟨_, extended hq, extended hp, hapart⟩)
    exact ⟨r, hr⟩

/-- The age in months. -/
def monthsOfAge : Aliased :=
  ⟨"months", .binary (.arithmetic .multiply) (.column "age") (.literal (.long 12))⟩

/-- Whether the age is above seventeen. -/
def adultByAge : Aliased :=
  ⟨"adult", .binary (.comparison .greater) (.column "age") (.literal (.long 17))⟩

/-- The same in months. -/
def adultByMonths : Aliased :=
  ⟨"adult", .binary (.comparison .greater) (.column "months") (.literal (.long 215))⟩

/-- The people with their age in months. -/
def Resolved.withMonths : Resolved :=
  ⟨.extend [monthsOfAge.toExpr], ⟨Pipeline.ofPeople.schema.columns ++ [⟨"months", .long⟩],
    by decide⟩⟩

/-- The months and what is said of the age are computed in one clause or in two; what is said of the
    months can be computed after them only. -/
theorem extend_splits_months :
    (∃ r q p,
      resolveExtend Pipeline.ofPeople.schema ([monthsOfAge, adultByAge].map Aliased.input) = .ok r ∧
      resolveExtend Pipeline.ofPeople.schema ([monthsOfAge].map Aliased.input) = .ok q ∧
      resolveExtend q.schema ([adultByAge].map Aliased.input) = .ok p ∧ p.schema = r.schema) ∧
    resolveExtend Pipeline.ofPeople.schema ([monthsOfAge].map Aliased.input) = .ok .withMonths ∧
      (∃ p, resolveExtend Resolved.withMonths.schema ([adultByMonths].map Aliased.input) = .ok p) ∧
      ¬ ∃ r, resolveExtend Pipeline.ofPeople.schema
        ([monthsOfAge, adultByMonths].map Aliased.input) = .ok r := by
  have hr : resolveExtend Pipeline.ofPeople.schema ([monthsOfAge, adultByAge].map Aliased.input) =
      .ok _ := rfl
  have hq : resolveExtend Pipeline.ofPeople.schema ([monthsOfAge].map Aliased.input) =
      .ok .withMonths := rfl
  have hp : resolveExtend Resolved.withMonths.schema ([adultByMonths].map Aliased.input) =
      .ok _ := rfl
  obtain ⟨hsplit, _⟩ := extend_splits Pipeline.ofPeople.schema (List.cons_ne_nil monthsOfAge [])
    (List.cons_ne_nil adultByAge [])
  obtain ⟨_, hfuse⟩ := extend_splits Pipeline.ofPeople.schema (List.cons_ne_nil monthsOfAge [])
    (List.cons_ne_nil adultByMonths [])
  obtain ⟨q, p, hfirst, hsecond, hsame⟩ := hsplit _ hr
  refine ⟨⟨_, q, p, hr, hfirst, hsecond, hsame⟩, hq, ⟨_, hp⟩, fun haccepted => ?_⟩
  have hapart := (hfuse _ _ hq hp).1.mp haccepted
  exact hapart adultByMonths List.mem_cons_self "months" (by decide) (by decide)

end QueryPipeline
