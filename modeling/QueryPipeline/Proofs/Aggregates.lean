import QueryPipeline.Proofs.Nodes
import QueryPipeline.Proofs.Stored

/-!
# Aggregate calls

Where aggregates may be called. The permission is part of the mode in which an expression is typed:
a mode without it is handed down to every node, and the arguments of an aggregate call are typed in
such a mode wherever the call stands.

* `Expr.AggregateFree`: no aggregate call at any depth; `Expr.Unnested`: none below another one;
* `aggregateFree_of_infer`, `unnested_of_infer`: what a type tells about the calls, and
  `infer_of_aggregateFree`: without aggregate calls the mode does not matter;
* **`aggregates_in_groupings`**: the default mode accepts what the grouped mode accepts without
  aggregate calls, and pipelines call aggregates in selections and conditions on groups only.
-/

namespace QueryPipeline

/-! ## 1. Calls of aggregates -/

namespace Expr

/-- No aggregate is called, at any depth. -/
def AggregateFree (e : Expr) : Prop := ∀ n ∈ e.nodes, n.isAggregateCall = false

/-- No aggregate is called in the arguments of an aggregate call, at any depth. -/
def Unnested (e : Expr) : Prop :=
  ∀ n ∈ e.nodes, n.isAggregateCall = true → ∀ arg ∈ n.children, arg.AggregateFree

instance (e : Expr) : Decidable e.AggregateFree :=
  inferInstanceAs (Decidable (∀ n ∈ e.nodes, n.isAggregateCall = false))

instance (e : Expr) : Decidable e.Unnested :=
  inferInstanceAs (Decidable (∀ n ∈ e.nodes, _ → ∀ arg ∈ n.children, arg.AggregateFree))

theorem aggregateFree_iff {e : Expr} :
    e.AggregateFree ↔ e.isAggregateCall = false ∧ ∀ c ∈ e.children, c.AggregateFree :=
  forall_nodes

theorem AggregateFree.child {e c : Expr} (h : e.AggregateFree) (hc : c ∈ e.children) :
    c.AggregateFree := (aggregateFree_iff.mp h).2 c hc

theorem AggregateFree.unnested {e : Expr} (h : e.AggregateFree) : e.Unnested := by
  intro n hn hcall
  rw [h n hn] at hcall
  exact absurd hcall Bool.false_ne_true

theorem unnested_iff {e : Expr} :
    e.Unnested ↔ (e.isAggregateCall = true → ∀ arg ∈ e.children, arg.AggregateFree) ∧
      ∀ c ∈ e.children, c.Unnested :=
  forall_nodes

theorem aggregateFree_valueList (items : List Literal) : (valueList items).AggregateFree := by
  refine aggregateFree_iff.mpr ⟨rfl, fun c hc => ?_⟩
  obtain ⟨value, _, rfl⟩ := List.mem_map.mp hc
  exact aggregateFree_iff.mpr ⟨rfl, fun c hc => absurd hc List.not_mem_nil⟩

/-! ## 2. Modes -/

variable {s : Schema} {mode : Mode} {e : Expr} {type : ColumnType}

/-- The permission is not won on the way down. -/
theorem childMode_allowAggregates (hmode : mode.allowAggregates = false) (e : Expr) :
    (e.childMode mode).allowAggregates = false := by
  cases e with
  | call function args =>
    simp only [childMode, FunctionName.argumentMode]
    split
    · rfl
    · exact hmode
  | _ => exact hmode

/-- The arguments of an aggregate call are typed without the permission. -/
theorem childMode_of_isAggregateCall (h : e.isAggregateCall = true) :
    (e.childMode mode).allowAggregates = false := by
  cases e with
  | call function args =>
    have h : function.isAggregate = true := h
    simp [childMode, FunctionName.argumentMode, h, Mode.argument]
  | _ => exact absurd h Bool.false_ne_true

theorem isAggregateCall_of_infer (hmode : mode.allowAggregates = false)
    (h : e.infer s mode = .ok type) : e.isAggregateCall = false := by
  cases e with
  | call function args =>
    obtain ⟨_, hcheck, _⟩ := Outcome.bind_eq_ok.mp h
    by_contra hcall
    have hcall : function.isAggregate = true := by simpa [isAggregateCall] using hcall
    obtain ⟨_, hallowed⟩ := (FunctionName.checkCall_eq_ok.mp hcheck).2 hcall
    rw [hmode] at hallowed
    cases hallowed
  | _ => rfl

/-- **What is typed without the permission calls no aggregate.** -/
theorem aggregateFree_of_infer (hmode : mode.allowAggregates = false)
    (h : e.infer s mode = .ok type) : e.AggregateFree := by
  induction e using induct_children generalizing mode type with
  | step e ih =>
    refine aggregateFree_iff.mpr ⟨isAggregateCall_of_infer hmode h, fun c hc => ?_⟩
    rcases infer_child h hc with ⟨below, hbelow⟩ | ⟨items, rfl⟩
    · exact ih c hc (childMode_allowAggregates hmode e) hbelow
    · exact aggregateFree_valueList items

/-- **What is typed, with the permission or without it, nests no aggregate calls.** -/
theorem unnested_of_infer (h : e.infer s mode = .ok type) : e.Unnested := by
  induction e using induct_children generalizing mode type with
  | step e ih =>
    refine unnested_iff.mpr ⟨fun hcall arg harg => ?_, fun c hc => ?_⟩
    · rcases infer_child h harg with ⟨below, hbelow⟩ | ⟨items, rfl⟩
      · exact aggregateFree_of_infer (childMode_of_isAggregateCall hcall) hbelow
      · exact aggregateFree_valueList items
    · rcases infer_child h hc with ⟨below, hbelow⟩ | ⟨items, rfl⟩
      · exact ih c hc hbelow
      · exact (aggregateFree_valueList items).unnested

/-- **Without aggregate calls the mode does not matter**, neither for the type nor for the reason
    why there is none. -/
theorem infer_of_aggregateFree (h : e.AggregateFree) (mode other : Mode) :
    e.infer s mode = e.infer s other := by
  induction e generalizing mode other with
  | unary op operand ih =>
    rw [infer, infer, ih (h.child List.mem_cons_self) mode other]
  | binary op left right ihl ihr =>
    rw [infer, infer, ihl (h.child (by simp [children])) mode other,
      ihr (h.child (by simp [children])) mode other]
  | call function args ih =>
    have hscalar : function.isAggregate = false := (aggregateFree_iff.mp h).1
    have hargs : inferAll s (function.argumentMode mode) args =
        inferAll s (function.argumentMode other) args :=
      inferAll_congr fun e he => ih e he (h.child he) _ _
    rw [infer, infer, hargs]
    simp only [FunctionName.checkCall, hscalar, Bool.false_and]
  | named name inner ih => rw [infer, infer, ih (h.child List.mem_cons_self) mode other]
  | conditional test yes no iht ihy ihn =>
    rw [infer, infer, iht (h.child (by simp [children])) mode other,
      ihy (h.child (by simp [children])) mode other, ihn (h.child (by simp [children])) mode other]
  | _ => rfl

/-- **The default mode accepts what the grouped mode accepts without aggregate calls.** -/
theorem infer_default_iff :
    e.infer s {} = .ok type ↔ e.infer s .grouped = .ok type ∧ e.AggregateFree := by
  constructor
  · intro h
    have hfree := aggregateFree_of_infer rfl h
    exact ⟨by rw [infer_of_aggregateFree hfree .grouped {}, h], hfree⟩
  · intro h
    obtain ⟨h, hfree⟩ := h
    rw [infer_of_aggregateFree hfree {} .grouped, h]

end Expr

/-! ## 3. Clauses -/

/-- An expression whose aggregate calls are not nested, and which has none at all unless it is a
    selection of a grouping or its condition. -/
def Clause.GroupsAggregates (c : Clause) (e : Expr) : Prop :=
  e.Unnested ∧ (e.AggregateFree ∨
    ∃ keys selections having, c = .groupBy keys selections having ∧
      (e ∈ selections ∨ e ∈ having))

variable {c : Clause}

theorem Clause.groupsAggregates_of_free {e : Expr} (h : e.AggregateFree) :
    c.GroupsAggregates e := ⟨h.unnested, Or.inl h⟩

theorem Expr.aggregateFree_column (n : String) : (Expr.column n).AggregateFree :=
  Expr.aggregateFree_iff.mpr ⟨rfl, fun _ hc => absurd hc List.not_mem_nil⟩

/-- **The expressions of a typed clause** call aggregates in groupings only. -/
theorem Clause.Typed.groupsAggregates {before after : Schema} (h : c.Typed before after) :
    ∀ e ∈ c.exprs, c.GroupsAggregates e := by
  have typed {e : Expr} {s : Schema} {type : ColumnType} (he : e.infer s {} = .ok type) :
      c.GroupsAggregates e := groupsAggregates_of_free (Expr.aggregateFree_of_infer rfl he)
  intro e he
  cases c with
  | select columns =>
    obtain ⟨n, rfl, _⟩ := h e he
    exact groupsAggregates_of_free (Expr.aggregateFree_column n)
  | distinct columns =>
    obtain ⟨n, rfl, _⟩ := h e he
    exact groupsAggregates_of_free (Expr.aggregateFree_column n)
  | extend columns =>
    obtain ⟨type, htype⟩ := h e he
    exact typed htype
  | rename columns =>
    obtain ⟨pair, rfl, hpair⟩ := h e he
    obtain ⟨type, htype⟩ := Schema.infer_column hpair {}
    exact typed htype
  | filter predicate =>
    obtain rfl := List.mem_singleton.mp he
    exact typed h
  | groupBy keys selections having =>
    obtain ⟨hkeys, hselections, hhaving⟩ := h
    rcases List.mem_append.mp he with he | he
    · rcases List.mem_append.mp he with he | he
      · obtain ⟨n, rfl, _⟩ := hkeys e he
        exact groupsAggregates_of_free (Expr.aggregateFree_column n)
      · obtain ⟨type, htype⟩ := hselections e he
        exact ⟨Expr.unnested_of_infer htype, Or.inr ⟨_, _, _, rfl, Or.inl he⟩⟩
    · have he := Option.mem_toList.mp he
      exact ⟨Expr.unnested_of_infer (hhaving e he), Or.inr ⟨_, _, _, rfl, Or.inr he⟩⟩
  | orderBy terms =>
    obtain ⟨t, ht, rfl⟩ := List.mem_map.mp he
    obtain ⟨type, htype⟩ := h t ht
    refine groupsAggregates_of_free (Expr.aggregateFree_iff.mpr ⟨rfl, fun below hbelow => ?_⟩)
    obtain rfl := List.mem_singleton.mp hbelow
    exact Expr.aggregateFree_of_infer rfl htype
  | limit count => exact absurd he List.not_mem_nil
  | offset count => exact absurd he List.not_mem_nil
  | join other kind condition =>
    obtain rfl := List.mem_singleton.mp he
    exact typed h
  | foreign kind source => exact absurd h id

/-! ## 4. Pipelines -/

/-- **Aggregates are called in groupings only, and never nested.** An expression has a type by
    default iff it has this type where aggregates are accepted and calls none at any depth; where
    aggregates are accepted, none is called at any depth in the arguments of another. In every
    pipeline that starts at a made table, only selections of groupings and conditions on groups
    call aggregates, and no expression nests them. -/
theorem aggregates_in_groupings :
    (∀ (s : Schema) (e : Expr) (type : ColumnType),
      e.infer s {} = .ok type ↔ e.infer s .grouped = .ok type ∧ e.AggregateFree) ∧
    (∀ (s : Schema) (e : Expr) (type : ColumnType),
      e.infer s .grouped = .ok type → e.Unnested) ∧
    ∀ (t : Table) (listening : Bool), t.Made →
      ∃ base, Pipeline.ofTable t listening = .ok base ∧ ∀ given p, Accepts base given p →
        ∀ c ∈ p.clauses, ∀ e ∈ c.exprs, c.GroupsAggregates e := by
  refine ⟨fun s e type => Expr.infer_default_iff, fun s e type h => Expr.unnested_of_infer h,
    fun t listening made => ?_⟩
  refine ⟨_, Pipeline.ofTable_wellNamed made.wellNamed listening, fun given p h c hc => ?_⟩
  obtain ⟨before, after, typed⟩ := h.typed_between rfl c hc
  exact typed.groupsAggregates

/-- The greatest age of a group whose mean age is above thirty. -/
def oldestAge : Expr :=
  .conditional (.binary (.comparison .greater) (.call .avg [.column "age"]) (.literal (.long 30)))
    (.call .max [.column "age"]) (.literal (.long 0))

/-- The greatest ages of the teams, for those where they are above thirty. -/
def oldestByTeam : ClauseRequest :=
  .groupBy ⟨["team"], [.column "team", .named "oldest" oldestAge],
    some (.binary (.comparison .greater) (.call .min [.column "oldest"]) (.literal (.long 30)))⟩

/-- An aggregate of a remainder of an aggregate. -/
def nestedCount : Expr :=
  .call .sum [.named "n" (.call .modulo [.call .count [.column "age"], .literal (.long 2)])]

/-- Below a conditional and a name aggregates are accepted in the grouping and refused elsewhere;
    below another aggregate they are refused everywhere. -/
theorem aggregates_in_groupings_oldest :
    Table.people.Made ∧ Pipeline.ofTable .people true = .ok .ofPeople ∧
      (oldestAge.infer Pipeline.ofPeople.schema .grouped = .ok .long ∧ oldestAge.Unnested) ∧
      (∀ type, oldestAge.infer Pipeline.ofPeople.schema {} ≠ .ok type) ∧
      (∀ type, nestedCount.infer Pipeline.ofPeople.schema .grouped ≠ .ok type) ∧
      ∃ p, Accepts .ofPeople [oldestByTeam] p ∧
        ∀ c ∈ p.clauses, ∀ e ∈ c.exprs, c.GroupsAggregates e := by
  obtain ⟨hdefault, hunnested, hpipelines⟩ := aggregates_in_groupings
  obtain ⟨base, hbase, hclauses⟩ := hpipelines .people true Table.people_made
  obtain rfl : Pipeline.ofPeople = base := Except.ok.inj hbase
  have hgrouped : oldestAge.infer Pipeline.ofPeople.schema .grouped = .ok .long := rfl
  have haccepts : Accepts .ofPeople [oldestByTeam] _ := .single rfl
  refine ⟨Table.people_made, rfl, ⟨hgrouped, hunnested _ _ _ hgrouped⟩, fun type h => ?_,
    fun type h => ?_, _, haccepts, hclauses _ _ haccepts⟩
  · exact absurd ((hdefault _ _ type).mp h).2 (by decide)
  · exact absurd (hunnested _ _ type h) (by decide)

end QueryPipeline
