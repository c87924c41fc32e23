import QueryPipeline.Proofs.Expressions

/-!
# Nodes at any depth

A statement about what an expression contains is a statement about all of its nodes.

* `Expr.nodes` lists the nodes of an expression, `mem_nodes` goes down by one level, and
  `induct_children` is the induction that fits it;
* `mem_references` and `mem_looseReferences` find a mention of a column in the same way;
* **`infer_child`**: where an expression has a type, every node directly below it has one too, in
  the mode of its place (`Expr.childMode`), or is the list of a membership test. What typing sees
  to at a single node holds in this way at every depth.
-/

namespace QueryPipeline
namespace Expr

/-! ## 1. Nodes -/

mutual

/-- The nodes of an expression, each before the ones below it. -/
def nodes : Expr → List Expr
  | literal value => [literal value]
  | column name => [column name]
  | unary op operand => unary op operand :: operand.nodes
  | binary op left right => binary op left right :: (left.nodes ++ right.nodes)
  | valueList items => valueList items :: items.map literal
  | call function args => call function args :: nodesAll args
  | named name inner => named name inner :: inner.nodes
  | conditional test yes no =>
    conditional test yes no :: (test.nodes ++ (yes.nodes ++ no.nodes))
  | ordering direction term => ordering direction term :: term.nodes
  | grouping keys selections none =>
    grouping keys selections none :: (nodesAll keys ++ nodesAll selections)
  | grouping keys selections (some having) =>
    grouping keys selections (some having) ::
      (nodesAll keys ++ (nodesAll selections ++ having.nodes))
  | joining condition => joining condition :: condition.nodes
  | foreign kind source => [foreign kind source]

/-- The nodes of a list of expressions. -/
def nodesAll : List Expr → List Expr
  | [] => []
  | e :: rest => e.nodes ++ nodesAll rest

end

theorem nodesAll_eq (es : List Expr) : nodesAll es = es.flatMap nodes := by
  induction es with
  | nil => rfl
  | cons e rest ih => rw [nodesAll, ih, List.flatMap_cons]

theorem nodes_eq (e : Expr) : e.nodes = e :: e.children.flatMap nodes := by
  cases e with
  | valueList items =>
    rw [nodes, children, List.flatMap_map, List.map_eq_flatMap]
    rfl
  | grouping keys selections having =>
    cases having <;> simp [nodes, children, nodesAll_eq]
  | _ => simp [nodes, children, nodesAll_eq]

/-- **The nodes of an expression are itself and those of the nodes directly below it.** -/
theorem mem_nodes {e n : Expr} : n ∈ e.nodes ↔ n = e ∨ ∃ c ∈ e.children, n ∈ c.nodes := by
  rw [nodes_eq, List.mem_cons, List.mem_flatMap]

theorem self_mem_nodes (e : Expr) : e ∈ e.nodes := mem_nodes.mpr (Or.inl rfl)

theorem forall_nodes {P : Expr → Prop} {e : Expr} :
    (∀ n ∈ e.nodes, P n) ↔ P e ∧ ∀ c ∈ e.children, ∀ n ∈ c.nodes, P n := by
  simp only [nodes_eq e, List.forall_mem_cons, List.mem_flatMap, forall_exists_index, and_imp]
  exact and_congr_right fun _ => ⟨fun h c hc n hn => h n c hc hn, fun h n c hc hn => h c hc n hn⟩

/-- **Induction from the children**: an expression has a property once the nodes directly below it
    do. -/
theorem induct_children {motive : Expr → Prop}
    (step : ∀ e, (∀ c ∈ e.children, motive c) → motive e) (e : Expr) : motive e := by
  have leaf (value : Literal) : motive (.literal value) :=
    step _ fun c hc => by simp [children] at hc
  induction e with
  | literal value => exact leaf value
  | column name => exact step _ fun c hc => by simp [children] at hc
  | unary op operand ih => exact step _ (by simpa [children] using ih)
  | binary op left right ihl ihr => exact step _ (by simpa [children] using ⟨ihl, ihr⟩)
  | valueList items => exact step _ (by simp [children, leaf])
  | call function args ih => exact step _ ih
  | named name inner ih => exact step _ (by simpa [children] using ih)
  | conditional test yes no iht ihy ihn =>
    exact step _ (by simpa [children] using ⟨iht, ihy, ihn⟩)
  | ordering direction term ih => exact step _ (by simpa [children] using ih)
  | grouping keys selections having ihk ihs ihh =>
    refine step _ fun c hc => ?_
    rcases List.mem_append.mp hc with hc | hc
    · rcases List.mem_append.mp hc with hc | hc
      · exact ihk c hc
      · exact ihs c hc
    · exact ihh c (Option.mem_toList.mp hc)
  | joining condition ih => exact step _ (by simpa [children] using ih)
  | foreign kind source => exact step _ fun c hc => by simp [children] at hc

/-! ## 2. Mentions -/

/-- Whether a node is a call of an aggregate. -/
def isAggregateCall : Expr → Bool
  | call function _ => function.isAggregate
  | _ => false

/-- **A column is mentioned iff** the node is a reference to it, or it is mentioned directly
    below. -/
theorem mem_references {e : Expr} {n : String} :
    n ∈ e.references ↔ e = column n ∨ ∃ c ∈ e.children, n ∈ c.references := by
  cases e with
  | column name => simp [references, children, eq_comm]
  | valueList items => simp [references, children]
  | grouping keys selections having =>
    cases having <;> simp [references, children, referencesAll_eq, or_and_right, exists_or]
  | _ => simp [references, children, referencesAll_eq]

/-- **A column is mentioned outside of aggregate calls iff** the node is a reference to it, or it is
    so mentioned directly below a node that is no aggregate call. -/
theorem mem_looseReferences {e : Expr} {n : String} :
    n ∈ e.looseReferences ↔
      e = column n ∨ e.isAggregateCall = false ∧ ∃ c ∈ e.children, n ∈ c.looseReferences := by
  cases e with
  | column name => simp [looseReferences, children, isAggregateCall, eq_comm]
  | valueList items => simp [looseReferences, children]
  | call function args =>
    cases h : function.isAggregate <;>
      simp [looseReferences, children, isAggregateCall, looseReferencesAll_eq, h]
  | grouping keys selections having =>
    cases having <;>
      simp [looseReferences, children, isAggregateCall, looseReferencesAll_eq, or_and_right,
        exists_or]
  | _ => simp [looseReferences, children, isAggregateCall]

/-- The columns that are mentioned below a node are mentioned in it. -/
theorem references_child {e c : Expr} (hc : c ∈ e.children) :
    ∀ n ∈ c.references, n ∈ e.references :=
  fun _ hn => mem_references.mpr (Or.inr ⟨c, hc, hn⟩)

/-- What is mentioned outside of aggregate calls is mentioned. -/
theorem looseReferences_references (e : Expr) : ∀ n ∈ e.looseReferences, n ∈ e.references := by
  induction e using induct_children with
  | step e ih =>
    intro n hn
    rcases mem_looseReferences.mp hn with he | ⟨_, c, hc, hn⟩
    · exact mem_references.mpr (Or.inl he)
    · exact references_child hc n (ih c hc n hn)

/-! ## 3. Types of the nodes below -/

/-- The mode in which the nodes directly below a node are typed. -/
def childMode (mode : Mode) : Expr → Mode
  | call function _ => function.argumentMode mode
  | _ => mode

/-- **Below a typed node all is typed**, the list of a membership test apart. -/
theorem infer_child {s : Schema} {mode : Mode} {e c : Expr} {type : ColumnType}
    (h : e.infer s mode = .ok type) (hc : c ∈ e.children) :
    (∃ below, c.infer s (e.childMode mode) = .ok below) ∨ ∃ items, c = valueList items := by
  cases e with
  | unary op operand =>
    obtain rfl := List.mem_singleton.mp hc
    obtain ⟨inner, hinner, _⟩ := Outcome.bind_eq_ok.mp h
    exact Or.inl ⟨inner, hinner⟩
  | binary op left right =>
    rw [infer] at h
    by_cases hop : op.isMembership = true
    · rw [if_pos hop] at h
      obtain ⟨leftType, hleft, h⟩ := Outcome.bind_eq_ok.mp h
      rcases List.mem_cons.mp hc with rfl | hc
      · exact Or.inl ⟨leftType, hleft⟩
      · obtain rfl := List.mem_singleton.mp hc
        exact Or.inr (BinaryOp.membershipIn_list h)
    · rw [if_neg hop] at h
      obtain ⟨leftType, hleft, h⟩ := Outcome.bind_eq_ok.mp h
      obtain ⟨rightType, hright, _⟩ := Outcome.bind_eq_ok.mp h
      rcases List.mem_cons.mp hc with rfl | hc
      · exact Or.inl ⟨leftType, hleft⟩
      · obtain rfl := List.mem_singleton.mp hc
        exact Or.inl ⟨rightType, hright⟩
  | call function args =>
    obtain ⟨_, _, h⟩ := Outcome.bind_eq_ok.mp h
    obtain ⟨types, htypes, _⟩ := Outcome.bind_eq_ok.mp h
    exact Or.inl (inferAll_mem htypes hc)
  | named name inner =>
    obtain rfl := List.mem_singleton.mp hc
    exact Or.inl ⟨type, h⟩
  | conditional test yes no =>
    obtain ⟨testType, htest, h⟩ := Outcome.bind_eq_ok.mp h
    obtain ⟨_, _, h⟩ := Outcome.bind_eq_ok.mp h
    obtain ⟨yesType, hyes, h⟩ := Outcome.bind_eq_ok.mp h
    obtain ⟨noType, hno, _⟩ := Outcome.bind_eq_ok.mp h
    simp only [children, List.mem_cons, List.not_mem_nil, or_false] at hc
    rcases hc with rfl | rfl | rfl
    · exact Or.inl ⟨testType, htest⟩
    · exact Or.inl ⟨yesType, hyes⟩
    · exact Or.inl ⟨noType, hno⟩
  | literal value => exact absurd hc List.not_mem_nil
  | column name => exact absurd hc List.not_mem_nil
  | valueList items => simp [infer, mistyped] at h
  | ordering direction term => simp [infer, mistyped] at h
  | grouping keys selections having => simp [infer, mistyped] at h
  | joining condition => simp [infer, mistyped] at h
  | foreign kind source => simp [infer] at h

end Expr
end QueryPipeline
