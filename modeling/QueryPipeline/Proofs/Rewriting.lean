import QueryPipeline.Proofs.Nodes

/-!
# Rewriting expressions

Replacing nodes of an expression at every depth, and what the mentioned columns and the types become
of it.

* `Expr.rewrite` applies a function to every node, after it was applied to the nodes below it, and
  `forall_nodes_rewrite` is what all nodes of the result have in common;
* `references_rewrite`: a rewriting that changes the name of a single reference changes the mentions
  in the same way, and `walk_rewrite`: one that leaves the walk over each node leaves all walks;
* `Expr.Alike`: the types of two nodes, each on a schema of its own, correspond wherever the nodes
  stand, in the sense that a `Correspondence` gives to it;
* **`rewrite_alike`**: so they do for a rewritten expression if they do for a single reference and
  for a single step. Steps that typing does not see at all are the case of `rewrite_typedAlike`.
-/

namespace QueryPipeline
namespace Expr

/-! ## 1. Rewriting -/

mutual

/-- Applies a function to every node of an expression, from the leaves on. -/
def rewrite (f : Expr → Expr) : Expr → Expr
  | literal value => f (literal value)
  | column name => f (column name)
  | unary op operand => f (unary op (rewrite f operand))
  | binary op left right => f (binary op (rewrite f left) (rewrite f right))
  | valueList items => f (valueList items)
  | call function args => f (call function (rewriteAll f args))
  | named name inner => f (named name (rewrite f inner))
  | conditional test yes no => f (conditional (rewrite f test) (rewrite f yes) (rewrite f no))
  | ordering direction term => f (ordering direction (rewrite f term))
  | grouping keys selections none =>
    f (grouping (rewriteAll f keys) (rewriteAll f selections) none)
  | grouping keys selections (some having) =>
    f (grouping (rewriteAll f keys) (rewriteAll f selections) (some (rewrite f having)))
  | joining condition => f (joining (rewrite f condition))
  | foreign kind source => f (foreign kind source)

/-- Rewrites a list of expressions. -/
def rewriteAll (f : Expr → Expr) : List Expr → List Expr
  | [] => []
  | e :: rest => rewrite f e :: rewriteAll f rest

end

theorem rewriteAll_eq (f : Expr → Expr) (es : List Expr) :
    rewriteAll f es = es.map (rewrite f) := by
  induction es with
  | nil => rfl
  | cons e rest ih => rw [rewriteAll, ih, List.map_cons]

variable {f : Expr → Expr}

/-- Nothing changes if no step changes a node. -/
theorem rewrite_same (step : ∀ e, f e = e) (e : Expr) : e.rewrite f = e := by
  have list {es : List Expr} (h : ∀ e ∈ es, e.rewrite f = e) : rewriteAll f es = es := by
    rw [rewriteAll_eq, List.map_congr_left h, List.map_id']
  induction e with
  | literal value => exact step _
  | column name => exact step _
  | unary op operand ih => rw [rewrite, ih, step]
  | binary op left right ihl ihr => rw [rewrite, ihl, ihr, step]
  | valueList items => exact step _
  | call function args ih => rw [rewrite, list ih, step]
  | named name inner ih => rw [rewrite, ih, step]
  | conditional test yes no iht ihy ihn => rw [rewrite, iht, ihy, ihn, step]
  | ordering direction term ih => rw [rewrite, ih, step]
  | grouping keys selections having ihk ihs ihh =>
    cases having with
    | none => rw [rewrite, list ihk, list ihs, step]
    | some having => rw [rewrite, list ihk, list ihs, ihh having rfl, step]
  | joining condition ih => rw [rewrite, ih, step]
  | foreign kind source => exact step _

/-- **The nodes of a rewritten expression** have a property if literals have it and every step makes
    it a property of all nodes of what it gives. -/
theorem forall_nodes_rewrite {P : Expr → Prop} (literals : ∀ value, P (literal value))
    (step : ∀ e, (∀ c ∈ e.children, ∀ n ∈ c.nodes, P n) → ∀ n ∈ (f e).nodes, P n) (e : Expr) :
    ∀ n ∈ (e.rewrite f).nodes, P n := by
  have leaf {e : Expr} (h : e.children = []) : ∀ n ∈ (f e).nodes, P n := by
    refine step e fun c hc => ?_
    rw [h] at hc
    exact absurd hc List.not_mem_nil
  have list {es : List Expr} (h : ∀ e ∈ es, ∀ n ∈ (e.rewrite f).nodes, P n) :
      ∀ c ∈ rewriteAll f es, ∀ n ∈ c.nodes, P n := by
    rw [rewriteAll_eq]
    exact List.forall_mem_map.mpr h
  induction e with
  | literal value => exact leaf rfl
  | column name => exact leaf rfl
  | unary op operand ih => exact step _ (List.forall_mem_singleton.mpr ih)
  | binary op left right ihl ihr =>
    exact step _ (List.forall_mem_cons.mpr ⟨ihl, List.forall_mem_singleton.mpr ihr⟩)
  | valueList items =>
    refine step _ (List.forall_mem_map.mpr fun item _ => ?_)
    exact List.forall_mem_singleton.mpr (literals item)
  | call function args ih => exact step _ (list ih)
  | named name inner ih => exact step _ (List.forall_mem_singleton.mpr ih)
  | conditional test yes no iht ihy ihn =>
    exact step _ (List.forall_mem_cons.mpr ⟨iht, List.forall_mem_cons.mpr
      ⟨ihy, List.forall_mem_singleton.mpr ihn⟩⟩)
  | ordering direction term ih => exact step _ (List.forall_mem_singleton.mpr ih)
  | grouping keys selections having ihk ihs ihh =>
    have hlists : ∀ c ∈ rewriteAll f keys ++ rewriteAll f selections, ∀ n ∈ c.nodes, P n :=
      List.forall_mem_append.mpr ⟨list ihk, list ihs⟩
    cases having with
    | none =>
      refine step _ (List.forall_mem_append.mpr ⟨hlists, fun c hc => ?_⟩)
      exact absurd hc List.not_mem_nil
    | some having =>
      exact step _ (List.forall_mem_append.mpr
        ⟨hlists, List.forall_mem_singleton.mpr (ihh having rfl)⟩)
  | joining condition ih => exact step _ (List.forall_mem_singleton.mpr ih)
  | foreign kind source => exact leaf rfl

/-! ## 2. Mentions and walks -/

/-- The mentions of a rewritten list, if those of its members are known. -/
theorem flatMap_rewriteAll {mentions mentions' : Expr → List String} {es : List Expr}
    (h : ∀ e ∈ es, mentions' (e.rewrite f) = mentions e) :
    (rewriteAll f es).flatMap mentions' = es.flatMap mentions := by
  rw [rewriteAll_eq, List.flatMap_map, List.flatMap_def, List.flatMap_def, List.map_congr_left h]

/-- **The mentions of a rewritten expression** are the old ones under new names, if a reference gets
    its new name and no other step changes the mentions. -/
theorem references_rewrite {rename : String → String}
    (columns : ∀ n, (f (column n)).references = [rename n])
    (step : ∀ e, (∀ n, e ≠ column n) → (f e).references = e.references) (e : Expr) :
    (e.rewrite f).references = e.references.map rename := by
  have list {es : List Expr} (h : ∀ e ∈ es, (e.rewrite f).references = e.references.map rename) :
      referencesAll (rewriteAll f es) = (referencesAll es).map rename := by
    rw [referencesAll_eq, referencesAll_eq, flatMap_rewriteAll h, List.map_flatMap]
  induction e with
  | literal value => exact step _ (by simp)
  | column name => exact columns name
  | unary op operand ih => exact (step _ (by simp)).trans ih
  | binary op left right ihl ihr =>
    refine (step _ (by simp)).trans ?_
    rw [references, references, ihl, ihr, List.map_append]
  | valueList items => exact step _ (by simp)
  | call function args ih => exact (step _ (by simp)).trans (list ih)
  | named name inner ih => exact (step _ (by simp)).trans ih
  | conditional test yes no iht ihy ihn =>
    refine (step _ (by simp)).trans ?_
    rw [references, references, iht, ihy, ihn, List.map_append, List.map_append]
  | ordering direction term ih => exact (step _ (by simp)).trans ih
  | grouping keys selections having ihk ihs ihh =>
    cases having with
    | none =>
      refine (step _ (by simp)).trans ?_
      rw [references, references, list ihk, list ihs, List.map_append]
    | some having =>
      refine (step _ (by simp)).trans ?_
      rw [references, references, list ihk, list ihs, ihh having rfl, List.map_append,
        List.map_append]
  | joining condition ih => exact (step _ (by simp)).trans ih
  | foreign kind source => exact step _ (by simp)

/-- **A walk over a rewritten expression is the one before** if no step changes it. -/
theorem walk_rewrite {within : Bool} {check : String → Outcome Unit}
    (step : ∀ e, (f e).walk within check = e.walk within check) (e : Expr) :
    (e.rewrite f).walk within check = e.walk within check := by
  have list {es : List Expr} (h : ∀ e ∈ es, (e.rewrite f).walk within check = e.walk within check) :
      walkAll within check (rewriteAll f es) = walkAll within check es := by
    induction es with
    | nil => rfl
    | cons e rest ih =>
      obtain ⟨hfirst, hrest⟩ := List.forall_mem_cons.mp h
      rw [rewriteAll, walkAll, walkAll, hfirst, ih hrest]
  induction e with
  | literal value => exact step _
  | column name => exact step _
  | unary op operand ih => exact (step _).trans ih
  | binary op left right ihl ihr =>
    refine (step _).trans ?_
    rw [walk, walk, ihl, ihr]
  | valueList items => exact step _
  | call function args ih =>
    refine (step _).trans ?_
    rw [walk, walk, list ih]
  | named name inner ih => exact (step _).trans ih
  | conditional test yes no iht ihy ihn =>
    refine (step _).trans ?_
    rw [walk, walk, iht, ihy, ihn]
  | ordering direction term ih => exact (step _).trans ih
  | grouping keys selections having ihk ihs ihh =>
    cases having with
    | none =>
      refine (step _).trans ?_
      rw [walk, walk, list ihk, list ihs]
    | some having =>
      refine (step _).trans ?_
      rw [walk, walk, list ihk, list ihs, ihh having rfl]
  | joining condition ih => exact (step _).trans ih
  | foreign kind source => exact step _

/-! ## 3. Nodes that are typed alike -/

variable {R : Correspondence} {s t : Schema}

/-- The types of two nodes correspond, each on a schema of its own, and the nodes are the same to an
    operator that looks at its right operand. -/
structure Alike (R : Correspondence) (s t : Schema) (e e' : Expr) : Prop where
  infer : ∀ mode, R.rel (e.infer s mode) (e'.infer t mode)
  pattern : e'.isStringLiteral = e.isStringLiteral
  list : ∀ (op : BinaryOp) left, op.membershipIn left e' = op.membershipIn left e

namespace Alike

variable {e e' l l' r r' a b c : Expr}

theorem trans {u : Schema} (hab : Alike R s t a b) (hbc : Alike R t u b c) : Alike R s u a c where
  infer mode := R.trans (hab.infer mode) (hbc.infer mode)
  pattern := hbc.pattern.trans hab.pattern
  list op left := (hbc.list op left).trans (hab.list op left)

/-- A node with the same type on both schemas. -/
theorem of_infer_eq (h : ∀ mode, e.infer s mode = e.infer t mode) : Alike R s t e e :=
  ⟨fun mode => R.of_eq (h mode), rfl, fun _ _ => rfl⟩

theorem unary (op : UnaryOp) (h : Alike R s t e e') :
    Alike R s t (.unary op e) (.unary op e') :=
  ⟨fun mode => R.bind (h.infer mode) fun _ => R.refl _, rfl, fun _ _ => rfl⟩

theorem named (name : String) (h : Alike R s t e e') :
    Alike R s t (.named name e) (.named name e') :=
  ⟨h.infer, rfl, fun _ _ => rfl⟩

theorem conditional (ha : Alike R s t e e') (hl : Alike R s t l l') (hr : Alike R s t r r') :
    Alike R s t (.conditional e l r) (.conditional e' l' r') := by
  refine ⟨fun mode => ?_, rfl, fun _ _ => rfl⟩
  exact R.bind (ha.infer mode) fun _ => R.bind (R.refl _) fun _ =>
    R.bind (hl.infer mode) fun _ => R.bind (hr.infer mode) fun _ => R.refl _

/-- The operands of an operator may be replaced. -/
theorem binary (op : BinaryOp) (hl : Alike R s t l l') (hr : Alike R s t r r') :
    Alike R s t (.binary op l r) (.binary op l' r') := by
  refine ⟨fun mode => ?_, rfl, fun _ _ => rfl⟩
  rw [Expr.infer, Expr.infer]
  by_cases hop : op.isMembership = true
  · rw [if_pos hop, if_pos hop]
    exact R.bind (hl.infer mode) fun left => R.of_eq (hr.list op left).symm
  · rw [if_neg hop, if_neg hop]
    have hresult (left right : ColumnType) :
        op.resultType r left right = op.resultType r' left right := by
      unfold BinaryOp.resultType
      rw [hr.pattern]
    exact R.bind (hl.infer mode) fun left =>
      R.bind (hr.infer mode) fun right => R.of_eq (hresult left right)

/-- The arguments of a call may be replaced. -/
theorem call (function : FunctionName) {args : List Expr} {f : Expr → Expr}
    (h : ∀ e ∈ args, Alike R s t e (f e)) :
    Alike R s t (.call function args) (.call function (args.map f)) := by
  have hargs (mode : Mode) : R.rel (inferAll s mode args) (inferAll t mode (args.map f)) := by
    induction args with
    | nil => exact R.refl _
    | cons e rest ih =>
      have hrest := ih fun e he => h e (List.mem_cons_of_mem _ he)
      exact R.bind ((h e List.mem_cons_self).infer mode) fun _ => R.bind hrest fun _ => R.refl _
  refine ⟨fun mode => ?_, rfl, fun _ _ => rfl⟩
  rw [Expr.infer, Expr.infer, List.length_map]
  exact R.bind (R.refl _) fun _ => R.bind (hargs _) fun _ => R.refl _

end Alike

/-- **The types of a rewritten expression correspond** to the ones before if they do for a reference
    that is rewritten, and for any other node in place of what a step makes of it. -/
theorem rewrite_alike {e : Expr}
    (columns : ∀ n ∈ e.references, Alike R s t (column n) (f (column n)))
    (step : ∀ e, (∀ n, e ≠ column n) → Alike R t t e (f e)) : Alike R s t e (e.rewrite f) := by
  induction e with
  | literal value =>
    have below : Alike R s t (literal value) (literal value) := .of_infer_eq fun _ => rfl
    exact below.trans (step _ (by simp))
  | column name => exact columns name (List.mem_singleton.mpr rfl)
  | unary op operand ih => exact (Alike.unary op (ih columns)).trans (step _ (by simp))
  | binary op left right ihl ihr =>
    have hleft := ihl fun n hn => columns n (List.mem_append_left _ hn)
    have hright := ihr fun n hn => columns n (List.mem_append_right _ hn)
    exact (Alike.binary op hleft hright).trans (step _ (by simp))
  | valueList items =>
    have below : Alike R s t (valueList items) (valueList items) := .of_infer_eq fun _ => rfl
    exact below.trans (step _ (by simp))
  | call function args ih =>
    have hargs : ∀ e ∈ args, Alike R s t e (e.rewrite f) := by
      refine fun e he => ih e he fun n hn => columns n ?_
      rw [references, referencesAll_eq]
      exact List.mem_flatMap.mpr ⟨e, he, hn⟩
    rw [rewrite, rewriteAll_eq]
    exact (Alike.call function hargs).trans (step _ (by simp))
  | named name inner ih => exact (Alike.named name (ih columns)).trans (step _ (by simp))
  | conditional test yes no iht ihy ihn =>
    have htest := iht fun n hn => columns n (List.mem_append_left _ hn)
    have hyes := ihy fun n hn =>
      columns n (List.mem_append_right _ (List.mem_append_left _ hn))
    have hno := ihn fun n hn =>
      columns n (List.mem_append_right _ (List.mem_append_right _ hn))
    exact (Alike.conditional htest hyes hno).trans (step _ (by simp))
  | ordering direction term ih =>
    have below : Alike R s t (ordering direction term) (ordering direction (term.rewrite f)) :=
      ⟨fun _ => R.refl _, rfl, fun _ _ => rfl⟩
    exact below.trans (step _ (by simp))
  | grouping keys selections having ihk ihs ihh =>
    -- a grouping has no type whatever its parts are
    have below (keys' selections' : List Expr) (having' : Option Expr) :
        Alike R s t (grouping keys selections having) (grouping keys' selections' having') :=
      ⟨fun _ => R.refl _, rfl, fun _ _ => rfl⟩
    cases having with
    | none => exact (below _ _ _).trans (step _ (by simp))
    | some having => exact (below _ _ _).trans (step _ (by simp))
  | joining condition ih =>
    have below : Alike R s t (joining condition) (joining (condition.rewrite f)) :=
      ⟨fun _ => R.refl _, rfl, fun _ _ => rfl⟩
    exact below.trans (step _ (by simp))
  | foreign kind source =>
    have below : Alike R s t (foreign kind source) (foreign kind source) :=
      .of_infer_eq fun _ => rfl
    exact below.trans (step _ (by simp))

/-- Typing does not tell two nodes apart: they have the same outcome, and they do the same on the
    right of an operator that looks at its right operand. -/
structure TypedAlike (e e' : Expr) : Prop where
  infer : ∀ s mode, e'.infer s mode = e.infer s mode
  pattern : e'.isStringLiteral = e.isStringLiteral
  list : ∀ (op : BinaryOp) left, op.membershipIn left e' = op.membershipIn left e

theorem TypedAlike.refl (e : Expr) : TypedAlike e e := ⟨fun _ _ => rfl, rfl, fun _ _ => rfl⟩

theorem typedAlike_iff {e e' : Expr} :
    TypedAlike e e' ↔ ∀ s, Alike .same s s e e' := by
  constructor
  · exact fun h s => ⟨fun mode => (h.infer s mode).symm, h.pattern, h.list⟩
  · exact fun h => ⟨fun s mode => ((h s).infer mode).symm, (h .empty).pattern, (h .empty).list⟩

/-- **A rewriting whose steps typing does not see is not seen as a whole.** -/
theorem rewrite_typedAlike (step : ∀ e, TypedAlike e (f e)) (e : Expr) :
    TypedAlike e (e.rewrite f) :=
  typedAlike_iff.mpr fun s => rewrite_alike (fun _ _ => typedAlike_iff.mp (step _) s)
    fun e _ => typedAlike_iff.mp (step e) s

end Expr
end QueryPipeline
