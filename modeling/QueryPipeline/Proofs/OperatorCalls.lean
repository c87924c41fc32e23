import QueryPipeline.Proofs.Operators
import QueryPipeline.Proofs.WiderTypes

/-!
# Operators as calls

A remainder or a power can be written as an operator between its operands or as a call of a
function. The two forms have rules of their own for types and texts, and the walks over an
expression know them as nodes of different kinds.

* `Expr.asCall` replaces such an operator by the call, and `Expr.rewrite` does so at every depth, so
  that none is left (`Expr.nodes_asCall`);
* `Expr.alike_asCall`: the call has a type iff the operator has it;
* `Arrow.fragment_asCall`: the standard renderers give the call the text of the operator;
* `resolve_asCall`: requests are accepted with the one form iff they are with the other;
* **`operators_as_calls`** puts this together for whole expressions and requests.
-/

namespace QueryPipeline

variable {s : Schema} {op : BinaryOp} {function : FunctionName}

/-! ## 1. The call of an operator -/

/-- The function that does what an operator does, for the two operators that have one. -/
def BinaryOp.function? : BinaryOp → Option FunctionName
  | .arithmetic .remainder => some .modulo
  | .arithmetic .power => some .power
  | _ => none

/-- A call in place of an operator that has a function; any other node stays. -/
def Expr.asCall : Expr → Expr
  | .binary op left right =>
    match op.function? with
    | some function => .call function [left, right]
    | none => .binary op left right
  | e => e

theorem BinaryOp.function?_cases (h : op.function? = some function) :
    (op = .arithmetic .remainder ∧ function = .modulo) ∨
      (op = .arithmetic .power ∧ function = .power) := by
  cases op with
  | arithmetic op =>
    cases op with
    | remainder => exact Or.inl ⟨rfl, (Option.some.inj h).symm⟩
    | power => exact Or.inr ⟨rfl, (Option.some.inj h).symm⟩
    | _ => cases h
  | _ => cases h

namespace Expr

/-- An operator stays, or it becomes the call of its function. -/
theorem asCall_binary (op : BinaryOp) (left right : Expr) :
    (op.function? = none ∧ (binary op left right).asCall = binary op left right) ∨
      ∃ function, op.function? = some function ∧
        (binary op left right).asCall = call function [left, right] := by
  rw [asCall]
  cases op.function? with
  | none => exact Or.inl ⟨rfl, rfl⟩
  | some function => exact Or.inr ⟨function, rfl, rfl⟩

/-- A node whose operator, if it is one on two operands, has no function. -/
def Called (e : Expr) : Prop := ∀ op ∈ e.binaryOp?, op.function? = none

/-- **A rewritten expression holds no operator that has a function.** -/
theorem nodes_asCall (e : Expr) : ∀ n ∈ (e.rewrite asCall).nodes, n.Called := by
  have other {e : Expr} (h : e.binaryOp? = none) : e.Called := by
    intro op hop
    rw [h] at hop
    cases hop
  refine forall_nodes_rewrite (fun _ => other rfl) (fun e below => ?_) e
  cases e with
  | binary op left right =>
    rcases asCall_binary op left right with ⟨hop, hstays⟩ | ⟨function, _, hcall⟩
    · rw [hstays]
      exact forall_nodes.mpr ⟨fun own hown => Option.some.inj hown ▸ hop, below⟩
    · rw [hcall]
      exact forall_nodes.mpr ⟨other rfl, below⟩
  | _ => exact forall_nodes.mpr ⟨other rfl, below⟩

/-! ## 2. Walks and types -/

/-- **A walk goes through a call as through its operator.** -/
theorem walk_asCall (within : Bool) (check : String → Outcome Unit) (e : Expr) :
    (e.rewrite asCall).walk within check = e.walk within check := by
  refine walk_rewrite (fun e => ?_) e
  cases e with
  | binary op left right =>
    rcases asCall_binary op left right with ⟨_, h⟩ | ⟨function, hf, h⟩
    · rw [h]
    · have henters : entersCall within function = .ok true := by
        rcases BinaryOp.function?_cases hf with ⟨_, rfl⟩ | ⟨_, rfl⟩ <;> cases within <;> rfl
      rw [h]
      simp only [walk, henters, Outcome.ok_bind, if_true, walkAll, Outcome.bind_done]
  | _ => rfl

end Expr

/-- **The rule of an operator and that of its function** give the same type or none. -/
theorem BinaryOp.resultType_callType (h : op.function? = some function) {operand : Expr}
    {left right type : ColumnType} :
    op.resultType operand left right = .ok type ↔ function.callType [left, right] = .ok type := by
  rw [BinaryOp.resultType_eq_ok, FunctionName.callType_eq_ok]
  rcases function?_cases h with ⟨rfl, rfl⟩ | ⟨rfl, rfl⟩
  · simp [Gives, FunctionName.arity?, FunctionName.scalarType_eq_ok]
  · simp [Gives, FunctionName.arity?, FunctionName.scalarType_eq_ok]

namespace Expr

/-- The call of a function of two arguments is typed as an operator is: its arguments, then its
    rule. -/
theorem infer_call_two (h : op.function? = some function) (mode : Mode) (left right : Expr) :
    (call function [left, right]).infer s mode =
      left.infer s mode >>= fun leftType => right.infer s mode >>= fun rightType =>
        function.callType [leftType, rightType] := by
  have hmode : function.argumentMode mode = mode := by
    rcases BinaryOp.function?_cases h with ⟨_, rfl⟩ | ⟨_, rfl⟩ <;> rfl
  have hcheck : function.checkCall mode 2 = .ok () := by
    rcases BinaryOp.function?_cases h with ⟨_, rfl⟩ | ⟨_, rfl⟩ <;> rfl
  rw [infer, hmode, List.length_cons, List.length_singleton, hcheck]
  simp only [inferAll, Outcome.ok_bind, bind_assoc, Outcome.pure_eq]

/-- **A call has a type iff its operator has it.** -/
theorem alike_asCall (e : Expr) : Alike .sameResult s s e e.asCall := by
  cases e with
  | binary op left right =>
    rcases asCall_binary op left right with ⟨_, h⟩ | ⟨function, hf, h⟩
    · rw [h]
      exact .of_infer_eq fun _ => rfl
    · rw [h]
      refine ⟨fun mode => ?_, rfl, fun _ _ => rfl⟩
      have hop : op.isMembership = false := by
        rcases BinaryOp.function?_cases hf with ⟨rfl, _⟩ | ⟨rfl, _⟩ <;> rfl
      rw [infer_call_two hf, infer, hop]
      exact Correspondence.sameResult.bind (Correspondence.sameResult.refl _) fun _ =>
        Correspondence.sameResult.bind (Correspondence.sameResult.refl _) fun _ _ =>
          BinaryOp.resultType_callType hf
  | _ => exact .of_infer_eq fun _ => rfl

theorem infer_asCall (s : Schema) (mode : Mode) (e : Expr) :
    Correspondence.sameResult.rel (e.infer s mode) ((e.rewrite asCall).infer s mode) :=
  (rewrite_alike (fun _ _ => .of_infer_eq fun _ => rfl) fun e _ => alike_asCall e).infer mode

end Expr

/-! ## 3. Texts -/

/-- The renderers of a strategy read the texts of arguments and not the arguments. -/
def FunctionStrategy.ReadsTexts (functions : FunctionStrategy) : Prop :=
  ∀ function renderer, functions function = some renderer →
    ∀ args args' texts, renderer ⟨function, args, texts⟩ = renderer ⟨function, args', texts⟩

theorem FunctionStrategy.standard_readsTexts : FunctionStrategy.standard.ReadsTexts := by
  intro function renderer h args args' texts
  cases function with
  | other text =>
    have hnone : standard (.other text) = Option.none := rfl
    rw [hnone] at h
    cases h
  | _ =>
    obtain rfl := Option.some.inj h
    rfl

namespace Arrow

variable {d : Arrow} {f : Expr → Expr}

/-- **The text of a rewritten expression is the one before** if no step changes it and calls are
    written from the texts of their arguments. -/
theorem fragment_rewrite (reads : d.functions.ReadsTexts)
    (step : ∀ e, d.fragment (f e) = d.fragment e) (e : Expr) :
    d.fragment (e.rewrite f) = d.fragment e := by
  induction e with
  | literal value => exact step _
  | column name => exact step _
  | unary op operand ih => rw [Expr.rewrite, step, fragment, fragment, ih]
  | binary op left right ihl ihr => rw [Expr.rewrite, step, fragment, fragment, ihl, ihr]
  | valueList items => exact step _
  | call function args ih =>
    have hargs : d.fragments (Expr.rewriteAll f args) = d.fragments args := by
      induction args with
      | nil => rfl
      | cons e rest ihrest =>
        rw [Expr.rewriteAll, fragments, fragments, ih e List.mem_cons_self,
          ihrest fun e he => ih e (List.mem_cons_of_mem _ he)]
    rw [Expr.rewrite, step, fragment, fragment, hargs]
    cases hrenderer : d.functions function with
    | none => rfl
    | some renderer =>
      refine congrArg (d.fragments args >>= ·) (funext fun texts => ?_)
      rw [reads function renderer hrenderer (Expr.rewriteAll f args) args]
  | named name inner ih => rw [Expr.rewrite, step, fragment, fragment, ih]
  | conditional test yes no iht ihy ihn =>
    rw [Expr.rewrite, step, fragment, fragment, iht, ihy, ihn]
  | ordering direction term ih => rw [Expr.rewrite, step, fragment, fragment, ih]
  | grouping keys selections having =>
    cases having with
    | none => exact step _
    | some having => exact step _
  | joining condition => exact step _
  | foreign kind source => exact step _

/-- **The standard renderers write a call as its operator is written.** -/
theorem fragment_asCall (standard : d.functions = .standard) (e : Expr) :
    d.fragment (e.rewrite Expr.asCall) = d.fragment e := by
  refine fragment_rewrite (standard ▸ FunctionStrategy.standard_readsTexts) (fun e => ?_) e
  cases e with
  | binary op left right =>
    rcases Expr.asCall_binary op left right with ⟨_, h⟩ | ⟨function, hf, h⟩
    · rw [h]
    · have hrenderer : ∃ name, d.functions function = some (binaryRenderer name) ∧
          ∀ l r, op.written? l r = some (name ++ "(" ++ l ++ ", " ++ r ++ ")") := by
        rw [standard]
        rcases BinaryOp.function?_cases hf with ⟨rfl, rfl⟩ | ⟨rfl, rfl⟩
        · exact ⟨"mod", rfl, fun _ _ => rfl⟩
        · exact ⟨"pow", rfl, fun _ _ => rfl⟩
      obtain ⟨name, hname, hwritten⟩ := hrenderer
      rw [h, fragment, fragment, hname]
      simp only [fragments, bind_assoc, hwritten]
      rfl
  | _ => rfl

end Arrow

/-! ## 4. Requests -/

/-- The node of an input rewritten; a column is no node. -/
def ColumnInput.rewrite (f : Expr → Expr) : ColumnInput → ColumnInput
  | node e => node (e.rewrite f)
  | input => input

/-- A request with all of its expressions rewritten. -/
def ClauseRequest.rewrite (f : Expr → Expr) : ClauseRequest → ClauseRequest
  | select columns => select (columns.map (ColumnInput.rewrite f))
  | extend columns => extend (columns.map (ColumnInput.rewrite f))
  | rename input => rename input
  | filter predicate => filter (predicate.rewrite f)
  | groupBy g => groupBy ⟨g.keys, g.selections.map (Expr.rewrite f), g.having.map (Expr.rewrite f)⟩
  | orderBy terms => orderBy (terms.map (ColumnInput.rewrite f))
  | limit count => limit count
  | offset count => offset count
  | distinct columns => distinct (columns.map (ColumnInput.rewrite f))
  | join other kind condition => join other kind (condition.rewrite f)

section Requests

theorem Expr.infer_relatedBy (s : Schema) (mode : Mode) (e : Expr) :
    RelatedBy Eq (e.infer s mode) ((e.rewrite asCall).infer s mode) :=
  .of_sameResult (infer_asCall s mode e)

theorem requirePredicate_asCall (s : Schema) (mode : Mode) (subject role : String) (e : Expr) :
    RelatedBy Eq (requirePredicate s mode subject role e)
      (requirePredicate s mode subject role (e.rewrite .asCall)) :=
  (Expr.infer_relatedBy s mode e).bind fun _ _ h => .of_eq (by rw [h])

/-- Operators on two operands and calls, which requests do not tell apart by their kind. -/
inductive Expr.Operation : Expr → Prop
  | binary (op : BinaryOp) (left right : Expr) : Operation (.binary op left right)
  | call (function : FunctionName) (args : List Expr) : Operation (.call function args)

theorem Expr.operation_asCall (op : BinaryOp) (left right : Expr) :
    ((Expr.binary op left right).rewrite asCall).Operation := by
  rw [rewrite]
  rcases asCall_binary op (left.rewrite asCall) (right.rewrite asCall) with
    ⟨_, h⟩ | ⟨function, _, h⟩
  · rw [h]
    exact .binary _ _ _
  · rw [h]
    exact .call _ _

theorem Expr.Operation.columnReference_eq {e : Expr} (h : e.Operation) (clause : String) :
    ∃ failure, columnReference clause (.node e) = .error failure := by
  cases h with
  | binary op left right => exact ⟨_, rfl⟩
  | call function args => exact ⟨_, rfl⟩

theorem Expr.Operation.requireAliased_eq {e : Expr} (h : e.Operation) :
    ∃ failure, requireAliased (.node e) = .error failure := by
  cases h with
  | binary op left right => exact ⟨_, rfl⟩
  | call function args => exact ⟨_, rfl⟩

theorem Expr.Operation.selectionName_eq {e : Expr} (h : e.Operation) (position : Nat) :
    selectionName position e = .ok ("column" ++ natText position) := by
  cases h with
  | binary op left right => rfl
  | call function args => rfl

theorem Expr.Operation.orderTerm_eq {e : Expr} (h : e.Operation) :
    orderTerm (.node e) = ⟨.asc, e⟩ := by
  cases h with
  | binary op left right => rfl
  | call function args => rfl

theorem columnReference_asCall (clause : String) (input : ColumnInput) :
    RelatedBy Eq (columnReference clause input)
      (columnReference clause (input.rewrite .asCall)) := by
  cases input with
  | node e =>
    cases e with
    | binary op left right =>
      obtain ⟨failure, h⟩ := (Expr.operation_asCall op left right).columnReference_eq clause
      rw [ColumnInput.rewrite, h]
      exact .error _ _
    | grouping keys selections having => cases having <;> exact .error _ _
    | _ => exact .of_eq rfl
  | _ => exact .of_eq rfl

theorem columnReferences_asCall (clause : String) (inputs : List ColumnInput) :
    RelatedBy Eq (columnReferences clause inputs)
      (columnReferences clause (inputs.map (ColumnInput.rewrite .asCall))) := by
  induction inputs with
  | nil => exact .ok rfl
  | cons input rest ih =>
    refine (columnReference_asCall clause input).bind fun name _ hname => ?_
    exact ih.bind fun names _ hnames => .ok (by rw [hname, hnames])

/-- An input is a named expression iff it is one rewritten, and then with the same name. -/
theorem requireAliased_asCall (input : ColumnInput) :
    RelatedBy (fun a b => b = ⟨a.name, a.expr.rewrite .asCall⟩) (requireAliased input)
      (requireAliased (input.rewrite .asCall)) := by
  cases input with
  | node e =>
    cases e with
    | named name inner => exact .ok rfl
    | binary op left right =>
      obtain ⟨failure, h⟩ := (Expr.operation_asCall op left right).requireAliased_eq
      rw [ColumnInput.rewrite, h]
      exact .error _ _
    | grouping keys selections having => cases having <;> exact .error _ _
    | _ => exact .error _ _
  | _ => exact .error _ _

/-- Computed columns have the names and types that they have rewritten. -/
theorem computedColumns_asCall (s : Schema) (earlier : List String) (inputs : List ColumnInput) :
    RelatedBy (fun c d => c.map Prod.snd = d.map Prod.snd) (computedColumns s earlier inputs)
      (computedColumns s earlier (inputs.map (ColumnInput.rewrite .asCall))) := by
  induction inputs generalizing earlier with
  | nil => exact .ok rfl
  | cons input rest ih =>
    rw [List.map_cons, computedColumns, computedColumns]
    refine (requireAliased_asCall input).bind fun a b hab => ?_
    subst hab
    refine .bind_same fun name => .ite (.error _ _) ?_
    refine (Expr.infer_relatedBy s {} a.expr).bind fun type _ htype => ?_
    refine (ih (name :: earlier)).bind fun more more' hmore => .ok ?_
    rw [List.map_cons, List.map_cons, hmore, htype]

theorem checkSelectionReferences_asCall (s : Schema) (keys : List String) (e : Expr) :
    checkSelectionReferences s keys (e.rewrite .asCall) = checkSelectionReferences s keys e := by
  rw [checkSelectionReferences, checkSelectionReferences, Expr.walk_asCall]

theorem selectionName_asCall (position : Nat) (e : Expr) :
    selectionName position (e.rewrite .asCall) = selectionName position e := by
  cases e with
  | binary op left right => exact (Expr.operation_asCall op left right).selectionName_eq position
  | grouping keys selections having => cases having <;> rfl
  | _ => rfl

theorem selectionColumns_asCall (s : Schema) (keys : List String) (position : Nat)
    (es : List Expr) :
    RelatedBy Eq (selectionColumns s keys position es)
      (selectionColumns s keys position (es.map (Expr.rewrite .asCall))) := by
  induction es generalizing position with
  | nil => exact .ok rfl
  | cons e rest ih =>
    rw [List.map_cons, selectionColumns, selectionColumns, checkSelectionReferences_asCall,
      selectionName_asCall]
    refine .bind_same fun _ => (Expr.infer_relatedBy s .grouped e).bind fun type _ htype => ?_
    refine .bind_same fun name => (ih (position + 1)).bind fun more _ hmore => .ok ?_
    rw [htype, hmore]

theorem checkHaving_asCall (s grouped : Schema) (keys : List String) (having : Option Expr) :
    RelatedBy Eq (checkHaving s grouped keys having)
      (checkHaving s grouped keys (having.map (Expr.rewrite .asCall))) := by
  cases having with
  | none => exact .ok rfl
  | some e =>
    have hreferences : checkHavingReferences s grouped keys (e.rewrite .asCall) =
        checkHavingReferences s grouped keys e := by
      rw [checkHavingReferences, checkHavingReferences, Expr.walk_asCall]
    rw [Option.map_some, checkHaving, checkHaving, hreferences]
    exact .bind_same fun _ => requirePredicate_asCall grouped .grouped _ _ e

theorem orderTerm_asCall (input : ColumnInput) :
    (orderTerm (input.rewrite .asCall)).term = (orderTerm input).term.rewrite .asCall := by
  cases input with
  | node e =>
    cases e with
    | binary op left right =>
      exact congrArg OrderTerm.term (Expr.operation_asCall op left right).orderTerm_eq
    | grouping keys selections having => cases having <;> rfl
    | _ => rfl
  | _ => rfl

theorem checkTerms_asCall (s : Schema) (inputs : List ColumnInput) :
    RelatedBy Eq (checkTerms s (inputs.map orderTerm))
      (checkTerms s ((inputs.map (ColumnInput.rewrite .asCall)).map orderTerm)) := by
  induction inputs with
  | nil => exact .ok rfl
  | cons input rest ih =>
    simp only [List.map_cons, checkTerms, orderTerm_asCall]
    exact (Expr.infer_relatedBy s {} _).bind fun _ _ _ => ih

theorem requireNonEmpty_map {α β : Type} (f : α → β) (items : List α) (what : String) :
    requireNonEmpty (items.map f) what = requireNonEmpty items what := by
  cases items <;> rfl

/-- **Requests are accepted in both forms or in none**, with the same schema. -/
theorem resolve_asCall (s : Schema) (request : ClauseRequest) :
    RelatedBy (fun r r' => r.schema = r'.schema) (s.resolve request)
      (s.resolve (request.rewrite .asCall)) := by
  have same (x : Outcome Resolved) : RelatedBy (fun r r' => r.schema = r'.schema) x x :=
    .refl (fun r => Eq.refl r.schema) x
  cases request with
  | select columns =>
    show RelatedBy _ (resolveSelect s columns) (resolveSelect s (columns.map _))
    rw [resolveSelect, resolveSelect, requireNonEmpty_map]
    refine .bind_same fun _ => (columnReferences_asCall _ columns).bind fun names _ hnames => ?_
    exact hnames ▸ .bind_same fun schema => .ok rfl
  | distinct columns =>
    refine (columnReferences_asCall _ columns).bind fun names _ hnames => ?_
    exact hnames ▸ same _
  | extend columns =>
    show RelatedBy _ (resolveExtend s columns) (resolveExtend s (columns.map _))
    rw [resolveExtend, resolveExtend, requireNonEmpty_map]
    refine .bind_same fun _ => (computedColumns_asCall s [] columns).bind fun c d hcd => ?_
    rw [hcd]
    exact .bind_same fun schema => .ok rfl
  | rename input => exact same _
  | filter predicate => exact (requirePredicate_asCall s _ _ _ predicate).bind fun _ _ _ => .ok rfl
  | groupBy g =>
    show RelatedBy _ (resolveGroupBy s g) (resolveGroupBy s ⟨g.keys, g.selections.map _, _⟩)
    rw [resolveGroupBy, resolveGroupBy, requireNonEmpty_map]
    refine .bind_same fun _ => .bind_same fun _ => .bind_same fun _ => ?_
    refine (selectionColumns_asCall s g.keys 1 g.selections).bind fun columns _ hcolumns => ?_
    subst hcolumns
    refine .bind_same fun grouped => ?_
    exact (checkHaving_asCall s grouped g.keys g.having).bind fun _ _ _ => .ok rfl
  | orderBy inputs =>
    show RelatedBy _ (resolveOrderBy s inputs) (resolveOrderBy s (inputs.map _))
    rw [resolveOrderBy, resolveOrderBy, requireNonEmpty_map]
    exact .bind_same fun _ => (checkTerms_asCall s inputs).bind fun _ _ _ => .ok rfl
  | limit count => exact same _
  | offset count => exact same _
  | join other kind condition =>
    refine .bind_same fun _ => .bind_same fun _ => .bind_same fun _ => ?_
    refine .bind_same fun combined => ?_
    exact (requirePredicate_asCall combined _ _ _ condition).bind fun _ _ _ => .ok rfl

end Requests

/-! ## 5. The two forms -/

/-- **Operators and calls agree.** In place of all remainders and powers of an expression their
    calls can stand: the expression has the same type, on every schema and in every mode, or has
    none in either form; the standard renderers give it the same text, whatever the style of the
    dialect is; and a request with its expressions rewritten is accepted with the same schema, or
    refused in either form. -/
theorem operators_as_calls :
    (∀ e : Expr, (∀ n ∈ (e.rewrite .asCall).nodes, n.Called) ∧
      (∀ s mode type, e.infer s mode = .ok type ↔ (e.rewrite .asCall).infer s mode = .ok type) ∧
      ∀ d : Arrow, ({ d with functions := .standard } : Arrow).fragment (e.rewrite .asCall) =
        ({ d with functions := .standard } : Arrow).fragment e) ∧
    ∀ (s : Schema) (request : ClauseRequest) (t : Schema),
      (∃ r, s.resolve request = .ok r ∧ r.schema = t) ↔
        ∃ r, s.resolve (request.rewrite .asCall) = .ok r ∧ r.schema = t := by
  refine ⟨fun e => ⟨e.nodes_asCall, fun s mode => Expr.infer_asCall s mode e, fun d => ?_⟩,
    fun s request t => ?_⟩
  · exact Arrow.fragment_asCall rfl e
  · exact (resolve_asCall s request).exists_ok_iff (fun _ _ h => h) t

/-- Whether the age of a person is even, in a column. -/
def namedEvenAge : Expr :=
  .named "even" (.binary (.comparison .equal)
    (.binary (.arithmetic .remainder) (.column "age") (.literal (.long 2))) (.literal (.long 0)))

/-- The teams whose size is no power of their number, with the remainder of the two. -/
def unevenTeams : ClauseRequest :=
  .groupBy ⟨["team"],
    [.column "team", .binary (.arithmetic .remainder) (.call .count [.column "id"])
      (.column "team")],
    some (.binary (.comparison .notEqual) (.column "column2")
      (.binary (.arithmetic .power) (.column "team") (.column "column2")))⟩

/-- The column has the same type and text in both forms, and the groups are accepted in both with
    the same columns. -/
theorem operators_as_calls_teams :
    (namedEvenAge.infer Pipeline.ofPeople.schema {} = .ok .boolean ∧
      (namedEvenAge.rewrite .asCall).infer Pipeline.ofPeople.schema {} = .ok .boolean) ∧
    (({} : Arrow).fragment namedEvenAge = .ok (some "(mod(age, 2) == 0) as even") ∧
      ({} : Arrow).fragment (namedEvenAge.rewrite .asCall) =
        .ok (some "(mod(age, 2) == 0) as even")) ∧
    ∃ r r', Pipeline.ofPeople.schema.resolve unevenTeams = .ok r ∧
      r.schema.columns = [⟨"team", .integer⟩, ⟨"column2", .long⟩] ∧
      Pipeline.ofPeople.schema.resolve (unevenTeams.rewrite .asCall) = .ok r' ∧
      r'.schema = r.schema := by
  obtain ⟨hexpr, hrequest⟩ := operators_as_calls
  obtain ⟨_, htype, htext⟩ := hexpr namedEvenAge
  have hinfer : namedEvenAge.infer Pipeline.ofPeople.schema {} = .ok .boolean := rfl
  have hfragment :
      ({} : Arrow).fragment namedEvenAge = .ok (some "(mod(age, 2) == 0) as even") := by
    decide +kernel
  have hr : Pipeline.ofPeople.schema.resolve unevenTeams = .ok _ := rfl
  obtain ⟨r', hr', hschema⟩ := (hrequest _ unevenTeams _).mp ⟨_, hr, rfl⟩
  exact ⟨⟨hinfer, (htype _ _ _).mp hinfer⟩, ⟨hfragment, (htext {}).trans hfragment⟩,
    _, r', hr, rfl, hr', hschema⟩

end QueryPipeline
