import QueryPipeline.Dialect.Arrow
import QueryPipeline.Proofs.Runs
import QueryPipeline.Proofs.WiderTypes

/-!
# Predicates joined by a connective

Predicates that are joined by `and` or by `or` are accepted as a filter iff each of them is. Both
operators ask both of their operands for a boolean, and a filter leaves the schema as it is, so that
the next one is typed on the same columns.

* `infer_joined`: the joined predicates are boolean iff each of them is, by induction on the joining
  from the left, which goes down the left operands;
* `Accepts.filters_iff`: a run of filters is accepted iff each of its predicates is boolean on the
  schema that it started with (`Accepts.filters_schema`);
* `inlineText_joined`: the text of the joined predicates is `leftNested` of their texts;
* **`filters_joined`** puts them together.
-/

namespace QueryPipeline

/-! ## 1. Types -/

variable {s : Schema} {mode : Mode} {op : Connective}

/-- A connective gives a boolean iff its operands are. -/
theorem infer_logical {left right : Expr} :
    (Expr.binary (.logical op) left right).infer s mode = .ok .boolean ↔
      left.infer s mode = .ok .boolean ∧ right.infer s mode = .ok .boolean := by
  simp only [Expr.infer, BinaryOp.isMembership, Bool.false_eq_true, if_false, Outcome.bind_eq_ok,
    BinaryOp.resultType_eq_ok, BinaryOp.Gives]
  constructor
  · rintro ⟨_, hleft, _, hright, rfl, rfl, _⟩
    exact ⟨hleft, hright⟩
  · rintro ⟨hleft, hright⟩
    exact ⟨_, hleft, _, hright, rfl, rfl, trivial⟩

/-- **Joined predicates are boolean iff each of them is.** -/
theorem infer_joined (first : Expr) (rest : List Expr) :
    (rest.foldl (fun joined next => .binary (.logical op) joined next) first).infer s mode =
        .ok .boolean ↔
      ∀ e ∈ first :: rest, e.infer s mode = .ok .boolean := by
  induction rest generalizing first with
  | nil => simp
  | cons next rest ih =>
    rw [List.foldl_cons, ih]
    simp only [List.forall_mem_cons, infer_logical, and_assoc]

/-! ## 2. Runs of filters -/

/-- A filter is accepted iff its predicate is boolean, and adds a clause without a new schema. -/
theorem Pipeline.apply_filter_eq_ok {p q : Pipeline} {e : Expr} :
    (p.apply (.filter e)).result = .ok q ↔
      e.infer p.schema {} = .ok .boolean ∧ q = p.extended ⟨.filter e, p.schema⟩ := by
  rw [apply_eq_ok]
  constructor
  · rintro ⟨r, hr, rfl⟩
    obtain ⟨htype, rfl⟩ := resolveFilter_eq_ok.mp hr
    exact ⟨htype, rfl⟩
  · rintro ⟨htype, rfl⟩
    exact ⟨_, resolveFilter_eq_ok.mpr ⟨htype, rfl⟩, rfl⟩

theorem Pipeline.exists_apply_filter {p : Pipeline} {e : Expr} :
    (∃ q, (p.apply (.filter e)).result = .ok q) ↔ e.infer p.schema {} = .ok .boolean := by
  simp only [apply_filter_eq_ok, exists_and_left, exists_eq, and_true]

namespace Accepts

variable {p q : Pipeline} {es : List Expr}

/-- **A run of filters leaves the schema as it is.** -/
theorem filters_schema (h : Accepts p (es.map .filter) q) : q.schema = p.schema := by
  induction es using List.reverseRecOn generalizing q with
  | nil => rw [nil_iff.mp h]
  | append_singleton es e ih =>
    rw [List.map_append] at h
    obtain ⟨middle, hbefore, hlast⟩ := concat_iff.mp h
    obtain ⟨_, rfl⟩ := Pipeline.apply_filter_eq_ok.mp hlast
    rw [Pipeline.schema_extended]
    exact ih hbefore

/-- **A run of filters is accepted iff each predicate is boolean** on the schema before the run. -/
theorem filters_iff :
    (∃ q, Accepts p (es.map .filter) q) ↔ ∀ e ∈ es, e.infer p.schema {} = .ok .boolean := by
  induction es using List.reverseRecOn with
  | nil => exact iff_of_true ⟨p, .start⟩ (by simp)
  | append_singleton es e ih =>
    rw [List.map_append, List.forall_mem_append, ← ih, List.forall_mem_singleton]
    constructor
    · rintro ⟨q, h⟩
      obtain ⟨middle, hbefore, hlast⟩ := concat_iff.mp h
      obtain ⟨htype, _⟩ := Pipeline.apply_filter_eq_ok.mp hlast
      exact ⟨⟨middle, hbefore⟩, hbefore.filters_schema ▸ htype⟩
    · rintro ⟨⟨middle, hbefore⟩, htype⟩
      rw [← hbefore.filters_schema] at htype
      exact ⟨_, hbefore.step (Pipeline.apply_filter_eq_ok.mpr ⟨htype, rfl⟩)⟩

end Accepts

/-! ## 3. Texts -/

/-- Two texts around a token, in parentheses. -/
def paired (token left right : String) : String :=
  "(" ++ left ++ " " ++ token ++ " " ++ right ++ ")"

/-- Texts with a token between them, in parentheses that open on the left. -/
def leftNested (token : String) : List String → String
  | [] => ""
  | first :: rest => rest.foldl (paired token) first

theorem Connective.token_eq (op : Connective) :
    op.token = if op = .and then "&&" else "||" := by
  cases op with
  | and => rfl
  | or => rfl

namespace Arrow

variable (d : Arrow)

theorem inlineText_logical (left right : Expr) :
    d.inlineText (.binary (.logical op) left right) = do
      let leftText ← d.inlineText left
      let rightText ← d.inlineText right
      return paired op.token leftText rightText := by
  cases hleft : d.fragment left with
  | error failure => simp [inlineText, fragment, hleft]
  | ok leftText =>
    cases hright : d.fragment right with
    | error failure => simp [inlineText, fragment, hleft, hright]
    | ok rightText =>
      simp [inlineText, fragment, hleft, hright, BinaryOp.written?, BinaryOp.token?, paired,
        Fragment.inline]

/-- **The text of joined predicates is nested on the left.** -/
theorem inlineText_joined (first : Expr) (rest : List Expr) :
    d.inlineText (rest.foldl (fun joined next => .binary (.logical op) joined next) first) =
      leftNested op.token <$> (first :: rest).mapM d.inlineText := by
  induction rest generalizing first with
  | nil => cases htext : d.inlineText first <;> simp [htext, leftNested]
  | cons next rest ih =>
    rw [List.foldl_cons, ih]
    simp [List.mapM_cons, inlineText_logical, leftNested]

end Arrow

/-! ## 4. Filters by joined predicates -/

/-- **A filter by joined predicates is a run of filters by each of them**, whether they are joined
    by `and` or by `or`: it is accepted iff that run is, and the run iff each filter is on its own.
    All of them leave the schema as it is. The text of the joined predicates is that of the
    predicates with `&&` or `||` between them, nested on the left, and a single predicate is left as
    it is. -/
theorem filters_joined (p : Pipeline) (op : Connective) {es : List Expr} (h : es ≠ []) :
    ∃ joined, Expr.fold op es = .ok joined ∧
      ((∃ q, (p.apply (.filter joined)).result = .ok q) ↔ ∃ q, Accepts p (es.map .filter) q) ∧
      ((∃ q, Accepts p (es.map .filter) q) ↔
        ∀ e ∈ es, ∃ q, (p.apply (.filter e)).result = .ok q) ∧
      (∀ q, (p.apply (.filter joined)).result = .ok q → q.schema = p.schema) ∧
      (∀ q, Accepts p (es.map .filter) q → q.schema = p.schema) ∧
      (∀ e ∈ es, ∀ q, (p.apply (.filter e)).result = .ok q → q.schema = p.schema) ∧
      (∀ e, es = [e] → joined = e) ∧
      ∀ d : Arrow, d.inlineText joined =
        leftNested (if op = .and then "&&" else "||") <$> es.mapM d.inlineText := by
  have keeps {e : Expr} {q : Pipeline} (hq : (p.apply (.filter e)).result = .ok q) :
      q.schema = p.schema := by
    obtain ⟨_, rfl⟩ := Pipeline.apply_filter_eq_ok.mp hq
    exact p.schema_extended _
  cases es with
  | nil => exact absurd rfl h
  | cons first rest =>
    refine ⟨_, rfl, ?_, ?_, fun q => keeps, fun q => Accepts.filters_schema, fun e _ q => keeps,
      ?_, fun d => op.token_eq ▸ d.inlineText_joined first rest⟩
    · rw [Pipeline.exists_apply_filter, Accepts.filters_iff, infer_joined]
    · simp only [Accepts.filters_iff, Pipeline.exists_apply_filter]
    · rintro e ⟨⟩
      rfl

/-- Three predicates on the people. -/
def Expr.onPeople : List Expr :=
  [binary (.comparison .greater) (column "age") (column "team"),
    binary (.comparison .like) (column "name") (literal (.string "A%")),
    unary .isNotNull (column "id")]

/-- Three predicates on the people are nested on the left, and a filter by a column that is no
    boolean is refused, also as an alternative to one that is. -/
theorem filters_joined_nested :
    Expr.onPeople ≠ [] ∧
    (∃ joined q, Expr.fold .and Expr.onPeople = .ok joined ∧
      (Pipeline.ofPeople.apply (.filter joined)).result = .ok q ∧
      Arrow.inlineText {} joined =
        .ok "(((age > team) && (name like 'A%')) && (id is not null))") ∧
    [Expr.unary .isNull (.column "team"), .column "age"] ≠ [] ∧
    ∃ joined, Expr.fold .or [.unary .isNull (.column "team"), .column "age"] = .ok joined ∧
      ¬ ∃ q, (Pipeline.ofPeople.apply (.filter joined)).result = .ok q := by
  have hpeople : Expr.onPeople ≠ [] := List.cons_ne_nil _ _
  have halternatives : [Expr.unary .isNull (.column "team"), .column "age"] ≠ [] :=
    List.cons_ne_nil _ _
  refine ⟨hpeople, ?_, halternatives, ?_⟩
  · obtain ⟨joined, hjoined, hrun, heach, _, _, _, _, htext⟩ :=
      filters_joined .ofPeople .and hpeople
    have hsingle : ∀ e ∈ Expr.onPeople,
        ∃ q, (Pipeline.ofPeople.apply (.filter e)).result = .ok q := by
      simp only [Expr.onPeople, List.forall_mem_cons, List.not_mem_nil, IsEmpty.forall_iff,
        implies_true, and_true]
      exact ⟨⟨_, rfl⟩, ⟨_, rfl⟩, ⟨_, rfl⟩⟩
    obtain ⟨q, hq⟩ := (hrun.trans heach).mpr hsingle
    exact ⟨joined, q, hjoined, hq, (htext {}).trans (by decide)⟩
  · obtain ⟨joined, hjoined, hrun, heach, _⟩ := filters_joined .ofPeople .or halternatives
    refine ⟨joined, hjoined, fun hq => ?_⟩
    obtain ⟨q, hq⟩ := heach.mp (hrun.mp hq) (.column "age") (by simp)
    exact absurd (Pipeline.apply_filter_eq_ok.mp hq).1 (by decide)

end QueryPipeline
