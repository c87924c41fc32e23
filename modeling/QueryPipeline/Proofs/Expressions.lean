import QueryPipeline.Expr.Typing
import QueryPipeline.Proofs.Outcome

/-!
# Induction on expressions

Expressions hold lists of expressions, so a property of all of them is proved with a hypothesis for
every member of such a list (`Expr.induct`). The functions that run over a list of expressions are
the list functions of the ones for a single expression (`referencesAll_eq`, `inferAll_congr`, ...).

`Expr.Checked` keeps of a type only what is certain of the nodes (**`checked_of_infer`**), so that
what holds of all typed expressions is proved by induction on it.
-/

namespace QueryPipeline
namespace Expr

/-- **Induction on expressions**: a node has a property once the nodes below it do. -/
@[elab_as_elim, induction_eliminator]
theorem induct {motive : Expr → Prop}
    (literal : ∀ value, motive (.literal value))
    (column : ∀ name, motive (.column name))
    (unary : ∀ op operand, motive operand → motive (.unary op operand))
    (binary : ∀ op left right, motive left → motive right → motive (.binary op left right))
    (valueList : ∀ items, motive (.valueList items))
    (call : ∀ function args, (∀ e ∈ args, motive e) → motive (.call function args))
    (named : ∀ name inner, motive inner → motive (.named name inner))
    (conditional : ∀ test yes no, motive test → motive yes → motive no →
      motive (.conditional test yes no))
    (ordering : ∀ direction term, motive term → motive (.ordering direction term))
    (grouping : ∀ keys selections having, (∀ e ∈ keys, motive e) → (∀ e ∈ selections, motive e) →
      (∀ e ∈ having, motive e) → motive (.grouping keys selections having))
    (joining : ∀ condition, motive condition → motive (.joining condition))
    (foreign : ∀ kind source, motive (.foreign kind source)) (e : Expr) : motive e :=
  Expr.rec (motive_1 := motive) (motive_2 := fun es => ∀ e ∈ es, motive e)
    (motive_3 := fun o => ∀ e ∈ o, motive e)
    literal column unary binary valueList call named conditional ordering grouping joining foreign
    (fun _ h => absurd h List.not_mem_nil)
    (fun _ _ head tail _ h => by
      rcases List.mem_cons.mp h with rfl | h
      · exact head
      · exact tail _ h)
    (fun _ h => absurd h (by simp))
    (fun _ some _ h => by
      rw [Option.mem_some_iff] at h
      exact h ▸ some)
    e

/-! ## 1. Lists of expressions -/

theorem referencesAll_eq (es : List Expr) : referencesAll es = es.flatMap references := by
  induction es with
  | nil => rfl
  | cons e rest ih => rw [referencesAll, ih, List.flatMap_cons]

theorem looseReferencesAll_eq (es : List Expr) :
    looseReferencesAll es = es.flatMap looseReferences := by
  induction es with
  | nil => rfl
  | cons e rest ih => rw [looseReferencesAll, ih, List.flatMap_cons]

variable {s : Schema} {mode : Mode}

/-- **A member of a list that has types has a type.** -/
theorem inferAll_mem {es : List Expr} {types : List ColumnType}
    (h : inferAll s mode es = .ok types) {e : Expr} (he : e ∈ es) :
    ∃ type, e.infer s mode = .ok type := by
  induction es generalizing types with
  | nil => exact absurd he List.not_mem_nil
  | cons first rest ih =>
    obtain ⟨type, htype, h⟩ := Outcome.bind_eq_ok.mp h
    obtain ⟨more, hmore, _⟩ := Outcome.bind_eq_ok.mp h
    rcases List.mem_cons.mp he with rfl | he
    · exact ⟨type, htype⟩
    · exact ih hmore he

/-- Members that have the same types on another schema or in another mode give the same list. -/
theorem inferAll_congr {t : Schema} {other : Mode} {es : List Expr}
    (h : ∀ e ∈ es, e.infer t other = e.infer s mode) :
    inferAll t other es = inferAll s mode es := by
  induction es with
  | nil => rfl
  | cons e rest ih =>
    rw [inferAll, inferAll, h e List.mem_cons_self,
      ih fun e he => h e (List.mem_cons_of_mem _ he)]

end Expr

/-! ## 2. What typing checks -/

/-- The right operand of a membership test is a list. -/
theorem BinaryOp.membershipIn_list {op : BinaryOp} {left type : ColumnType} {e : Expr}
    (h : op.membershipIn left e = .ok type) : ∃ items, e = .valueList items := by
  cases e with
  | valueList items => exact ⟨items, rfl⟩
  | _ => simp [membershipIn, mistyped] at h

theorem BinaryOp.known_of_isMembership {op : BinaryOp} (h : op.isMembership = true) : op.Known := by
  cases op with
  | other text => exact absurd h Bool.false_ne_true
  | _ => exact BinaryOp.vocabulary.known_iff.mpr nofun

/-- Every operator that has a type has rules. -/
theorem BinaryOp.known_of_resultType {op : BinaryOp} {e : Expr} {left right type : ColumnType}
    (h : op.resultType e left right = .ok type) : op.Known := by
  cases op with
  | other text => simp [resultType, mistyped] at h
  | _ => exact BinaryOp.vocabulary.known_iff.mpr nofun

namespace FunctionName

variable {f : FunctionName}

theorem known_of_arity {count : Nat} (h : f.arity? = some count) : f.Known := by
  cases f with
  | other text => cases h
  | _ => exact vocabulary.known_iff.mpr nofun

/-- A function that has rules has a signature. -/
theorem requireSignature_of_known (h : f.Known) (property : String) :
    f.requireSignature property = .ok () := by
  cases f with
  | other text => exact absurd rfl (vocabulary.known_iff.mp h text)
  | _ => rfl

/-- A name without a signature is a defect, and no reason to refuse anything. -/
theorem requireSignature_refused {P : Cause → Prop} {property : String} :
    RefusedFor P (f.requireSignature property) := by
  cases f with
  | other text => exact .ite (fun _ => .ok ()) fun _ => .defect _
  | _ => exact .ok ()

/-- **A call passes its check iff** it has as many arguments as its function takes, and if that is
    an aggregate then aggregates may stand there. -/
theorem checkCall_eq_ok {mode : Mode} {count : Nat} {u : Unit} :
    f.checkCall mode count = .ok u ↔ f.arity? = some count ∧
      (f.isAggregate = true → mode.insideAggregate = false ∧ mode.allowAggregates = true) := by
  by_cases hknown : f.Known
  · rw [checkCall, requireSignature_of_known hknown, Outcome.ok_bind]
    cases f.isAggregate with
    | false => simp [mistyped]
    | true => simp [mistyped]
  · refine iff_of_false (fun h => ?_) fun h => hknown (known_of_arity h.1)
    obtain ⟨_, _, h⟩ := Outcome.bind_eq_ok.mp h
    have harity : f.arity? ≠ some count := fun harity => hknown (known_of_arity harity)
    simp [mistyped, harity] at h

end FunctionName

namespace Expr

/-- What is certain of the nodes of an expression once it has a type. The list of a membership
    test is the one node without a type of its own. -/
inductive Checked (s : Schema) : Expr → Prop
  | literal {value : Literal} : Checked s (.literal value)
  | column {name : String} (h : ∃ c, s.get name = .ok c) : Checked s (.column name)
  | unary {op : UnaryOp} {operand : Expr} (hoperand : Checked s operand) :
      Checked s (.unary op operand)
  | membership {op : BinaryOp} {left : Expr} {items : List Literal} (h : op.Known)
      (hleft : Checked s left) : Checked s (.binary op left (.valueList items))
  | binary {op : BinaryOp} {left right : Expr} (h : op.Known) (hleft : Checked s left)
      (hright : Checked s right) : Checked s (.binary op left right)
  | call {function : FunctionName} {args : List Expr} (h : function.Known)
      (hcount : function.arity? = some args.length) (hargs : ∀ e ∈ args, Checked s e) :
      Checked s (.call function args)
  | named {name : String} {inner : Expr} (hinner : Checked s inner) : Checked s (.named name inner)
  | conditional {test yes no : Expr} (htest : Checked s test) (hyes : Checked s yes)
      (hno : Checked s no) : Checked s (.conditional test yes no)

/-- **An expression that has a type is checked**, whichever the mode was. -/
theorem checked_of_infer {s : Schema} {mode : Mode} {e : Expr} {type : ColumnType}
    (h : e.infer s mode = .ok type) : e.Checked s := by
  induction e generalizing mode type with
  | literal value => exact .literal
  | column name =>
    obtain ⟨c, hc, _⟩ := Outcome.bind_eq_ok.mp h
    exact .column ⟨c, hc⟩
  | unary op operand ih =>
    obtain ⟨inner, hinner, _⟩ := Outcome.bind_eq_ok.mp h
    exact .unary (ih hinner)
  | binary op left right ihl ihr =>
    rw [infer] at h
    by_cases hop : op.isMembership = true
    · rw [if_pos hop] at h
      obtain ⟨leftType, hleft, h⟩ := Outcome.bind_eq_ok.mp h
      obtain ⟨items, rfl⟩ := BinaryOp.membershipIn_list h
      exact .membership (BinaryOp.known_of_isMembership hop) (ihl hleft)
    · rw [if_neg hop] at h
      obtain ⟨leftType, hleft, h⟩ := Outcome.bind_eq_ok.mp h
      obtain ⟨rightType, hright, h⟩ := Outcome.bind_eq_ok.mp h
      exact .binary (BinaryOp.known_of_resultType h) (ihl hleft) (ihr hright)
  | call function args ih =>
    obtain ⟨_, hcall, h⟩ := Outcome.bind_eq_ok.mp h
    obtain ⟨types, htypes, _⟩ := Outcome.bind_eq_ok.mp h
    obtain ⟨hcount, _⟩ := FunctionName.checkCall_eq_ok.mp hcall
    refine .call (FunctionName.known_of_arity hcount) hcount fun e he => ?_
    obtain ⟨_, htype⟩ := inferAll_mem htypes he
    exact ih e he htype
  | named name inner ih => exact .named (ih h)
  | conditional test yes no iht ihy ihn =>
    obtain ⟨testType, htest, h⟩ := Outcome.bind_eq_ok.mp h
    obtain ⟨_, _, h⟩ := Outcome.bind_eq_ok.mp h
    obtain ⟨yesType, hyes, h⟩ := Outcome.bind_eq_ok.mp h
    obtain ⟨noType, hno, _⟩ := Outcome.bind_eq_ok.mp h
    exact .conditional (iht htest) (ihy hyes) (ihn hno)
  | valueList items => simp [infer, mistyped] at h
  | ordering direction term ih => simp [infer, mistyped] at h
  | grouping keys selections having => simp [infer, mistyped] at h
  | joining condition ih => simp [infer, mistyped] at h
  | foreign kind source => simp [infer] at h

end Expr
end QueryPipeline
