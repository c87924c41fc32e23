import QueryPipeline.Proofs.Nodes

/-!
# Walks over mentions

A walk checks the columns that an expression mentions, one after the other. It ends at the first one
that does not pass, or at a node that it cannot go through.

* `Expr.visit` is what a walk does at a node itself, before it goes on to the nodes below
  (`walk_eq`);
* `Expr.mentions` are the columns that it comes to, all of them or those outside of aggregate calls;
* **`walk_eq_ok`**: over an expression that has a type a walk passes iff every mention passes;
* `walk_refused`: over any expression it is refused for a mention only.
-/

namespace QueryPipeline
namespace Expr

variable {within : Bool} {check : String → Outcome Unit} {e : Expr}

/-! ## 1. One node -/

/-- What a walk does at a node itself: it checks a reference, and says whether it goes on to the
    nodes below. -/
def visit (within : Bool) (check : String → Outcome Unit) : Expr → Outcome Bool
  | column name => do
    check name
    return false
  | call function _ => entersCall within function
  | foreign _ _ => .error (.notIterable "childExpressions")
  | _ => .ok true

theorem walkAll_append (within : Bool) (check : String → Outcome Unit) (es more : List Expr) :
    walkAll within check (es ++ more) =
      walkAll within check es >>= fun _ => walkAll within check more := by
  induction es with
  | nil => rfl
  | cons e rest ih => simp only [List.cons_append, walkAll, ih, bind_assoc]

theorem walkAll_literals (items : List Literal) :
    walkAll within check (items.map literal) = .ok () := by
  induction items with
  | nil => rfl
  | cons item rest ih => exact ih

theorem walkAll_eq_ok {es : List Expr} {u : Unit} :
    walkAll within check es = .ok u ↔ ∀ e ∈ es, e.walk within check = .ok () := by
  induction es with
  | nil => simp [walkAll]
  | cons e rest ih => rw [walkAll, Outcome.check_bind_eq_ok, ih, List.forall_mem_cons]

/-- **A walk visits the node and then the nodes below**, if it goes on to them. -/
theorem walk_eq (e : Expr) :
    e.walk within check = e.visit within check >>= fun enters =>
      if enters then walkAll within check e.children else .ok () := by
  cases e with
  | column name =>
    rw [walk, visit]
    cases check name <;> rfl
  | call function args => rfl
  | valueList items => exact (walkAll_literals items).symm
  | grouping keys selections having =>
    cases having with
    | none =>
      simp only [walk, visit, children, Outcome.ok_bind, if_true, walkAll_append, Option.toList,
        walkAll, Outcome.bind_done]
    | some having =>
      simp only [walk, visit, children, Outcome.ok_bind, if_true, walkAll_append, Option.toList,
        walkAll, Outcome.bind_done, bind_assoc]
  | literal value => rfl
  | foreign kind source => rfl
  | _ => simp only [walk, visit, children, Outcome.ok_bind, if_true, walkAll, Outcome.bind_done]

/-! ## 2. The columns that a walk comes to -/

/-- The columns that a walk checks. -/
def mentions (within : Bool) (e : Expr) : List String :=
  if within then e.references else e.looseReferences

/-- Whether a walk comes to the nodes below a node. -/
def Passable (within : Bool) (e : Expr) : Prop := within = true ∨ e.isAggregateCall = false

/-- **A column is checked iff** the node is a reference to it, or it is checked below a node that is
    passed. -/
theorem mem_mentions {n : String} :
    n ∈ e.mentions within ↔
      e = column n ∨ e.Passable within ∧ ∃ c ∈ e.children, n ∈ c.mentions within := by
  cases within with
  | true => simpa [mentions, Passable] using mem_references
  | false => simpa [mentions, Passable] using mem_looseReferences

theorem mentions_child {c : Expr} (passable : e.Passable within) (hc : c ∈ e.children) :
    ∀ n ∈ c.mentions within, n ∈ e.mentions within :=
  fun _ hn => mem_mentions.mpr (Or.inr ⟨passable, c, hc, hn⟩)

/-- **A walk goes on to the nodes below iff** the node is passable. -/
theorem enters_iff {enters : Bool} {c : Expr} (h : e.visit within check = .ok enters)
    (hc : c ∈ e.children) : enters = true ↔ e.Passable within := by
  cases e with
  | column name => exact absurd hc List.not_mem_nil
  | call function args =>
    cases within with
    | true => exact iff_of_true (Except.ok.inj h).symm (Or.inl rfl)
    | false =>
      obtain ⟨_, _, henters⟩ := Outcome.bind_eq_ok.mp h
      obtain rfl : (!function.isAggregate) = enters := Except.ok.inj henters
      simp [Passable, isAggregateCall]
  | foreign kind source => cases h
  | _ => exact iff_of_true (Except.ok.inj h).symm (Or.inr rfl)

/-! ## 3. Walks that pass -/

/-- What a walk comes to has passed where the walk has passed. -/
theorem mentions_of_walk {u : Unit} (h : e.walk within check = .ok u) :
    ∀ n ∈ e.mentions within, check n = .ok () := by
  induction e using induct_children generalizing u with
  | step e ih =>
    intro n hn
    rw [walk_eq] at h
    obtain ⟨enters, hvisit, hbelow⟩ := Outcome.bind_eq_ok.mp h
    rcases mem_mentions.mp hn with rfl | ⟨passable, c, hc, hn⟩
    · obtain ⟨_, hcheck, _⟩ := Outcome.bind_eq_ok.mp hvisit
      exact hcheck
    · rw [if_pos ((enters_iff hvisit hc).mpr passable)] at hbelow
      exact ih c hc (walkAll_eq_ok.mp hbelow c hc) n hn

/-- A typed node is no obstacle to a walk. -/
theorem visit_of_infer {s : Schema} {mode : Mode} {type : ColumnType}
    (h : e.infer s mode = .ok type) (own : ∀ n, e = column n → check n = .ok ()) :
    ∃ enters, e.visit within check = .ok enters := by
  cases e with
  | column name => exact ⟨false, by rw [visit, own name rfl]; rfl⟩
  | call function args =>
    cases within with
    | true => exact ⟨true, rfl⟩
    | false =>
      obtain ⟨_, hcall, _⟩ := Outcome.bind_eq_ok.mp h
      have hknown := FunctionName.known_of_arity (FunctionName.checkCall_eq_ok.mp hcall).1
      refine ⟨!function.isAggregate, ?_⟩
      rw [visit, entersCall, FunctionName.requireSignature_of_known hknown]
      rfl
  | foreign kind source => cases h
  | _ => exact ⟨true, rfl⟩

/-- **A walk over a typed expression passes iff every mention passes.** -/
theorem walk_eq_ok {s : Schema} {mode : Mode} {type : ColumnType} {u : Unit}
    (h : e.infer s mode = .ok type) :
    e.walk within check = .ok u ↔ ∀ n ∈ e.mentions within, check n = .ok () := by
  refine ⟨mentions_of_walk, fun hall => ?_⟩
  induction e using induct_children generalizing mode type with
  | step e ih =>
    obtain ⟨enters, hvisit⟩ : ∃ enters, e.visit within check = .ok enters :=
      visit_of_infer h fun n he => hall n (mem_mentions.mpr (Or.inl he))
    rw [walk_eq, hvisit, Outcome.ok_bind]
    by_cases henters : enters = true
    · rw [if_pos henters, walkAll_eq_ok]
      intro c hc
      rcases infer_child h hc with ⟨below, hbelow⟩ | ⟨items, rfl⟩
      · exact ih c hc hbelow fun n hn =>
          hall n (mentions_child ((enters_iff hvisit hc).mp henters) hc n hn)
      · rfl
    · rw [if_neg henters]

/-! ## 4. Walks that are refused -/

/-- A list is refused for what a member is refused for. -/
theorem walkAll_refused {P : Cause → Prop} {es : List Expr}
    (h : ∀ e ∈ es, RefusedFor P (e.walk within check)) :
    RefusedFor P (walkAll within check es) := by
  induction es with
  | nil => exact .ok ()
  | cons e rest ih =>
    obtain ⟨hfirst, hrest⟩ := List.forall_mem_cons.mp h
    exact hfirst.bind fun _ _ => ih hrest

/-- What a walk meets at a node itself is a defect, if it is not a reference. -/
theorem visit_refused {P : Cause → Prop} (own : ∀ n, e = column n → RefusedFor P (check n)) :
    RefusedFor P (e.visit within check) := by
  cases e with
  | column name => exact (own name rfl).bind fun _ _ => .ok _
  | call function args =>
    exact .ite (fun _ => .ok _) fun _ =>
      FunctionName.requireSignature_refused.bind fun _ _ => .ok _
  | foreign kind source => exact .defect _
  | _ => exact .ok _

/-- **A walk is refused for a mention**, whatever it goes through. -/
theorem walk_refused {P : Cause → Prop}
    (h : ∀ n ∈ e.mentions within, RefusedFor P (check n)) : RefusedFor P (e.walk within check) := by
  induction e using induct_children with
  | step e ih =>
    rw [walk_eq]
    have hvisit : RefusedFor P (e.visit within check) :=
      visit_refused fun n he => h n (mem_mentions.mpr (Or.inl he))
    refine hvisit.bind fun enters hv => .ite (fun henters => ?_) fun _ => .ok ()
    refine walkAll_refused fun c hc => ih c hc fun n hn => h n ?_
    exact mentions_child ((enters_iff hv hc).mp henters) hc n hn

end Expr
end QueryPipeline
