import Mathlib.Data.List.Forall2
import QueryPipeline.Proofs.Acceptance
import QueryPipeline.Proofs.Walks

/-!
# Selections of groupings

What the checks of a grouping ask of its keys, its selections and its condition on groups.

* `Expr.Exposes`: a reference to a column outside of all aggregate calls, which is what
  `looseReferences` lists (`Expr.mem_looseReferences_iff`);
* `Expr.resultName` is the name of the column that a selection gives, and `Expr.Selectable` is what
  is asked of the selection;
* **`selectionColumns_eq_ok`**: selections pass iff each is selectable, with columns of the names
  and types that follow from them.
-/

namespace QueryPipeline

variable {s : Schema} {keys : List String}

/-! ## 1. Exposed columns -/

/-- A reference to the column stands in the expression outside of all aggregate calls. -/
inductive Expr.Exposes (n : String) : Expr → Prop
  | reference : Exposes n (.column n)
  | under {e c : Expr} (child : c ∈ e.children) (outside : e.isAggregateCall = false)
      (exposed : Exposes n c) : Exposes n e

theorem Expr.mem_looseReferences_iff {e : Expr} {n : String} :
    n ∈ e.looseReferences ↔ e.Exposes n := by
  induction e using induct_children with
  | step e ih =>
    rw [mem_looseReferences]
    constructor
    · rintro (rfl | ⟨outside, c, hc, hn⟩)
      · exact .reference
      · exact .under hc outside ((ih c hc).mp hn)
    · intro h
      cases h with
      | reference => exact Or.inl rfl
      | under hc outside exposed => exact Or.inr ⟨outside, _, hc, (ih _ hc).mpr exposed⟩

theorem checkKeyReference_eq_ok {n : String} {u : Unit} :
    checkKeyReference s keys n = .ok u ↔ n ∈ keys := by
  simp [checkKeyReference]

/-- **The references of a typed selection pass iff** the exposed columns are keys. -/
theorem checkSelectionReferences_eq_ok {mode : Mode} {e : Expr} {type : ColumnType} {u : Unit}
    (h : e.infer s mode = .ok type) :
    checkSelectionReferences s keys e = .ok u ↔ ∀ n, e.Exposes n → n ∈ keys := by
  simp only [checkSelectionReferences, Expr.walk_eq_ok h, checkKeyReference_eq_ok,
    ← Expr.mem_looseReferences_iff]
  rfl

/-! ## 2. Names of results -/

/-- The name of the column that a selection gives: its alias, its column, or its position. -/
def Expr.resultName (position : Nat) : Expr → String
  | named name _ => name
  | column name => name
  | _ => "column" ++ natText position

/-- The names of the columns that selections give, counted from the given position. -/
def resultNames : Nat → List Expr → List String
  | _, [] => []
  | position, e :: rest => e.resultName position :: resultNames (position + 1) rest

/-- The names of the columns of a grouping. -/
def Grouping.resultNames (g : Grouping) : List String := QueryPipeline.resultNames 1 g.selections

/-- A selection is named by its result, which must be an identifier where it was given. -/
theorem selectionName_eq_ok {position : Nat} {e : Expr} {name : String} :
    selectionName position e = .ok name ↔
      name = e.resultName position ∧
        ∀ given inner, e = .named given inner → isIdentifier given = true := by
  cases e with
  | named given inner =>
    rw [selectionName, requireIdentifier_text_eq_ok, Expr.resultName, @eq_comm _ given]
    constructor
    · rintro ⟨rfl, hid⟩
      exact ⟨rfl, fun _ _ h => by cases h; exact hid⟩
    · rintro ⟨rfl, hid⟩
      exact ⟨rfl, hid _ _ rfl⟩
  | _ => simp [selectionName, Expr.resultName, @eq_comm _ name]

/-! ## 3. Checked selections -/

/-- What is asked of a selection: outside of aggregates it uses keys only, it has a type where
    aggregates are accepted, and if it is given a name then that is an identifier. -/
structure Expr.Selectable (s : Schema) (keys : List String) (e : Expr) : Prop where
  exposed : ∀ n, e.Exposes n → n ∈ keys
  typed : ∃ type, e.infer s .grouped = .ok type
  named : ∀ name inner, e = .named name inner → isIdentifier name = true

/-- **Selections pass iff each is selectable**, and their columns have the names of the results and
    the types of the selections. -/
theorem selectionColumns_eq_ok {position : Nat} {es : List Expr} {columns : List Column} :
    selectionColumns s keys position es = .ok columns ↔
      (∀ e ∈ es, e.Selectable s keys) ∧ columnNames columns = resultNames position es ∧
        List.Forall₂ (fun e c => e.infer s .grouped = .ok c.type) es columns := by
  induction es generalizing position columns with
  | nil => cases columns <;> simp [selectionColumns, columnNames, resultNames]
  | cons e rest ih =>
    simp only [selectionColumns_cons_eq_ok, selectionName_eq_ok, ih]
    constructor
    · rintro ⟨type, name, more, hrefs, htype, ⟨rfl, hnamed⟩, ⟨hrest, hnames, htypes⟩, rfl⟩
      have hexposed := (checkSelectionReferences_eq_ok htype).mp hrefs
      have hfirst : e.Selectable s keys := ⟨hexposed, ⟨type, htype⟩, hnamed⟩
      refine ⟨List.forall_mem_cons.mpr ⟨hfirst, hrest⟩, ?_, .cons htype htypes⟩
      rw [resultNames, ← hnames]
      rfl
    · rintro ⟨hall, hnames, htypes⟩
      obtain ⟨hfirst, hrest⟩ := List.forall_mem_cons.mp hall
      cases htypes with
      | @cons _ c _ more htype htypes =>
        obtain ⟨hname, hnames⟩ := List.cons.inj hnames
        have hrefs := (checkSelectionReferences_eq_ok (u := ()) htype).mpr hfirst.exposed
        exact ⟨c.type, c.name, more, hrefs, htype, ⟨hname, hfirst.named⟩,
          ⟨hrest, hnames, htypes⟩, rfl⟩

/-- Selectable expressions have columns. -/
theorem exists_selectionColumns {es : List Expr} (h : ∀ e ∈ es, e.Selectable s keys)
    (position : Nat) : ∃ columns, selectionColumns s keys position es = .ok columns := by
  induction es generalizing position with
  | nil => exact ⟨[], rfl⟩
  | cons e rest ih =>
    obtain ⟨hfirst, hrest⟩ := List.forall_mem_cons.mp h
    obtain ⟨type, htype⟩ := hfirst.typed
    obtain ⟨more, hmore⟩ := ih hrest (position + 1)
    have hexposed : checkSelectionReferences s keys e = .ok () :=
      (checkSelectionReferences_eq_ok htype).mpr hfirst.exposed
    have hname : selectionName position e = .ok (e.resultName position) :=
      selectionName_eq_ok.mpr ⟨rfl, hfirst.named⟩
    exact ⟨_, selectionColumns_cons_eq_ok.mpr ⟨type, _, more, hexposed, htype, hname, hmore, rfl⟩⟩

/-! ## 4. Keys and conditions on groups -/

/-- **Keys pass iff** the schema has them. -/
theorem checkKeys_eq_ok {u : Unit} :
    checkKeys s keys = .ok u ↔ ∀ key ∈ keys, s.has key = true := by
  induction keys with
  | nil => simp [checkKeys]
  | cons key rest ih =>
    rw [checkKeys, Schema.get_bind, ite_else_refuse_eq_ok, ih, List.forall_mem_cons]

theorem checkResultReference_eq_ok {grouped : Schema} {n : String} {u : Unit} :
    checkResultReference s grouped keys n = .ok u ↔ grouped.has n = true := by
  by_cases h : grouped.has n = true <;> simp [checkResultReference, h]

/-- **The columns of a typed condition on groups pass iff** the result has all of them. -/
theorem checkHavingReferences_eq_ok {grouped : Schema} {mode : Mode} {having : Expr}
    {type : ColumnType} {u : Unit} (h : having.infer grouped mode = .ok type) :
    checkHavingReferences s grouped keys having = .ok u ↔
      ∀ n ∈ having.references, grouped.has n = true := by
  simp only [checkHavingReferences, Expr.walk_eq_ok h, checkResultReference_eq_ok]
  rfl

/-- **A condition on groups passes iff** the result has its columns and it is boolean there. -/
theorem checkHaving_eq_ok {grouped : Schema} {having : Option Expr} {u : Unit} :
    checkHaving s grouped keys having = .ok u ↔
      ∀ e ∈ having, (∀ n ∈ e.references, grouped.has n = true) ∧
        e.infer grouped .grouped = .ok .boolean := by
  cases having with
  | none => simp [checkHaving]
  | some e =>
    simp only [checkHaving, Outcome.check_bind_eq_ok, requirePredicate_eq_ok, Option.mem_some_iff,
      forall_eq']
    exact and_congr_left fun htype => checkHavingReferences_eq_ok htype

end QueryPipeline
