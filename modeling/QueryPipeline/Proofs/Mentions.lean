import QueryPipeline.Proofs.Snapshots
import QueryPipeline.Proofs.Aggregates

/-!
# What typing reads of a schema

Typing looks columns up one by one and knows nothing else of a schema, neither its other columns
nor their order.

* two schemas agree on a name if both lack it or both give it one type (`Schema.AgreesOn`), which is
  to say that looking it up has one outcome (`Schema.agreesOn_iff_get`);
* `Expr.infer_of_children` puts the outcomes of the nodes directly below a node together, and
  `Expr.Checked.mentions_known` finds the mentioned columns of a typed expression;
* **`typing_reads_mentions`**: schemas that agree on the columns that an expression mentions give it
  the same type or refuse it for the same cause, in every mode, and where it has a type the schema
  has these columns.
-/

namespace QueryPipeline

variable {s t : Schema}

/-! ## 1. Schemas that agree on a name -/

namespace Schema

/-- Both schemas lack the name, or both give it the same type. -/
def AgreesOn (s t : Schema) (n : String) : Prop :=
  n ∉ s.names ∧ n ∉ t.names ∨ ∃ type, ⟨n, type⟩ ∈ s.columns ∧ ⟨n, type⟩ ∈ t.columns

/-- A name that a schema has is looked up with a column of that name. -/
theorem exists_get_of_mem {n : String} (h : n ∈ s.names) :
    ∃ type, s.get n = .ok ⟨n, type⟩ ∧ ⟨n, type⟩ ∈ s.columns := by
  obtain ⟨⟨m, type⟩, hc, rfl⟩ := List.mem_map.mp h
  exact ⟨type, get_eq_ok_iff.mpr ⟨hc, rfl⟩, hc⟩

/-- **Schemas agree on a name iff looking it up has one outcome.** -/
theorem agreesOn_iff_get {n : String} : s.AgreesOn t n ↔ s.get n = t.get n := by
  constructor
  · rintro (⟨hs, ht⟩ | ⟨type, hs, ht⟩)
    · rw [get_eq_unknown.mpr hs, get_eq_unknown.mpr ht]
    · rw [get_eq_ok_iff.mpr ⟨hs, rfl⟩, get_eq_ok_iff.mpr ⟨ht, rfl⟩]
  · intro h
    by_cases hs : n ∈ s.names
    · obtain ⟨type, hget, hmem⟩ := exists_get_of_mem hs
      have ht : t.get n = .ok ⟨n, type⟩ := by rw [← h, hget]
      exact Or.inr ⟨type, hmem, (get_eq_ok_iff.mp ht).1⟩
    · have ht : t.get n = refuse (.unknownColumn n) := by rw [← h, get_eq_unknown.mpr hs]
      exact Or.inl ⟨hs, get_eq_unknown.mp ht⟩

end Schema

/-! ## 2. Outcomes of typing -/

namespace Expr

/-- **A node is typed alike on two schemas** if the nodes directly below it are, and if it is a
    reference then looking its column up has one outcome. -/
theorem infer_of_children {e : Expr} {mode : Mode}
    (reference : ∀ n, e = column n → s.get n = t.get n)
    (below : ∀ c ∈ e.children, ∀ mode, c.infer s mode = c.infer t mode) :
    e.infer s mode = e.infer t mode := by
  cases e with
  | column name => rw [infer, infer, reference name rfl]
  | unary op operand =>
    have hoperand := below operand (by simp [children]) mode
    rw [infer, infer, hoperand]
  | binary op left right =>
    have hleft := below left (by simp [children]) mode
    have hright := below right (by simp [children]) mode
    rw [infer, infer, hleft, hright]
  | call function args =>
    have hargs : inferAll s (function.argumentMode mode) args =
        inferAll t (function.argumentMode mode) args :=
      inferAll_congr fun c hc => below c hc _
    rw [infer, infer, hargs]
  | named name inner =>
    have hinner := below inner (by simp [children]) mode
    rw [infer, infer, hinner]
  | conditional test yes no =>
    have htest := below test (by simp [children]) mode
    have hyes := below yes (by simp [children]) mode
    have hno := below no (by simp [children]) mode
    rw [infer, infer, htest, hyes, hno]
  | _ => rfl

/-- **The outcome of typing depends on the mentioned columns only.** -/
theorem infer_of_mentions {e : Expr} {mode : Mode}
    (h : ∀ n ∈ e.references, s.get n = t.get n) : e.infer s mode = e.infer t mode := by
  induction e using induct_children generalizing mode with
  | step e ih =>
    refine infer_of_children (fun n he => h n ?_) fun c hc mode => ih c hc fun n hn => h n ?_
    · exact mem_references.mpr (Or.inl he)
    · exact references_child hc n hn

/-- **Every column that a checked expression mentions is in the schema.** The list of a membership
    test mentions none. -/
theorem Checked.mentions_known {e : Expr} (h : e.Checked s) : ∀ n ∈ e.references, n ∈ s.names := by
  intro n hn
  induction h with
  | literal => exact absurd hn List.not_mem_nil
  | column hc =>
    obtain rfl := List.mem_singleton.mp hn
    exact Schema.has_iff.mp (Schema.has_iff_get.mpr hc)
  | unary _ ih => exact ih hn
  | membership _ _ ih =>
    rcases List.mem_append.mp hn with hn | hn
    · exact ih hn
    · exact absurd hn List.not_mem_nil
  | binary _ _ _ ihl ihr => exact (List.mem_append.mp hn).elim ihl ihr
  | call _ _ _ ih =>
    rw [references, referencesAll_eq] at hn
    obtain ⟨e, he, hn⟩ := List.mem_flatMap.mp hn
    exact ih e he hn
  | named _ ih => exact ih hn
  | conditional _ _ _ iht ihy ihn =>
    rcases List.mem_append.mp hn with hn | hn
    · exact iht hn
    · exact (List.mem_append.mp hn).elim ihy ihn

end Expr

/-! ## 3. The mentioned columns decide -/

/-- **Typing reads the mentioned columns and nothing else of a schema.** On schemas that agree on
    them an expression has the same type or is refused for the same cause, whatever its nodes are
    and in every mode; and the schema has them all where it has a type. -/
theorem typing_reads_mentions (e : Expr) (mode : Mode) :
    (∀ s t : Schema, (∀ n ∈ e.references, s.AgreesOn t n) → e.infer s mode = e.infer t mode) ∧
      ∀ (s : Schema) (type : ColumnType), e.infer s mode = .ok type →
        ∀ n ∈ e.references, n ∈ s.names := by
  refine ⟨fun s t h => Expr.infer_of_mentions fun n hn => ?_, fun s type h => ?_⟩
  · exact Schema.agreesOn_iff_get.mp (h n hn)
  · exact (Expr.checked_of_infer h).mentions_known

/-- The ages of the people beside the cities they live in, instead of their names and teams. -/
def Schema.ofCities : Schema := ⟨[⟨"city", .string⟩, ⟨"age", .integer⟩], by decide⟩

/-- Whether the greatest age is among some numbers, if the height is positive. -/
def tallEldest : Expr :=
  .conditional (.binary (.comparison .greater) (.column "height") (.literal (.long 0)))
    (.binary (.comparison .isIn) (.call .max [.column "age"])
      (.valueList [.long 30, .double ⟨0⟩])) (.literal (.boolean false))

/-- Another place of the ages and other columns beside them change neither the type of their
    maximum nor the refusal of a height, which both schemas lack. -/
theorem typing_reads_mentions_ages :
    (∀ n ∈ oldestAge.references, Pipeline.ofPeople.schema.AgreesOn .ofCities n) ∧
      oldestAge.infer .ofCities .grouped = .ok .long ∧ "age" ∈ Schema.ofCities.names ∧
    (∀ n ∈ tallEldest.references, Pipeline.ofPeople.schema.AgreesOn .ofCities n) ∧
      tallEldest.infer .ofCities .grouped = refuse (.unknownColumn "height") := by
  have hage : Pipeline.ofPeople.schema.AgreesOn .ofCities "age" :=
    Or.inr ⟨.integer, by decide, by decide⟩
  have hheight : Pipeline.ofPeople.schema.AgreesOn .ofCities "height" :=
    Or.inl ⟨by decide, by decide⟩
  have holdest : ∀ n ∈ oldestAge.references, Pipeline.ofPeople.schema.AgreesOn .ofCities n := by
    rw [show oldestAge.references = ["age", "age"] from rfl]
    simpa using hage
  have htall : ∀ n ∈ tallEldest.references, Pipeline.ofPeople.schema.AgreesOn .ofCities n := by
    rw [show tallEldest.references = ["height", "age"] from rfl]
    simpa using ⟨hheight, hage⟩
  have hpeople : oldestAge.infer Pipeline.ofPeople.schema .grouped = .ok .long := rfl
  have htype : oldestAge.infer .ofCities .grouped = .ok .long := by
    rw [← (typing_reads_mentions oldestAge .grouped).1 _ _ holdest, hpeople]
  refine ⟨holdest, htype, ?_, htall, ?_⟩
  · exact (typing_reads_mentions oldestAge .grouped).2 _ _ htype "age" (by decide)
  · rw [← (typing_reads_mentions tallEldest .grouped).1 _ _ htall]
    rfl

end QueryPipeline
