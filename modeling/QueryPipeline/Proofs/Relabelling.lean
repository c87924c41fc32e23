import QueryPipeline.Proofs.Mentions
import QueryPipeline.Proofs.Rewriting
import QueryPipeline.Proofs.Substitution

/-!
# Expressions after a renaming

After a renaming an expression is written with the new names of the columns. All references change
at once, so that columns may take each other's names.

* `Expr.relabelled` renames a single reference, and `Expr.rewrite` does so everywhere;
* `Schema.Substitutes.get`: a column is looked up under its new name with the type that it had;
* **`renaming_keeps_types`**: on the new schema the expression mentions the renamed columns in the
  same order, and it has the same type or is refused for the same cause.
-/

namespace QueryPipeline

variable {s t : Schema} {pairs : List (String × String)} {rename : String → String}

/-! ## 1. Renamed references -/

namespace Expr

/-- A reference under the new name of its column; any other node stays. -/
def relabelled (rename : String → String) : Expr → Expr
  | column name => column (rename name)
  | e => e

theorem relabelled_of_ne {e : Expr} (h : ∀ n, e ≠ column n) : e.relabelled rename = e := by
  cases e with
  | column name => exact absurd rfl (h name)
  | _ => rfl

/-- **The mentions of a renamed expression** are the renamed mentions. -/
theorem references_relabelled (e : Expr) :
    (e.rewrite (relabelled rename)).references = e.references.map rename :=
  references_rewrite (fun _ => rfl) (fun e he => by rw [relabelled_of_ne he]) e

/-- **A renamed expression is typed alike** where its columns are found under their new names. -/
theorem infer_relabelled {e : Expr} {mode : Mode}
    (columns : ∀ n ∈ e.references, ∃ type,
      s.get n = .ok ⟨n, type⟩ ∧ t.get (rename n) = .ok ⟨rename n, type⟩) :
    (e.rewrite (relabelled rename)).infer t mode = e.infer s mode := by
  have alike : Alike .same s t e (e.rewrite (relabelled rename)) := by
    refine rewrite_alike (fun n hn => ?_) fun e he => ?_
    · obtain ⟨type, hs, ht⟩ := columns n hn
      refine ⟨fun mode => ?_, rfl, fun _ _ => rfl⟩
      show (s.get n >>= fun c => .ok c.type) = (t.get (rename n) >>= fun c => .ok c.type)
      rw [hs, ht]
      rfl
    · rw [relabelled_of_ne he]
      exact .of_infer_eq fun _ => rfl
  exact (alike.infer mode).symm

end Expr

/-! ## 2. Renamed columns -/

/-- **A column is found under its new name**, with the type that it had. -/
theorem Schema.Substitutes.get (h : Substitutes pairs s t)
    (distinct : (pairs.map Prod.fst).Nodup) {n : String} (hn : n ∈ s.names) :
    ∃ type, s.get n = .ok ⟨n, type⟩ ∧ t.get (renamed pairs n) = .ok ⟨renamed pairs n, type⟩ := by
  obtain ⟨type, hget, hmem⟩ := exists_get_of_mem hn
  have hcolumn : ⟨renamed pairs n, type⟩ ∈ t.columns := by
    rw [← (substitutes_iff distinct).mp h]
    exact List.mem_map.mpr ⟨_, hmem, rfl⟩
  exact ⟨type, hget, get_eq_ok_iff.mpr ⟨hcolumn, rfl⟩⟩

/-! ## 3. Renamings and types -/

/-- **Typing goes along with a renaming.** An accepted renaming takes each source to its target and
    leaves all other names as they are. An expression over known columns whose references are all
    renamed in this way mentions the new names in the order of the old ones; and on the schema after
    the renaming it has, in every mode, the type that it had before, or is refused for the same
    cause. -/
theorem renaming_keeps_types {input : RenameInput} {r : Resolved}
    (h : resolveRename s input = .ok r) (e : Expr) (known : ∀ n ∈ e.references, n ∈ s.names) :
    (∀ n m, (n, m) ∈ input.pairs → Schema.renamed input.pairs n = m) ∧
      (∀ n, n ∉ input.pairs.map Prod.fst → Schema.renamed input.pairs n = n) ∧
      (e.rewrite (.relabelled (Schema.renamed input.pairs))).references =
        e.references.map (Schema.renamed input.pairs) ∧
      ∀ mode, (e.rewrite (.relabelled (Schema.renamed input.pairs))).infer r.schema mode =
        e.infer s mode := by
  obtain ⟨renamable, hsubst⟩ := renamesTo_iff.mp (show RenamesTo s input r.schema from ⟨r, h, rfl⟩)
  have distinct := renamable.distinct_sources
  refine ⟨fun n m => Schema.renamed_of_mem distinct, fun n => Schema.renamed_of_not_mem,
    Expr.references_relabelled e, fun mode => ?_⟩
  exact Expr.infer_relabelled fun n hn => hsubst.get distinct (known n hn)

/-- A sum that adds an age to a name. -/
def ageAndName : Expr :=
  .binary (.arithmetic .add) (.call .sum [.column "age"]) (.column "name")

/-- In a cycle of three names the age becomes the column `id` and the name becomes `age`: the
    greatest age has its type under the new name, and the sum is refused as before. -/
theorem renaming_keeps_types_cycle :
    ∃ r, resolveRename Pipeline.ofPeople.schema (.list cycledNames) = .ok r ∧
      (∀ n ∈ oldestAge.references, n ∈ Pipeline.ofPeople.schema.names) ∧
      (oldestAge.rewrite (.relabelled (Schema.renamed cycledNames))).references = ["id", "id"] ∧
      (oldestAge.rewrite (.relabelled (Schema.renamed cycledNames))).infer r.schema .grouped =
        .ok .long ∧
      (∀ n ∈ ageAndName.references, n ∈ Pipeline.ofPeople.schema.names) ∧
      (ageAndName.rewrite (.relabelled (Schema.renamed cycledNames))).references = ["id", "age"] ∧
      (ageAndName.rewrite (.relabelled (Schema.renamed cycledNames))).infer r.schema .grouped =
        refuse (.typeMismatch "+" (.arithmeticOnNonNumeric .long .string)) := by
  have hr : resolveRename Pipeline.ofPeople.schema (.list cycledNames) = .ok _ := rfl
  have holdest : ∀ n ∈ oldestAge.references, n ∈ Pipeline.ofPeople.schema.names := by
    decide
  have hsum : ∀ n ∈ ageAndName.references, n ∈ Pipeline.ofPeople.schema.names := by
    decide
  obtain ⟨_, _, hmentions, htypes⟩ := renaming_keeps_types hr oldestAge holdest
  obtain ⟨_, _, hmentions', htypes'⟩ := renaming_keeps_types hr ageAndName hsum
  exact ⟨_, hr, holdest, hmentions.trans (by decide), htypes .grouped, hsum,
    hmentions'.trans (by decide), htypes' .grouped⟩

end QueryPipeline
