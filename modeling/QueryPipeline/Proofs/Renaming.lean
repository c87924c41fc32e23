import Mathlib.Data.List.Nodup
import QueryPipeline.Proofs.Acceptance

/-!
# Renaming columns

The pairs of a renaming are checked one after the other (`checkPairs_eq_ok`), and then the columns
are renamed at once.

* `Schema.renamed_spec` says what becomes of a single name;
* **`Schema.rename_succeeds`**: after the checks no two columns end up with one name, so that the
  renaming itself cannot be refused.
-/

namespace QueryPipeline

variable {s : Schema} {pairs : List (String × String)}

/-! ## 1. Targets -/

/-- No target collides iff each target that is a column is a source as well. -/
theorem collidingTarget?_eq_none :
    collidingTarget? s pairs = none ↔
      ∀ n ∈ pairs.map Prod.snd, s.has n = true → n ∈ pairs.map Prod.fst := by
  simp only [collidingTarget?, List.find?_eq_none, Bool.and_eq_true, Bool.not_eq_true', not_and,
    Bool.not_eq_false, List.contains_iff_mem]

/-! ## 2. Single names -/

namespace Schema

/-- The target of a name comes from a pair of that name. -/
theorem renameTarget?_mem {name target : String} (h : renameTarget? name pairs = some target) :
    (name, target) ∈ pairs := by
  induction pairs with
  | nil => cases h
  | cons pair rest ih =>
    obtain ⟨source, given⟩ := pair
    rw [renameTarget?] at h
    cases hrest : renameTarget? name rest with
    | some later =>
      rw [hrest] at h ih
      exact List.mem_cons_of_mem _ (ih h)
    | none =>
      rw [hrest] at h
      by_cases hsource : source = name
      · simp only [hsource, if_true, Option.some.injEq] at h
        rw [hsource, h]
        exact List.mem_cons_self
      · simp [hsource] at h

/-- A name has no target iff it is no source. -/
theorem renameTarget?_eq_none {name : String} :
    renameTarget? name pairs = none ↔ name ∉ pairs.map Prod.fst := by
  induction pairs with
  | nil => simp [renameTarget?]
  | cons pair rest ih =>
    obtain ⟨source, target⟩ := pair
    rw [renameTarget?, List.map_cons, List.mem_cons, not_or, ← ih]
    cases hrest : renameTarget? name rest with
    | some later => simp
    | none => simp [@eq_comm _ name]

/-- **What a name becomes**: the target of a pair of that name, or the name itself where it is no
    source. -/
theorem renamed_spec (pairs : List (String × String)) (name : String) :
    (name, renamed pairs name) ∈ pairs ∨
      name ∉ pairs.map Prod.fst ∧ renamed pairs name = name := by
  unfold renamed
  cases h : renameTarget? name pairs with
  | some target => exact Or.inl (renameTarget?_mem h)
  | none => exact Or.inr ⟨renameTarget?_eq_none.mp h, rfl⟩

/-! ## 3. The new names -/

/-- After the checks two columns of the schema do not become one. -/
theorem renamed_injOn (targets : (pairs.map Prod.snd).Nodup)
    (free : ∀ n ∈ pairs.map Prod.snd, s.has n = true → n ∈ pairs.map Prod.fst) {x y : String}
    (hx : s.has x = true) (hy : s.has y = true) (h : renamed pairs x = renamed pairs y) :
    x = y := by
  rcases renamed_spec pairs x with hx' | ⟨hx', ex⟩ <;>
    rcases renamed_spec pairs y with hy' | ⟨hy', ey⟩
  · -- both are sources: the targets are distinct, so it is the same pair
    have hpair : (x, renamed pairs x) = (y, renamed pairs y) :=
      List.inj_on_of_nodup_map targets hx' hy' h
    exact congrArg Prod.fst hpair
  · -- the target of `x` is the column `y`, which keeps its name
    have htarget : y ∈ pairs.map Prod.snd :=
      List.mem_map.mpr ⟨_, hx', by rw [h, ey]⟩
    exact absurd (free y htarget hy) hy'
  · have htarget : x ∈ pairs.map Prod.snd :=
      List.mem_map.mpr ⟨_, hy', by rw [← h, ex]⟩
    exact absurd (free x htarget hx) hx'
  · rw [← ex, h, ey]

/-- **A checked renaming succeeds**: names stay distinct. -/
theorem rename_succeeds (hpairs : checkPairs s [] pairs = .ok ())
    (hfree : collidingTarget? s pairs = none) : ∃ t, s.rename pairs = .ok t := by
  obtain ⟨_, _, _, htargets⟩ := checkPairs_eq_ok.mp hpairs
  have hfree := collidingTarget?_eq_none.mp hfree
  have hnames : columnNames (s.columns.map fun c => { c with name := renamed pairs c.name }) =
      s.names.map (renamed pairs) := by
    simp [columnNames, names]
  have hnodup : (s.names.map (renamed pairs)).Nodup :=
    List.Nodup.map_on (fun x hx y hy h =>
      renamed_injOn htargets hfree (has_iff.mpr hx) (has_iff.mpr hy) h) s.distinct
  rw [← hnames] at hnodup
  exact ⟨_, dif_pos hnodup⟩

end Schema
end QueryPipeline
