import Mathlib.Data.List.Induction
import Mathlib.Data.List.Nodup
import Mathlib.Data.List.Perm.Basic
import QueryPipeline.Record

/-!
# Records of entries

A record enumerates its entries in an order of its own.

* a value under a new name is put at the end (`put_of_new`), so entries with distinct names are
  collected as they are (`collect_of_nodup`), and nothing else is collected in any case
  (`mem_of_mem_collect`);
* no name occurs twice in what is collected and enumerated (`nodup_collect`, `nodup_enumerate`);
* **`enumerate_perm`**: entries with distinct names are enumerated each once, and in any case
  nothing is enumerated that was not an entry (`mem_of_mem_enumerate`).
-/

namespace QueryPipeline
namespace Record

variable {α : Type} {name : String} {value : α} {record entries : List (String × α)}

/-! ## 1. Collecting -/

theorem put_of_new (h : name ∉ record.map Prod.fst) :
    put name value record = record ++ [(name, value)] := by
  induction record with
  | nil => rfl
  | cons entry rest ih =>
    obtain ⟨n, v⟩ := entry
    rw [List.map_cons, List.mem_cons, not_or] at h
    rw [put, if_neg (Ne.symm h.1), ih h.2, List.cons_append]

theorem mem_of_mem_put {e : String × α} (h : e ∈ put name value record) :
    e = (name, value) ∨ e ∈ record := by
  induction record with
  | nil => exact Or.inl (List.mem_singleton.mp h)
  | cons entry rest ih =>
    obtain ⟨n, v⟩ := entry
    rw [put] at h
    split at h
    · rename_i hn
      rcases List.mem_cons.mp h with rfl | h
      · exact Or.inl (by rw [hn])
      · exact Or.inr (List.mem_cons_of_mem _ h)
    · rcases List.mem_cons.mp h with rfl | h
      · exact Or.inr List.mem_cons_self
      · exact (ih h).imp_right (List.mem_cons_of_mem _)

theorem collect_concat (entries : List (String × α)) (e : String × α) :
    collect (entries ++ [e]) = put e.1 e.2 (collect entries) := by
  rw [collect, collect, List.foldl_append]
  rfl

/-- A value is put under its name, which stands there or comes to stand at the end. -/
theorem names_put (name : String) (value : α) (record : List (String × α)) :
    (put name value record).map Prod.fst =
      if name ∈ record.map Prod.fst then record.map Prod.fst
      else record.map Prod.fst ++ [name] := by
  induction record with
  | nil => rfl
  | cons entry rest ih =>
    obtain ⟨n, v⟩ := entry
    by_cases hn : n = name
    · simp [put, hn]
    · by_cases hrest : name ∈ rest.map Prod.fst
      · simp [put, hn, ih, hrest]
      · simp [put, hn, ih, hrest, Ne.symm hn]

theorem nodup_put (h : (record.map Prod.fst).Nodup) :
    ((put name value record).map Prod.fst).Nodup := by
  rw [names_put]
  by_cases hname : name ∈ record.map Prod.fst
  · rw [if_pos hname]
    exact h
  · rw [if_neg hname, ← List.concat_eq_append]
    exact List.Nodup.concat hname h

/-- **No name is collected twice.** -/
theorem nodup_collect (entries : List (String × α)) : ((collect entries).map Prod.fst).Nodup := by
  induction entries using List.reverseRecOn with
  | nil => exact List.nodup_nil
  | append_singleton entries last ih =>
    rw [collect_concat]
    exact nodup_put ih

/-- Nothing is collected that was not given. -/
theorem mem_of_mem_collect {e : String × α} (h : e ∈ collect entries) : e ∈ entries := by
  induction entries using List.reverseRecOn with
  | nil => exact h
  | append_singleton entries last ih =>
    rw [collect_concat] at h
    rcases mem_of_mem_put h with rfl | h
    · exact List.mem_append_right _ List.mem_cons_self
    · exact List.mem_append_left _ (ih h)

/-- **Entries with distinct names are collected as they are.** -/
theorem collect_of_nodup (h : (entries.map Prod.fst).Nodup) : collect entries = entries := by
  induction entries using List.reverseRecOn with
  | nil => rfl
  | append_singleton entries last ih =>
    rw [List.map_append] at h
    obtain ⟨hentries, _, hnew⟩ := List.nodup_append.mp h
    have hlast : last.1 ∉ entries.map Prod.fst := fun hmem =>
      hnew _ hmem _ List.mem_cons_self rfl
    rw [collect_concat, ih hentries, put_of_new hlast]

/-! ## 2. Enumerating -/

theorem insertByIndex_perm (index : Nat) (entry : String × α) (l : List (Nat × String × α)) :
    (insertByIndex index entry l).Perm ((index, entry) :: l) := by
  induction l with
  | nil => rfl
  | cons first rest ih =>
    rw [insertByIndex]
    split
    · rfl
    · exact (ih.cons first).trans (.swap _ _ _)

/-- The entries that come first are those whose names are array indexes. -/
theorem indexed_perm (record : List (String × α)) :
    ((indexed record).map Prod.snd).Perm (record.filter fun e => (arrayIndex? e.1).isSome) := by
  induction record with
  | nil => rfl
  | cons e rest ih =>
    cases h : arrayIndex? e.1 with
    | none =>
      rw [indexed, h, List.filter_cons_of_neg (by simp [h])]
      exact ih
    | some index =>
      rw [indexed, h, List.filter_cons_of_pos (by simp [h])]
      exact ((insertByIndex_perm index e _).map Prod.snd).trans (ih.cons e)

/-- A record enumerates what was collected, each entry once. -/
theorem enumerate_perm_collect (entries : List (String × α)) :
    (enumerate entries).Perm (collect entries) := by
  have hrest : (fun e : String × α => (arrayIndex? e.1).isNone) =
      fun e => !(arrayIndex? e.1).isSome := by
    funext e
    cases arrayIndex? e.1 <;> rfl
  have hsplit := List.filter_append_perm (fun e : String × α => (arrayIndex? e.1).isSome)
    (collect entries)
  rw [enumerate, hrest]
  exact ((indexed_perm _).append_right _).trans hsplit

/-- **No name is enumerated twice.** -/
theorem nodup_enumerate (entries : List (String × α)) :
    ((enumerate entries).map Prod.fst).Nodup :=
  ((enumerate_perm_collect entries).map Prod.fst).nodup_iff.mpr (nodup_collect entries)

/-- **Entries with distinct names are enumerated each once.** -/
theorem enumerate_perm (h : (entries.map Prod.fst).Nodup) : (enumerate entries).Perm entries := by
  have hcollect := enumerate_perm_collect entries
  rwa [collect_of_nodup h] at hcollect

/-- **Nothing is enumerated that was not given.** -/
theorem mem_of_mem_enumerate {e : String × α} (h : e ∈ enumerate entries) : e ∈ entries :=
  mem_of_mem_collect ((enumerate_perm_collect entries).mem_iff.mp h)

end Record
end QueryPipeline
