import Mathlib.Data.List.Forall2
import QueryPipeline.Proofs.Records
import QueryPipeline.Proofs.Stored

/-!
# Renaming as a substitution

The pairs of a renaming are checked one by one and against the columns that keep their names, but
what they amount to has no order: it is a substitution of names, made everywhere at once.

* `Schema.Renamable` is what is asked of the pairs, and `Schema.Substitutes` says which schema they
  lead to, column by column;
* `renamesTo_iff`: the request is accepted for such pairs and with this schema, and for no others;
* `Schema.Renamable.swap`, `Schema.renamed_swap`: the pairs turned around rename back;
* **`rename_substitutes`**: acceptance, the schema, the independence of the order of the pairs and
  of their form, and the way back.
-/

namespace QueryPipeline

variable {s t : Schema} {pairs more : List (String × String)}

/-! ## 1. Pairs and schemas -/

/-- What is asked of the pairs that rename the columns of a schema: there is one; each source is a
    column, each target an identifier; none of them stands twice in its role; and a target that is
    a column is itself renamed. -/
structure Schema.Renamable (s : Schema) (pairs : List (String × String)) : Prop where
  nonempty : pairs ≠ []
  sources : ∀ n ∈ pairs.map Prod.fst, n ∈ s.names
  targets : ∀ n ∈ pairs.map Prod.snd, isIdentifier n = true
  distinct_sources : (pairs.map Prod.fst).Nodup
  distinct_targets : (pairs.map Prod.snd).Nodup
  free : ∀ n ∈ pairs.map Prod.snd, n ∈ s.names → n ∈ pairs.map Prod.fst

/-- A column before and after: the type stays, and a source becomes its target while any other name
    stays as it is. -/
def Substituted (pairs : List (String × String)) (c d : Column) : Prop :=
  d.type = c.type ∧
    ((c.name, d.name) ∈ pairs ∨ c.name ∉ pairs.map Prod.fst ∧ d.name = c.name)

/-- One schema becomes another by the substitution, place by place. -/
def Schema.Substitutes (pairs : List (String × String)) (s t : Schema) : Prop :=
  List.Forall₂ (Substituted pairs) s.columns t.columns

/-- The request is accepted and leads to the given schema. -/
def RenamesTo (s : Schema) (input : RenameInput) (t : Schema) : Prop :=
  ∃ r, resolveRename s input = .ok r ∧ r.schema = t

/-! ## 2. The substitution of names -/

namespace Schema

theorem renamed_of_mem {n m : String} (distinct : (pairs.map Prod.fst).Nodup)
    (h : (n, m) ∈ pairs) : renamed pairs n = m := by
  rcases renamed_spec pairs n with hn | ⟨hn, _⟩
  · have hpair : (n, renamed pairs n) = (n, m) := List.inj_on_of_nodup_map distinct hn h rfl
    exact congrArg Prod.snd hpair
  · exact absurd (List.mem_map.mpr ⟨_, h, rfl⟩) hn

theorem renamed_of_not_mem {n : String} (h : n ∉ pairs.map Prod.fst) : renamed pairs n = n := by
  rcases renamed_spec pairs n with hn | ⟨_, hn⟩
  · exact absurd (List.mem_map.mpr ⟨_, hn, rfl⟩) h
  · exact hn

/-- **With distinct sources the substitution is what renaming makes of the columns.** -/
theorem substitutes_iff (distinct : (pairs.map Prod.fst).Nodup) :
    Substitutes pairs s t ↔
      (s.columns.map fun c => { c with name := renamed pairs c.name }) = t.columns := by
  constructor
  · intro h
    have hcolumns : List.Forall₂ (fun c d => { c with name := renamed pairs c.name } = d)
        s.columns t.columns := by
      refine h.imp fun c d hcd => ?_
      obtain ⟨htype, hname | ⟨hkept, hname⟩⟩ := hcd
      · rw [renamed_of_mem distinct hname, ← htype]
      · rw [renamed_of_not_mem hkept, ← hname, ← htype]
    exact List.forall₂_eq_eq_eq ▸ List.forall₂_map_left_iff.mpr hcolumns
  · intro h
    unfold Substitutes
    rw [← h, List.forall₂_map_right_iff, List.forall₂_same]
    exact fun c _ => ⟨rfl, renamed_spec pairs c.name⟩

/-- **With distinct sources renaming is substituting.** -/
theorem rename_eq_ok_iff (distinct : (pairs.map Prod.fst).Nodup) :
    s.rename pairs = .ok t ↔ Substitutes pairs s t := by
  rw [substitutes_iff distinct]
  exact ofColumns_eq_ok.trans eq_comm

theorem Substitutes.names (distinct : (pairs.map Prod.fst).Nodup) (h : Substitutes pairs s t) :
    t.names = s.names.map (renamed pairs) := by
  rw [Schema.names, ← (substitutes_iff distinct).mp h]
  simp [columnNames, Schema.names]

/-! ## 3. Accepted pairs -/

/-- The checks find out whether pairs may rename a schema. -/
theorem renamable_iff :
    s.Renamable pairs ↔
      pairs ≠ [] ∧ checkPairs s [] pairs = .ok () ∧ collidingTarget? s pairs = none := by
  rw [checkPairs_eq_ok, collidingTarget?_eq_none]
  simp only [has_iff, List.map_nil, List.not_mem_nil, not_false_eq_true, and_true]
  constructor
  · intro h
    exact ⟨h.nonempty, ⟨h.sources, h.targets, h.distinct_sources, h.distinct_targets⟩, h.free⟩
  · intro h
    obtain ⟨hne, ⟨hsources, htargets, hdistinct, hdistinct'⟩, hfree⟩ := h
    exact ⟨hne, hsources, htargets, hdistinct, hdistinct', hfree⟩

namespace Renamable

/-- **Once the pairs are checked the new schema is made**: no name is taken twice. -/
theorem rename_eq_ok (h : s.Renamable pairs) :
    ∃ t, s.rename pairs = .ok t ∧ Substitutes pairs s t := by
  obtain ⟨_, hpairs, hfree⟩ := renamable_iff.mp h
  obtain ⟨t, ht⟩ := rename_succeeds hpairs hfree
  exact ⟨t, ht, (rename_eq_ok_iff h.distinct_sources).mp ht⟩

/-- The order of the pairs does not matter. -/
theorem perm (h : s.Renamable pairs) (same : pairs.Perm more) : s.Renamable more := by
  have hsources (n : String) : n ∈ pairs.map Prod.fst ↔ n ∈ more.map Prod.fst :=
    (same.map Prod.fst).mem_iff
  have htargets (n : String) : n ∈ pairs.map Prod.snd ↔ n ∈ more.map Prod.snd :=
    (same.map Prod.snd).mem_iff
  refine ⟨fun hempty => ?_, fun n hn => ?_, fun n hn => ?_, ?_, ?_, fun n hn hs => ?_⟩
  · subst hempty
    exact h.nonempty same.eq_nil
  · exact h.sources n ((hsources n).mpr hn)
  · exact h.targets n ((htargets n).mpr hn)
  · exact (same.map Prod.fst).nodup_iff.mp h.distinct_sources
  · exact (same.map Prod.snd).nodup_iff.mp h.distinct_targets
  · exact (hsources n).mp (h.free n ((htargets n).mpr hn) hs)

end Renamable

theorem Substitutes.perm (h : Substitutes pairs s t) (same : pairs.Perm more) :
    Substitutes more s t := by
  refine List.Forall₂.imp (fun c d hcd => ?_) h
  obtain ⟨htype, hname | ⟨hkept, hname⟩⟩ := hcd
  · exact ⟨htype, Or.inl (same.mem_iff.mp hname)⟩
  · exact ⟨htype, Or.inr ⟨fun hn => hkept ((same.map Prod.fst).mem_iff.mpr hn), hname⟩⟩

end Schema

/-- **A renaming is accepted iff its pairs may rename the schema, and then it substitutes them.** -/
theorem renamesTo_iff {input : RenameInput} :
    RenamesTo s input t ↔ s.Renamable input.pairs ∧ Schema.Substitutes input.pairs s t := by
  simp only [RenamesTo, resolveRename_eq_ok]
  constructor
  · rintro ⟨r, ⟨schema, hne, hpairs, hfree, hschema, rfl⟩, rfl⟩
    have renamable := Schema.renamable_iff.mpr ⟨hne, hpairs, hfree⟩
    exact ⟨renamable, (Schema.rename_eq_ok_iff renamable.distinct_sources).mp hschema⟩
  · rintro ⟨renamable, hsubst⟩
    obtain ⟨hne, hpairs, hfree⟩ := Schema.renamable_iff.mp renamable
    have hschema := (Schema.rename_eq_ok_iff renamable.distinct_sources).mpr hsubst
    exact ⟨_, ⟨t, hne, hpairs, hfree, hschema, rfl⟩, rfl⟩

/-- Pairs in another order do the same. -/
theorem renamesTo_perm {input other : RenameInput} (same : other.pairs.Perm input.pairs) :
    RenamesTo s other t ↔ RenamesTo s input t := by
  rw [renamesTo_iff, renamesTo_iff]
  constructor
  · exact fun h => ⟨h.1.perm same, h.2.perm same⟩
  · exact fun h => ⟨h.1.perm same.symm, h.2.perm same.symm⟩

/-! ## 4. The way back -/

namespace Schema

theorem map_fst_swap (pairs : List (String × String)) :
    (pairs.map Prod.swap).map Prod.fst = pairs.map Prod.snd := by
  rw [List.map_map]
  rfl

theorem map_snd_swap (pairs : List (String × String)) :
    (pairs.map Prod.swap).map Prod.snd = pairs.map Prod.fst := by
  rw [List.map_map]
  rfl

theorem Renamable.distinct_swap (h : s.Renamable pairs) :
    ((pairs.map Prod.swap).map Prod.fst).Nodup := by
  rw [map_fst_swap]
  exact h.distinct_targets

/-- **The pairs turned around take every name back.** -/
theorem renamed_swap (h : s.Renamable pairs) {n : String} (hn : n ∈ s.names) :
    renamed (pairs.map Prod.swap) (renamed pairs n) = n := by
  by_cases hsource : n ∈ pairs.map Prod.fst
  · obtain ⟨⟨_, m⟩, hpair, rfl⟩ := List.mem_map.mp hsource
    rw [renamed_of_mem h.distinct_sources hpair]
    exact renamed_of_mem h.distinct_swap (List.mem_map.mpr ⟨_, hpair, rfl⟩)
  · -- a column that keeps its name is no target, or it would have been renamed
    have htarget : n ∉ (pairs.map Prod.swap).map Prod.fst := by
      rw [map_fst_swap]
      exact fun htarget => hsource (h.free n htarget hn)
    rw [renamed_of_not_mem hsource, renamed_of_not_mem htarget]

/-- The pairs turned around may rename the new schema, if the old names are identifiers. -/
theorem Renamable.swap (h : s.Renamable pairs) (hsubst : Substitutes pairs s t)
    (hs : s.Identified) : t.Renamable (pairs.map Prod.swap) := by
  have hnames := hsubst.names h.distinct_sources
  refine ⟨fun hempty => h.nonempty (List.map_eq_nil_iff.mp hempty), ?_, ?_, ?_, ?_, ?_⟩
  · rw [map_fst_swap]
    intro n hn
    obtain ⟨⟨m, _⟩, hpair, rfl⟩ := List.mem_map.mp hn
    have hm : m ∈ s.names := h.sources m (List.mem_map.mpr ⟨_, hpair, rfl⟩)
    rw [hnames]
    exact List.mem_map.mpr ⟨m, hm, renamed_of_mem h.distinct_sources hpair⟩
  · rw [map_snd_swap]
    exact fun n hn => hs n (h.sources n hn)
  · exact h.distinct_swap
  · rw [map_snd_swap]
    exact h.distinct_sources
  · -- a source that is a name of the new schema came there as a target
    rw [map_fst_swap, map_snd_swap, hnames]
    intro n hn hmem
    obtain ⟨m, _, rfl⟩ := List.mem_map.mp hmem
    rcases renamed_spec pairs m with hpair | ⟨hkept, hname⟩
    · exact List.mem_map.mpr ⟨_, hpair, rfl⟩
    · exact absurd (hname ▸ hn) hkept

theorem Substitutes.swap (hsubst : Substitutes pairs s t) (h : s.Renamable pairs) :
    Substitutes (pairs.map Prod.swap) t s := by
  rw [substitutes_iff h.distinct_swap, ← (substitutes_iff h.distinct_sources).mp hsubst,
    List.map_map]
  have hback : ∀ c ∈ s.columns,
      renamed (pairs.map Prod.swap) (renamed pairs c.name) = c.name := fun c hc =>
    renamed_swap h (List.mem_map.mpr ⟨c, hc, rfl⟩)
  conv_rhs => rw [← List.map_id s.columns]
  refine List.map_congr_left fun c hc => ?_
  show ({ c with name := renamed (pairs.map Prod.swap) (renamed pairs c.name) } : Column) = c
  rw [hback c hc]

end Schema

/-! ## 5. Renamings -/

/-- **Renaming is a checked simultaneous substitution with an inverse.** It is accepted for the
    pairs that may rename the schema and for no others, since the new schema can then always be
    made; every column keeps its place and its type, and all sources become their targets at once.
    Neither the order of the pairs nor their form matters, and over identifiers the pairs turned
    around restore the schema. -/
theorem rename_substitutes (s : Schema) (input : RenameInput) :
    ((∃ r, resolveRename s input = .ok r) ↔ s.Renamable input.pairs) ∧
      (s.Renamable input.pairs → ∃ t, s.rename input.pairs = .ok t) ∧
      (∀ r, resolveRename s input = .ok r → Schema.Substitutes input.pairs s r.schema) ∧
      (∀ other : RenameInput, other.pairs.Perm input.pairs →
        ∀ t, RenamesTo s other t ↔ RenamesTo s input t) ∧
      (∀ pairs : List (String × String), (pairs.map Prod.fst).Nodup →
        ∀ t, RenamesTo s (.record pairs) t ↔ RenamesTo s (.list pairs) t) ∧
      (s.Identified → ∀ r, resolveRename s input = .ok r →
        RenamesTo r.schema (.list (input.pairs.map Prod.swap)) s) := by
  have accepted {r : Resolved} (h : resolveRename s input = .ok r) :=
    renamesTo_iff.mp (show RenamesTo s input r.schema from ⟨r, h, rfl⟩)
  refine ⟨⟨fun ⟨r, h⟩ => (accepted h).1, fun h => ?_⟩, fun h => ?_, fun r h => (accepted h).2,
    fun other same t => renamesTo_perm same, fun pairs distinct t => ?_, fun hs r h => ?_⟩
  · obtain ⟨t, _, hsubst⟩ := h.rename_eq_ok
    obtain ⟨r, hr, _⟩ := renamesTo_iff.mpr ⟨h, hsubst⟩
    exact ⟨r, hr⟩
  · obtain ⟨t, ht, _⟩ := h.rename_eq_ok
    exact ⟨t, ht⟩
  · have same : (RenameInput.record pairs).pairs.Perm (RenameInput.list pairs).pairs :=
      Record.enumerate_perm distinct
    exact renamesTo_perm same
  · obtain ⟨renamable, hsubst⟩ := accepted h
    exact renamesTo_iff.mpr ⟨renamable.swap hsubst hs, hsubst.swap renamable⟩

/-- Three columns of the people take each other's names, and the fourth is renamed to itself. -/
def cycledNames : List (String × String) :=
  [("id", "name"), ("team", "team"), ("name", "age"), ("age", "id")]

/-- A cycle is accepted in every order and as a record, and goes back. -/
theorem rename_substitutes_cycle :
    Pipeline.ofPeople.schema.Renamable cycledNames ∧
      ∃ t, RenamesTo Pipeline.ofPeople.schema (.list cycledNames) t ∧
        t.columns = [⟨"name", .integer⟩, ⟨"age", .string⟩, ⟨"id", .integer⟩, ⟨"team", .integer⟩] ∧
        RenamesTo Pipeline.ofPeople.schema (.list cycledNames.reverse) t ∧
        RenamesTo Pipeline.ofPeople.schema (.record cycledNames) t ∧
        RenamesTo t (.list (cycledNames.map Prod.swap)) Pipeline.ofPeople.schema := by
  obtain ⟨haccepted, _, _, horder, hform, hback⟩ :=
    rename_substitutes Pipeline.ofPeople.schema (.list cycledNames)
  have hr : resolveRename Pipeline.ofPeople.schema (.list cycledNames) = .ok _ := rfl
  have hidentified : Pipeline.ofPeople.schema.Identified := Table.people_made.wellNamed.columns
  have hlist : RenamesTo Pipeline.ofPeople.schema (.list cycledNames) _ := ⟨_, hr, rfl⟩
  refine ⟨haccepted.mp ⟨_, hr⟩, _, hlist, rfl, ?_, ?_, hback hidentified _ hr⟩
  · exact (horder (.list cycledNames.reverse) (List.reverse_perm _) _).mpr hlist
  · exact (hform cycledNames (by decide) _).mpr hlist

end QueryPipeline
