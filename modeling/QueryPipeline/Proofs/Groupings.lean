import QueryPipeline.Proofs.Stored

/-!
# Which groupings are accepted

A grouping goes through two walks over its expressions and two typings, on the schema before it and
on the one after. Together they ask for no more than a short list of conditions.

* `Grouping.Fits` are the conditions on the keys, the selections and the condition on groups, and
  `Grouping.Gives` says which schema comes about (only one does, `Grouping.Gives.unique`);
* `resolveGroupBy_eq_ok_iff` puts the checks together;
* **`grouping_accepted_iff`**: a grouping is accepted iff it fits, and gives what was described.
-/

namespace QueryPipeline

variable {s grouped : Schema}

/-! ## 1. Conditions -/

/-- The schema after a grouping has one column for each selection, in their order, under the name of
    its result and with its type on the schema before. -/
structure Grouping.Gives (g : Grouping) (s grouped : Schema) : Prop where
  names : grouped.names = g.resultNames
  types : List.Forall₂ (fun e c => e.infer s .grouped = .ok c.type) g.selections grouped.columns

/-- What is asked of a grouping. The condition on groups may use the results only, inside of
    aggregates as well, and is boolean on the schema that the grouping gives. -/
structure Grouping.Fits (g : Grouping) (s : Schema) : Prop where
  keyed : g.keys ≠ []
  selecting : g.selections ≠ []
  keys_known : ∀ key ∈ g.keys, key ∈ s.names
  selectable : ∀ e ∈ g.selections, e.Selectable s g.keys
  distinct : g.resultNames.Nodup
  having_results : ∀ e ∈ g.having, ∀ n ∈ e.references, n ∈ g.resultNames
  having_boolean : ∀ e ∈ g.having, ∃ grouped, g.Gives s grouped ∧
    e.infer grouped .grouped = .ok .boolean

/-! ## 2. The schema of the groups -/

namespace Grouping

variable {g : Grouping}

/-- A schema that a grouping of selectable expressions gives is the one that is resolved. -/
theorem gives_iff (selectable : ∀ e ∈ g.selections, e.Selectable s g.keys) :
    g.Gives s grouped ↔ selectionColumns s g.keys 1 g.selections = .ok grouped.columns := by
  rw [selectionColumns_eq_ok]
  constructor
  · exact fun h => ⟨selectable, h.names, h.types⟩
  · exact fun h => ⟨h.2.1, h.2.2⟩

/-- **A grouping gives one schema.** -/
theorem Gives.unique {grouped' : Schema} (selectable : ∀ e ∈ g.selections, e.Selectable s g.keys)
    (h : g.Gives s grouped) (h' : g.Gives s grouped') : grouped = grouped' := by
  have hcolumns := (gives_iff selectable).mp h
  have hcolumns' := (gives_iff selectable).mp h'
  exact Schema.ext (Except.ok.inj (hcolumns.symm.trans hcolumns'))

/-- A grouping that fits gives a schema. -/
theorem Fits.exists_gives (h : g.Fits s) : ∃ grouped, g.Gives s grouped := by
  obtain ⟨columns, hcolumns⟩ := exists_selectionColumns h.selectable 1
  obtain ⟨_, hnames, _⟩ := selectionColumns_eq_ok.mp hcolumns
  have hdistinct : (columnNames columns).Nodup := hnames ▸ h.distinct
  exact ⟨⟨columns, hdistinct⟩, (gives_iff h.selectable).mpr hcolumns⟩

end Grouping

/-! ## 3. Groupings -/

/-- **A grouping resolves iff it fits**, to its keys, selections and condition and the schema that
    it gives. -/
theorem resolveGroupBy_eq_ok_iff {g : Grouping} {r : Resolved} :
    resolveGroupBy s g = .ok r ↔
      g.Fits s ∧ g.Gives s r.schema ∧
        r.clause = .groupBy (g.keys.map .column) g.selections g.having := by
  simp only [resolveGroupBy_eq_ok, checkKeys_eq_ok, Schema.ofColumns_eq_ok, checkHaving_eq_ok,
    Schema.has_iff]
  constructor
  · rintro ⟨_, grouped, hkeys, hne, hknown, hcolumns, rfl, hhaving, rfl⟩
    have hselectable := (selectionColumns_eq_ok.mp hcolumns).1
    have gives := (Grouping.gives_iff hselectable).mpr hcolumns
    refine ⟨⟨hkeys, hne, hknown, hselectable, ?_, fun e he n hn => ?_, fun e he => ?_⟩, gives, rfl⟩
    · exact gives.names ▸ grouped.distinct
    · exact gives.names ▸ (hhaving e he).1 n hn
    · exact ⟨grouped, gives, (hhaving e he).2⟩
  · rintro ⟨fits, gives, hclause⟩
    obtain ⟨clause, schema⟩ := r
    subst hclause
    refine ⟨_, schema, fits.keyed, fits.selecting, fits.keys_known,
      (Grouping.gives_iff fits.selectable).mp gives, rfl, fun e he => ⟨fun n hn => ?_, ?_⟩, rfl⟩
    · exact gives.names ▸ fits.having_results e he n hn
    · obtain ⟨grouped, gives', hboolean⟩ := fits.having_boolean e he
      obtain rfl : grouped = schema := gives'.unique fits.selectable gives
      exact hboolean

/-- **The accepted groupings.** A grouping is accepted iff it has keys and selections, the keys are
    columns, every selection is selectable, the results have distinct names, and the condition on
    groups uses results only and is boolean on the schema of the results. The accepted clause is
    the grouping, and the schema after it has one column for each selection. -/
theorem grouping_accepted_iff (s : Schema) (g : Grouping) :
    ((∃ r, resolveGroupBy s g = .ok r) ↔ g.Fits s) ∧
      ∀ r, resolveGroupBy s g = .ok r →
        g.Gives s r.schema ∧ r.clause = .groupBy (g.keys.map .column) g.selections g.having := by
  refine ⟨⟨fun ⟨r, h⟩ => (resolveGroupBy_eq_ok_iff.mp h).1, fun h => ?_⟩, fun r h => ?_⟩
  · obtain ⟨grouped, gives⟩ := h.exists_gives
    exact ⟨⟨_, grouped⟩, resolveGroupBy_eq_ok_iff.mpr ⟨h, gives, rfl⟩⟩
  · exact (resolveGroupBy_eq_ok_iff.mp h).2

/-- The teams with their size, without a name for it, and the age of their eldest member, for those
    where it is above thirty. -/
def teamSizes : Grouping where
  keys := ["team"]
  selections := [.column "team", .call .count [.column "id"],
    .named "oldest" (.call .max [.column "age"])]
  having := some (.binary (.comparison .greater) (.column "oldest") (.literal (.long 30)))

/-- Two counts, of which the first has the name that the second gets by its position. -/
def collidingCounts : Grouping where
  keys := ["team"]
  selections := [.named "column2" (.call .count [.column "id"]), .call .count [.column "age"]]
  having := none

/-- The size has its position as its name, so the first grouping fits; a name that is that of a
    later position makes the second one fail. -/
theorem grouping_accepted_iff_positions :
    teamSizes.Fits Pipeline.ofPeople.schema ∧
      (∃ r, resolveGroupBy Pipeline.ofPeople.schema teamSizes = .ok r ∧
        teamSizes.Gives Pipeline.ofPeople.schema r.schema ∧
        r.schema.columns = [⟨"team", .integer⟩, ⟨"column2", .long⟩, ⟨"oldest", .integer⟩]) ∧
      ¬ collidingCounts.Fits Pipeline.ofPeople.schema := by
  obtain ⟨haccepted, hgives⟩ := grouping_accepted_iff Pipeline.ofPeople.schema teamSizes
  have hr : resolveGroupBy Pipeline.ofPeople.schema teamSizes = .ok _ := rfl
  have hrefused : resolveGroupBy Pipeline.ofPeople.schema collidingCounts =
      refuse (.duplicateColumn "column2") := rfl
  refine ⟨haccepted.mp ⟨_, hr⟩, ⟨_, hr, (hgives _ hr).1, rfl⟩, fun fits => ?_⟩
  obtain ⟨r, h⟩ := (grouping_accepted_iff Pipeline.ofPeople.schema collidingCounts).1.mpr fits
  rw [hrefused] at h
  cases h

end QueryPipeline
