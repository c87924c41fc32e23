import QueryPipeline.Proofs.Replay
import QueryPipeline.Proofs.Stored

/-!
# Snapshots

What is certain of every schema in the history of a pipeline, whichever requests led to it.

* looking a column up finds the one column of that name (`Schema.get_eq_ok_iff`), or refuses the
  name (`Schema.get_eq_unknown`);
* each kind of request makes its schema in a way of its own, and none of them makes an empty one of
  one that has columns (`resolve_nonempty`);
* **`snapshots_sound`**: distinct identifiers as names, known types, coherent look-ups, and columns
  wherever the source has some, for every snapshot of every pipeline of a run.
-/

namespace QueryPipeline

variable {s : Schema} {r : Resolved}

/-! ## 1. Looking a column up -/

namespace Schema

/-- A name is refused as unknown iff no column has it. -/
theorem get_eq_unknown {name : String} :
    s.get name = refuse (.unknownColumn name) ↔ name ∉ s.names := by
  rw [← has_iff, has_iff_get]
  unfold get
  cases s.find? name <;> simp [refuse]

end Schema

/-! ## 2. No request empties a schema -/

theorem Schema.project_nonempty {names : List String} {schema : Schema} (hne : names ≠ [])
    (h : s.project names = .ok schema) : schema.columns ≠ [] := by
  obtain ⟨rfl, _⟩ := project_eq_ok_iff.mp h
  exact fun hempty => hne (List.map_eq_nil_iff.mpr hempty)

/-- **A schema with columns is followed by schemas with columns.** -/
theorem resolve_nonempty (hs : s.columns ≠ []) {request : ClauseRequest}
    (h : s.resolve request = .ok r) : r.schema.columns ≠ [] := by
  cases request with
  | select columns =>
    obtain ⟨names, schema, hne, hnames, hschema, rfl⟩ := resolveSelect_eq_ok.mp h
    refine Schema.project_nonempty (fun hempty => hne ?_) hschema
    rw [hempty] at hnames
    exact List.map_eq_nil_iff.mp hnames
  | extend columns =>
    obtain ⟨computed, schema, _, _, hschema, rfl⟩ := resolveExtend_eq_ok.mp h
    rw [Schema.ofColumns_eq_ok.mp hschema]
    exact List.append_ne_nil_of_left_ne_nil hs _
  | rename input =>
    obtain ⟨schema, _, _, _, hschema, rfl⟩ := resolveRename_eq_ok.mp h
    rw [Schema.ofColumns_eq_ok.mp hschema]
    exact fun hempty => hs (List.map_eq_nil_iff.mp hempty)
  | filter predicate =>
    obtain ⟨_, rfl⟩ := resolveFilter_eq_ok.mp h
    exact hs
  | groupBy g =>
    obtain ⟨columns, grouped, _, hne, _, hcolumns, hgrouped, _, rfl⟩ := resolveGroupBy_eq_ok.mp h
    rw [Schema.ofColumns_eq_ok.mp hgrouped]
    have hlength := (selectionColumns_eq_ok.mp hcolumns).2.2.length_eq
    exact fun hempty => hne (List.eq_nil_of_length_eq_zero (by rw [hlength, hempty]; rfl))
  | orderBy inputs =>
    obtain ⟨_, _, rfl⟩ := resolveOrderBy_eq_ok.mp h
    exact hs
  | limit count =>
    obtain ⟨_, rfl⟩ := resolveLimit_eq_ok.mp h
    exact hs
  | offset count =>
    obtain ⟨_, rfl⟩ := resolveOffset_eq_ok.mp h
    exact hs
  | distinct columns =>
    obtain ⟨names, schema, _, hschema, rfl⟩ := resolveDistinct_eq_ok.mp h
    cases names with
    | nil =>
      cases hschema
      exact hs
    | cons n ns => exact Schema.project_nonempty (List.cons_ne_nil n ns) hschema
  | join other kind condition =>
    obtain ⟨_, otherSchema, combined, _, _, _, hcombined, _, rfl⟩ := resolveJoin_eq_ok.mp h
    rw [Schema.ofColumns_eq_ok.mp hcombined]
    exact List.append_ne_nil_of_left_ne_nil hs _

/-! ## 3. Sound schemas -/

/-- What is certain of a schema in a history. -/
structure Schema.Sound (s : Schema) : Prop where
  distinct : s.names.Nodup
  identified : ∀ n ∈ s.names, isIdentifier n = true
  typed : ∀ c ∈ s.columns, c.type ∈ ColumnType.all
  has_iff : ∀ n, s.has n = true ↔ n ∈ s.names
  get_iff : ∀ n c, s.get n = .ok c ↔ c ∈ s.columns ∧ c.name = n
  get_unknown : ∀ n, s.get n = refuse (.unknownColumn n) ↔ n ∉ s.names

/-- A schema whose names are identifiers is sound: the rest holds of every schema. -/
theorem Schema.Identified.sound (h : s.Identified) : s.Sound where
  distinct := s.distinct
  identified := h
  typed c _ := c.type.mem_all
  has_iff _ := Schema.has_iff
  get_iff _ _ := Schema.get_eq_ok_iff
  get_unknown _ := Schema.get_eq_unknown

/-- **Every snapshot of a run is sound.** From a made table, by requests that join made tables,
    accepted or refused and made to any pipeline, only sound schemas come about, and none without
    columns unless the table has none. -/
theorem snapshots_sound {t : Table} (made : t.Made) (listening : Bool)
    (steps : List (Nat × Request))
    (joined : ∀ e ∈ steps, ∀ other ∈ e.2.parts.filterMap ClauseRequest.joined?, other.Made) :
    ∃ base, Pipeline.ofTable t listening = .ok base ∧
      ∀ p ∈ ((Session.start base).run steps).pipelines, ∀ s ∈ p.snapshots,
        s.Sound ∧ (t.columns ≠ [] → s.columns ≠ []) := by
  have named := made.wellNamed
  refine ⟨_, Pipeline.ofTable_wellNamed named listening, fun p hp => ?_⟩
  obtain ⟨given, haccepts, hgiven⟩ := Session.run_accepts hp
  have step : ∀ s, (Schema.Identified s ∧ (t.columns ≠ [] → s.columns ≠ [])) →
      ∀ request ∈ given, ∀ r, s.resolve request = .ok r →
      (r.schema.Identified ∧ (t.columns ≠ [] → r.schema.columns ≠ [])) ∧ True := by
    intro s hs request hrequest r hr
    obtain ⟨e, he, hpart⟩ := hgiven request hrequest
    have hjoined : ∀ other, request.joined? = some other → other.WellNamed := fun other hother =>
      (joined e he other (List.mem_filterMap.mpr ⟨request, hpart, hother⟩)).wellNamed
    exact ⟨⟨resolve_identifiers hs.1 hjoined hr, fun hne => resolve_nonempty (hs.2 hne) hr⟩,
      trivial⟩
  have hsnapshots := (haccepts.invariant (Q := fun _ => True) rfl ⟨named.columns, id⟩ step).1
  exact fun s hs => ⟨(hsnapshots s hs).1.sound, (hsnapshots s hs).2⟩

/-- A renaming that swaps two names, a join after it and a grouping with a column that is named by
    its position: the last schema of that branch is sound. -/
theorem snapshots_sound_positions :
    Table.people.Made ∧
      ∃ p ∈ ((Session.start .ofPeople).run branchingRun).pipelines, ∃ s ∈ p.snapshots,
        s.names = ["name", "column2"] ∧ s.Sound ∧ s.columns ≠ [] := by
  have hteams : (branchingRun.flatMap fun e => e.2.parts.filterMap ClauseRequest.joined?) =
      [.teams] := rfl
  have joined : ∀ e ∈ branchingRun, ∀ other ∈ e.2.parts.filterMap ClauseRequest.joined?,
      other.Made := by
    intro e he other hother
    have hmem : other ∈ branchingRun.flatMap fun e => e.2.parts.filterMap ClauseRequest.joined? :=
      List.mem_flatMap.mpr ⟨e, he, hother⟩
    rw [hteams, List.mem_singleton] at hmem
    exact hmem ▸ Table.teams_made
  obtain ⟨base, hbase, hsound⟩ := snapshots_sound Table.people_made true branchingRun joined
  obtain rfl : Pipeline.ofPeople = base := Except.ok.inj hbase
  obtain ⟨p, hp, hnames⟩ : ∃ p,
      ((Session.start .ofPeople).run branchingRun).pipelines[3]? = some p ∧
        p.schema.names = ["name", "column2"] := ⟨_, rfl, by decide +kernel⟩
  have hmem := List.mem_of_getElem? hp
  obtain ⟨hsound, hne⟩ := hsound p hmem p.schema p.schema_mem_snapshots
  exact ⟨Table.people_made, p, hmem, p.schema, p.schema_mem_snapshots, hnames, hsound,
    hne (by decide)⟩

end QueryPipeline
