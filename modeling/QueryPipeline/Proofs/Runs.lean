import Mathlib.Data.List.Forall2
import Mathlib.Data.List.Induction
import QueryPipeline.Pipeline.Session
import QueryPipeline.Proofs.Tables

/-!
# Runs

How the pipelines of a session come about.

* `Session.run` makes requests one after the other, each to a pipeline obtained so far;
* `Accepts p given q`: the pipeline `p` accepted the requests `given`, one after the other, and
  became `q`. Every pipeline of a run comes about in this way from the first one, by parts of the
  requests of the run (`run_accepts`);
* `Accepts.resolved` says what each accepted request left in the history, and
  `Accepts.invariant` carries a property of schemas and clauses along the requests, and
  `Accepts.simulation` a relation between two runs, so that no later proof goes through a run
  again.
-/

namespace QueryPipeline

/-! ## 1. Growing by one clause -/

namespace Pipeline

variable {p q : Pipeline}

@[simp] theorem clauses_extended (p : Pipeline) (r : Resolved) :
    (p.extended r).clauses = p.clauses ++ [r.clause] := by
  simp [clauses, extended]

@[simp] theorem snapshots_extended (p : Pipeline) (r : Resolved) :
    (p.extended r).snapshots = p.snapshots ++ [r.schema] := by
  simp [snapshots, extended]

@[simp] theorem schema_extended (p : Pipeline) (r : Resolved) :
    (p.extended r).schema = r.schema := by
  simp [schema, extended]

@[simp] theorem length_snapshots (p : Pipeline) :
    p.snapshots.length = p.clauses.length + 1 := by
  simp [snapshots, clauses]

/-- **The schema of a pipeline is the last of its snapshots.** -/
theorem getLast?_snapshots (p : Pipeline) : p.snapshots.getLast? = some p.schema := by
  unfold snapshots schema
  rw [List.getLast?_cons, List.getLast?_map]
  cases p.history.getLast? <;> rfl

theorem schema_mem_snapshots (p : Pipeline) : p.schema ∈ p.snapshots :=
  List.mem_of_getLast? p.getLast?_snapshots

/-- **A request is accepted iff it resolves on the schema, and the result is stored.** -/
theorem apply_eq_ok {request : ClauseRequest} :
    (p.apply request).result = .ok q ↔
      ∃ r, p.schema.resolve request = .ok r ∧ q = p.extended r := by
  unfold apply
  cases h : p.schema.resolve request with
  | ok r => simp [Logged.tell, @eq_comm _ q]
  | error failure => cases failure <;> simp [Logged.tell, Logged.quiet]

/-- The pipeline of a well named table starts with the schema of the table. -/
theorem ofTable_wellNamed {t : Table} (h : t.WellNamed) (listening : Bool) :
    ofTable t listening = .ok ⟨t.name, ⟨t.columns, h.distinct⟩, [], listening⟩ := by
  unfold ofTable
  rw [h.schema_eq]
  rfl

/-- The pipeline of the people. -/
def ofPeople : Pipeline :=
  ⟨⟨"company", "people"⟩, ⟨Table.people.columns, by decide⟩, [], true⟩

end Pipeline

/-! ## 2. Requests accepted one after the other -/

/-- The requests for one clause each that a request consists of. -/
def Request.parts : Request → List ClauseRequest
  | .clause request => [request]
  | .page offset limit => [.offset offset, .limit limit]

/-- The table that a request joins. -/
def ClauseRequest.joined? : ClauseRequest → Option Table
  | .join other _ _ => some other
  | _ => none

/-- The pipeline `p` accepts requests, one after the other, and becomes another pipeline. -/
inductive Accepts (p : Pipeline) : List ClauseRequest → Pipeline → Prop
  | start : Accepts p [] p
  | step {given : List ClauseRequest} {q next : Pipeline} {request : ClauseRequest}
      (before : Accepts p given q) (accepted : (q.apply request).result = .ok next) :
      Accepts p (given ++ [request]) next

/-- A list related to one that ends in a member ends in a member related to it. -/
theorem forall₂_concat_left {α β : Type} {R : α → β → Prop} {as : List α} {a : α} {bs : List β}
    (h : List.Forall₂ R (as ++ [a]) bs) :
    ∃ bs', List.Forall₂ R as bs' ∧ ∃ b, R a b ∧ bs = bs' ++ [b] := by
  induction as generalizing bs with
  | nil =>
    obtain ⟨b, rest, hb, hrest, rfl⟩ := List.forall₂_cons_left_iff.mp h
    obtain rfl := List.forall₂_nil_left_iff.mp hrest
    exact ⟨[], .nil, b, hb, rfl⟩
  | cons first more ih =>
    obtain ⟨b, rest, hb, hrest, rfl⟩ := List.forall₂_cons_left_iff.mp h
    obtain ⟨bs', hbs', last, hlast, rfl⟩ := ih hrest
    exact ⟨b :: bs', .cons hb hbs', last, hlast, rfl⟩

namespace Accepts

variable {p q next : Pipeline} {given more : List ClauseRequest}

theorem single {request : ClauseRequest} (h : (p.apply request).result = .ok q) :
    Accepts p [request] q := .step .start h

theorem nil_iff : Accepts p [] q ↔ q = p := by
  constructor
  · intro h
    generalize hgiven : ([] : List ClauseRequest) = given at h
    cases h with
    | start => rfl
    | step _ _ => exact absurd hgiven.symm (List.append_ne_nil_of_right_ne_nil _ (by simp))
  · rintro rfl
    exact .start

theorem concat_iff {request : ClauseRequest} :
    Accepts p (given ++ [request]) next ↔
      ∃ q, Accepts p given q ∧ (q.apply request).result = .ok next := by
  constructor
  · intro h
    generalize hall : given ++ [request] = all at h
    cases h with
    | start => exact absurd hall (List.append_ne_nil_of_right_ne_nil _ (by simp))
    | step before accepted =>
      obtain ⟨rfl, hlast⟩ := List.append_inj' hall rfl
      obtain rfl := List.singleton_inj.mp hlast
      exact ⟨_, before, accepted⟩
  · rintro ⟨q, before, accepted⟩
    exact before.step accepted

theorem trans (first : Accepts p given q) (second : Accepts q more next) :
    Accepts p (given ++ more) next := by
  induction second with
  | start => rw [List.append_nil]; exact first
  | step _ accepted ih => rw [← List.append_assoc]; exact .step ih accepted

/-- The two parts of a page are accepted one after the other, or the page is not accepted. -/
theorem of_perform {request : Request} (h : (p.perform request).result = .ok q) :
    Accepts p request.parts q := by
  cases request with
  | clause request => exact single h
  | page offset limit =>
    simp only [Pipeline.perform, Logged.andThen] at h
    cases hoffset : (p.apply (.offset offset)).result with
    | error failure => simp [hoffset] at h
    | ok middle =>
      rw [hoffset] at h
      exact .step (single hoffset) h

/-- What stays the same, and how much the history grows. -/
theorem keeps (h : Accepts p given q) :
    q.source = p.source ∧ q.origin = p.origin ∧
      q.history.length = p.history.length + given.length := by
  induction h with
  | start => simp
  | step _ accepted ih =>
    obtain ⟨r, _, rfl⟩ := Pipeline.apply_eq_ok.mp accepted
    obtain ⟨hs, ho, hl⟩ := ih
    refine ⟨hs, ho, ?_⟩
    simp only [Pipeline.extended, List.length_append, List.length_singleton, hl]
    omega

/-- **Every clause of the history was resolved on the snapshot before it**, by the request that
    was accepted at its place. -/
theorem resolved (h : Accepts p given q) (fresh : p.history = []) {i : Nat} {r : Resolved}
    (hr : q.history[i]? = some r) :
    ∃ request before, given[i]? = some request ∧ q.snapshots[i]? = some before ∧
      before.resolve request = .ok r := by
  induction h with
  | start => simp [fresh] at hr
  | @step given q next request before accepted ih =>
    have hlen : q.history.length = given.length := by simpa [fresh] using before.keeps.2.2
    obtain ⟨last, hlast, rfl⟩ := Pipeline.apply_eq_ok.mp accepted
    rw [Pipeline.snapshots_extended]
    have hr' : (q.history ++ [last])[i]? = some r := hr
    by_cases hi : i < q.history.length
    · rw [List.getElem?_append_left hi] at hr'
      obtain ⟨request', before', hg, hb, hres⟩ := ih hr'
      have hb' := (List.getElem?_eq_some_iff.mp hb).1
      refine ⟨request', before', ?_, ?_, hres⟩
      · rw [List.getElem?_append_left (by omega)]; exact hg
      · rw [List.getElem?_append_left hb']; exact hb
    · -- the clause is the last one, and the schema of `q` is the snapshot before it
      rw [List.getElem?_append_right (by omega)] at hr'
      have hi' : i = q.history.length := by
        have := (List.getElem?_eq_some_iff.mp hr').1
        simp at this
        omega
      subst hi'
      simp at hr'
      subst hr'
      refine ⟨request, q.schema, by simp [hlen], ?_, hlast⟩
      have hsnap : q.snapshots.length = q.history.length + 1 := by simp [Pipeline.snapshots]
      have hs := q.getLast?_snapshots
      rw [List.getLast?_eq_getElem?, hsnap] at hs
      rw [List.getElem?_append_left (by omega)]
      exact hs

/-- **An invariant of schemas along accepted requests**, with what it gives for each clause. -/
theorem invariant {P : Schema → Prop} {Q : Clause → Prop} (h : Accepts p given q)
    (fresh : p.history = []) (origin : P p.origin)
    (step : ∀ s, P s → ∀ request ∈ given, ∀ r, s.resolve request = .ok r →
      P r.schema ∧ Q r.clause) :
    (∀ s ∈ q.snapshots, P s) ∧ ∀ c ∈ q.clauses, Q c := by
  induction h with
  | start => simp [Pipeline.snapshots, Pipeline.clauses, fresh, origin]
  | @step given q next request before accepted ih =>
    obtain ⟨hP, hQ⟩ := ih fun s hs g hg => step s hs g (List.mem_append_left _ hg)
    obtain ⟨r, hr, rfl⟩ := Pipeline.apply_eq_ok.mp accepted
    obtain ⟨hrP, hrQ⟩ := step q.schema (hP _ q.schema_mem_snapshots) request (by simp) r hr
    refine ⟨fun s hs => ?_, fun c hc => ?_⟩
    · rw [Pipeline.snapshots_extended, List.mem_append, List.mem_singleton] at hs
      rcases hs with hs | rfl
      · exact hP s hs
      · exact hrP
    · rw [Pipeline.clauses_extended, List.mem_append, List.mem_singleton] at hc
      rcases hc with hc | rfl
      · exact hQ c hc
      · exact hrQ

/-- **Two runs side by side.** Where one step keeps a relation between schemas, the related requests
    are accepted as well, and the clauses and snapshots are related one by one. -/
theorem simulation {R : Schema → Schema → Prop} {A : ClauseRequest → ClauseRequest → Prop}
    {K : Clause → Clause → Prop} {p' : Pipeline} {given' : List ClauseRequest}
    (h : Accepts p given q) (fresh : p.history = []) (fresh' : p'.history = [])
    (origin : R p.origin p'.origin) (requests : List.Forall₂ A given given')
    (step : ∀ s s', R s s' → ∀ request request', A request request' → ∀ r,
      s.resolve request = .ok r →
      ∃ r', s'.resolve request' = .ok r' ∧ K r.clause r'.clause ∧ R r.schema r'.schema) :
    ∃ q', Accepts p' given' q' ∧ R q.schema q'.schema ∧
      List.Forall₂ K q.clauses q'.clauses ∧ List.Forall₂ R q.snapshots q'.snapshots := by
  induction h generalizing given' with
  | start =>
    obtain rfl := List.forall₂_nil_left_iff.mp requests
    refine ⟨p', .start, ?_, ?_, ?_⟩
    · simpa [Pipeline.schema, fresh, fresh'] using origin
    · simp [Pipeline.clauses, fresh, fresh']
    · simpa [Pipeline.snapshots, fresh, fresh'] using origin
  | @step given q next request before accepted ih =>
    obtain ⟨earlier', hearlier, last', hlast, rfl⟩ := forall₂_concat_left requests
    obtain ⟨q', hq', hschema, hclauses, hsnapshots⟩ := ih hearlier
    obtain ⟨r, hr, rfl⟩ := Pipeline.apply_eq_ok.mp accepted
    obtain ⟨r', hr', hclause, hafter⟩ := step _ _ hschema _ _ hlast r hr
    refine ⟨q'.extended r', hq'.step (Pipeline.apply_eq_ok.mpr ⟨r', hr', rfl⟩), ?_, ?_, ?_⟩
    · rw [Pipeline.schema_extended, Pipeline.schema_extended]
      exact hafter
    · rw [Pipeline.clauses_extended, Pipeline.clauses_extended]
      exact List.rel_append hclauses (.cons hclause .nil)
    · rw [Pipeline.snapshots_extended, Pipeline.snapshots_extended]
      exact List.rel_append hsnapshots (.cons hafter .nil)

end Accepts

/-! ## 3. Sessions -/

namespace Session

/-- Makes requests one after the other, each to the pipeline with the given number. -/
def run (s : Session) (steps : List (Nat × Request)) : Session :=
  steps.foldl (fun s e => (s.step e.1 e.2).1) s

theorem run_concat (s : Session) (steps : List (Nat × Request)) (e : Nat × Request) :
    s.run (steps ++ [e]) = ((s.run steps).step e.1 e.2).1 := by
  simp [run]

/-- The answer to a step is that of the pipeline that the request is made to. -/
theorem step_answer (s : Session) (target : Nat) (request : Request) :
    (s.step target request).2 = s.pipelines[target]?.map fun p => p.perform request := by
  unfold step
  cases s.pipelines[target]? with
  | none => rfl
  | some p => cases hresult : (p.perform request).result <;> simp [hresult]

/-- **What one step leaves in a session**: one pipeline more if the request is accepted, and the
    same session if not. -/
theorem step_cases (s : Session) (target : Nat) (request : Request) :
    (∃ p q, s.pipelines[target]? = some p ∧ (p.perform request).result = .ok q ∧
      (s.step target request).1.pipelines = s.pipelines ++ [q]) ∨
    (s.step target request).1 = s := by
  unfold step
  cases htarget : s.pipelines[target]? with
  | none => exact .inr rfl
  | some p =>
    cases hresult : (p.perform request).result with
    | error failure => exact .inr (by simp [hresult])
    | ok q => exact .inl ⟨p, q, rfl, hresult, by simp [hresult]⟩

/-- A pipeline after a step was there before, or is what one of those became by accepting the parts
    of the request. -/
theorem mem_step {s : Session} {target : Nat} {request : Request} {q : Pipeline}
    (h : q ∈ (s.step target request).1.pipelines) :
    q ∈ s.pipelines ∨ ∃ p ∈ s.pipelines, Accepts p request.parts q := by
  rcases s.step_cases target request with ⟨p, next, hp, hnext, hstep⟩ | hstep
  · rw [hstep, List.mem_append, List.mem_singleton] at h
    rcases h with h | rfl
    · exact Or.inl h
    · exact Or.inr ⟨p, List.mem_of_getElem? hp, Accepts.of_perform hnext⟩
  · rw [hstep] at h
    exact Or.inl h

/-- **Every pipeline of a run came about from the first one**, by accepted requests that are parts
    of the requests of the run. -/
theorem run_accepts {base : Pipeline} {steps : List (Nat × Request)} {q : Pipeline}
    (h : q ∈ ((start base).run steps).pipelines) :
    ∃ given, Accepts base given q ∧ ∀ g ∈ given, ∃ e ∈ steps, g ∈ e.2.parts := by
  -- induction on the steps from the end: the last step is made to a session that a run gave
  induction steps using List.reverseRecOn generalizing q with
  | nil =>
    have hq : q = base := by simpa [run, start] using h
    subst hq
    exact ⟨[], .start, by simp⟩
  | append_singleton steps e ih =>
    rw [run_concat] at h
    rcases mem_step h with h | ⟨p, hp, hq⟩
    · obtain ⟨given, hgiven, hmem⟩ := ih h
      refine ⟨given, hgiven, fun g hg => ?_⟩
      obtain ⟨e', he', hg'⟩ := hmem g hg
      exact ⟨e', List.mem_append_left _ he', hg'⟩
    · obtain ⟨given, hgiven, hmem⟩ := ih hp
      refine ⟨given ++ e.2.parts, hgiven.trans hq, fun g hg => ?_⟩
      rcases List.mem_append.mp hg with hg | hg
      · obtain ⟨e', he', hg'⟩ := hmem g hg
        exact ⟨e', List.mem_append_left _ he', hg'⟩
      · exact ⟨e, by simp, hg⟩

end Session
end QueryPipeline
