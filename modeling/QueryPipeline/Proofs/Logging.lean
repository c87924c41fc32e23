import QueryPipeline.Pipeline.Rendering
import QueryPipeline.Proofs.Branches
import QueryPipeline.Proofs.Rejections

/-!
# Logging

What is told of a run, and that nothing depends on it.

* `Pipeline.told` gives the events of a request from the request and its result;
* `Pipeline.muted` is a pipeline with nobody listening. It gives the same answers without events
  (`perform_muted`, `renderBy_muted`);
* `Workbench.run` makes requests and renders, to and of any of the pipelines obtained so far;
* **`log_faithful`**: the events of a run can be read off the same run with nobody listening.
-/

namespace QueryPipeline

/-! ## 1. What is told of a request -/

/-- The stored clause is of the kind that was asked for. -/
theorem resolve_kindName {s : Schema} {request : ClauseRequest} {r : Resolved}
    (h : s.resolve request = .ok r) : r.clause.kindName = request.kind.name := by
  cases request with
  | select columns => obtain ⟨_, _, _, _, _, rfl⟩ := resolveSelect_eq_ok.mp h; rfl
  | extend columns => obtain ⟨_, _, _, _, _, rfl⟩ := resolveExtend_eq_ok.mp h; rfl
  | rename input => obtain ⟨_, _, _, _, _, rfl⟩ := resolveRename_eq_ok.mp h; rfl
  | filter predicate => obtain ⟨_, rfl⟩ := resolveFilter_eq_ok.mp h; rfl
  | groupBy g => obtain ⟨_, _, _, _, _, _, _, _, rfl⟩ := resolveGroupBy_eq_ok.mp h; rfl
  | orderBy inputs => obtain ⟨_, _, rfl⟩ := resolveOrderBy_eq_ok.mp h; rfl
  | limit count => obtain ⟨_, rfl⟩ := resolveLimit_eq_ok.mp h; rfl
  | offset count => obtain ⟨_, rfl⟩ := resolveOffset_eq_ok.mp h; rfl
  | distinct columns => obtain ⟨_, _, _, _, rfl⟩ := resolveDistinct_eq_ok.mp h; rfl
  | join other kind condition =>
    obtain ⟨_, _, _, _, _, _, _, _, rfl⟩ := resolveJoin_eq_ok.mp h
    rfl

namespace Pipeline

variable {p q : Pipeline}

/-- The events of a request to a pipeline, by its result. A page that was refused although its
    offset is a count was refused for its limit, when the offset had been accepted already. -/
def told (p : Pipeline) : Request → Outcome Pipeline → List LogEntry
  | .clause request, .ok q => [.append request.kind.name q.schema.names]
  | .clause request, .error (.refused refusal) => [.reject request.kind.name refusal]
  | .page _ _, .ok q =>
    [.append ClauseKind.offset.name q.schema.names, .append ClauseKind.limit.name q.schema.names]
  | .page offset _, .error (.refused refusal) =>
    if offset.isCount then
      [.append ClauseKind.offset.name p.schema.names, .reject ClauseKind.limit.name refusal]
    else [.reject ClauseKind.offset.name refusal]
  | _, .error (.defect _) => []

theorem log_apply (p : Pipeline) (request : ClauseRequest) :
    (p.apply request).log =
      if p.listening then p.told (.clause request) (p.apply request).result else [] := by
  unfold apply
  cases p.schema.resolve request with
  | ok r => simp [Logged.tell, told]
  | error failure => cases failure <;> simp [Logged.tell, Logged.quiet, told]

@[simp] theorem listening_extended (p : Pipeline) (r : Resolved) :
    (p.extended r).listening = p.listening := rfl

/-- **The events of a request are told by its result.** -/
theorem log_perform (p : Pipeline) (request : Request) :
    (p.perform request).log =
      if p.listening then p.told request (p.perform request).result else [] := by
  cases request with
  | clause request => exact p.log_apply request
  | page offset limit =>
    have hoffset := p.apply_offset offset
    have hlimit := (p.extended ⟨.offset offset, p.schema⟩).apply_limit limit
    simp only [perform, Logged.andThen]
    by_cases ho : offset.isCount = true
    · rw [if_pos ho] at hoffset
      simp only [hoffset, log_apply, listening_extended]
      by_cases hl : limit.isCount = true
      · rw [if_pos hl] at hlimit
        by_cases hlistening : p.listening = true <;>
          simp [hlimit, hlistening, told, ClauseRequest.kind]
      · rw [if_neg hl] at hlimit
        by_cases hlistening : p.listening = true <;>
          simp [hlimit, hlistening, ho, told, ClauseRequest.kind]
    · rw [if_neg ho] at hoffset
      simp only [hoffset, log_apply]
      by_cases hlistening : p.listening = true <;>
        simp [hlistening, ho, told, ClauseRequest.kind]

/-- **The events of an accepted request are about the clauses that it stored.** -/
theorem told_of_perform {request : Request} (h : (p.perform request).result = .ok q) :
    ∃ stored, q.history = p.history ++ stored ∧
      p.told request (.ok q) =
        stored.map fun r => .append r.clause.kindName r.schema.names := by
  cases request with
  | clause request =>
    obtain ⟨r, hr, rfl⟩ := apply_eq_ok.mp h
    refine ⟨[r], rfl, ?_⟩
    rw [told, schema_extended, ← resolve_kindName hr]
    rfl
  | page offset limit =>
    obtain ⟨_, rfl⟩ := perform_page_eq_ok.mp h
    refine ⟨[⟨.offset offset, p.schema⟩, ⟨.limit limit, p.schema⟩], by simp [extended], ?_⟩
    rw [told, schema_extended]
    rfl

/-- **A refusal is told as it is given**, attributed to the clause that it is told of. -/
theorem reject_of_perform {request : Request} {clause : String} {refusal : Refusal}
    (h : .reject clause refusal ∈ (p.perform request).log) :
    (p.perform request).result = .error (.refused refusal) ∧ refusal.clause = some clause := by
  rw [log_perform] at h
  have told_of : .reject clause refusal ∈ p.told request (p.perform request).result := by
    by_cases hlistening : p.listening = true
    · rwa [if_pos hlistening] at h
    · rw [if_neg hlistening] at h
      cases h
  cases request with
  | clause request =>
    cases hresult : (p.perform (.clause request)).result with
    | ok q => simp [hresult, told] at told_of
    | error failure =>
      cases failure with
      | defect message => simp [hresult, told] at told_of
      | refused raised =>
        obtain ⟨_, _, rfl⟩ := apply_eq_refused hresult
        obtain ⟨rfl, rfl⟩ : clause = request.kind.name ∧ refusal = _ := by
          simpa [hresult, told] using told_of
        exact ⟨rfl, rfl⟩
  | page offset limit =>
    rw [perform_page] at told_of ⊢
    by_cases ho : offset.isCount = true
    · by_cases hl : limit.isCount = true
      · simp [ho, hl, told] at told_of
      · obtain ⟨rfl, rfl⟩ : clause = ClauseKind.limit.name ∧ refusal = _ := by
          simpa [ho, hl, told] using told_of
        simp [ho, hl]
    · obtain ⟨rfl, rfl⟩ : clause = ClauseKind.offset.name ∧ refusal = _ := by
        simpa [ho, told] using told_of
      simp [ho]

end Pipeline

/-- A pipeline is heard by whoever heard the one that it came from. -/
theorem Accepts.listening {p q : Pipeline} {given : List ClauseRequest} (h : Accepts p given q) :
    q.listening = p.listening := by
  induction h with
  | start => rfl
  | step _ accepted ih =>
    obtain ⟨r, _, rfl⟩ := Pipeline.apply_eq_ok.mp accepted
    exact ih

/-! ## 2. Nobody listening -/

/-- The same pipeline with nobody listening. -/
def Pipeline.muted (p : Pipeline) : Pipeline := { p with listening := false }

/-- An answer without its events, with nobody listening to the pipeline in it. -/
def Logged.muted (answer : Logged Pipeline) : Logged Pipeline :=
  .quiet (answer.result.map Pipeline.muted)

theorem Logged.muted_andThen {first : Logged Pipeline} {next : Pipeline → Logged Pipeline}
    (h : ∀ q, next q.muted = (next q).muted) :
    first.muted.andThen next = (first.andThen next).muted := by
  cases first with
  | mk result log =>
    cases result with
    | error failure => rfl
    | ok q =>
      simp [Logged.muted, Logged.andThen, Logged.quiet, Except.map, h]

namespace Pipeline

theorem apply_muted (p : Pipeline) (request : ClauseRequest) :
    p.muted.apply request = (p.apply request).muted := by
  have hschema : p.muted.schema = p.schema := rfl
  unfold apply
  rw [hschema]
  cases p.schema.resolve request with
  | ok r => rfl
  | error failure => cases failure <;> rfl

theorem perform_muted (p : Pipeline) (request : Request) :
    p.muted.perform request = (p.perform request).muted := by
  cases request with
  | clause request => exact p.apply_muted request
  | page offset limit =>
    rw [perform, apply_muted]
    exact Logged.muted_andThen fun q => q.apply_muted _

theorem render_muted (p : Pipeline) (r : Renderer) :
    p.muted.render r = .quiet (p.render r).result := by
  have hclauses : p.muted.clauses = p.clauses := rfl
  have hsource : p.muted.source = p.source := rfl
  unfold render Renderer.renderLogged
  rw [hclauses, hsource]
  cases r.render p.source p.clauses <;> rfl

theorem renderBy_muted (p : Pipeline) (registry : DialectRegistry)
    (dialect : Option DialectInput) :
    p.muted.renderBy registry dialect =
      ((p.renderBy registry dialect).1, .quiet (p.renderBy registry dialect).2.result) := by
  unfold renderBy
  cases registry.choose (dialect.getD .standard) with
  | mk registry chosen =>
    cases chosen with
    | error failure => rfl
    | ok renderer => simp only [render_muted]

/-- The event of a rendering, by the renderer and the text. -/
def toldOfText : Outcome Renderer → Outcome String → List LogEntry
  | .ok renderer, .ok text => [.render renderer.name text]
  | _, _ => []

/-- **The event of a rendering is told by its text.** -/
theorem log_renderBy (p : Pipeline) (registry : DialectRegistry)
    (dialect : Option DialectInput) :
    (p.renderBy registry dialect).2.log =
      if p.listening then
        toldOfText (registry.choose (dialect.getD .standard)).2
          (p.renderBy registry dialect).2.result
      else [] := by
  unfold renderBy
  cases registry.choose (dialect.getD .standard) with
  | mk registry chosen =>
    cases chosen with
    | error failure => simp [Logged.quiet, toldOfText]
    | ok renderer =>
      simp only [render, Renderer.renderLogged]
      cases renderer.render p.source p.clauses with
      | ok text => rfl
      | error failure => simp [Logged.quiet, toldOfText]

theorem reject_not_mem_renderBy (p : Pipeline) (registry : DialectRegistry)
    (dialect : Option DialectInput) {clause : String} {refusal : Refusal} :
    .reject clause refusal ∉ (p.renderBy registry dialect).2.log := by
  rw [log_renderBy]
  cases p.listening with
  | false => exact List.not_mem_nil
  | true =>
    cases (registry.choose (dialect.getD .standard)).2 <;>
      cases (p.renderBy registry dialect).2.result <;> simp [toldOfText]

end Pipeline

/-! ## 3. Runs with renderings -/

/-- The pipelines obtained so far and the registry that they are rendered by. -/
structure Workbench where
  registry : DialectRegistry
  session : Session

/-- A request to a pipeline or a rendering of one, by its number. -/
inductive Act
  | request (target : Nat) (request : Request)
  | render (target : Nat) (dialect : Option DialectInput)

/-- What an act gives; nothing where there is no pipeline of that number. -/
inductive Reply
  | nothing
  | pipeline (answer : Logged Pipeline)
  | text (answer : Logged String)

/-- The reply to a request. -/
def Reply.ofAnswer : Option (Logged Pipeline) → Reply
  | none => nothing
  | some answer => pipeline answer

/-- The events on the way to a reply. -/
def Reply.log : Reply → List LogEntry
  | nothing => []
  | pipeline answer => answer.log
  | text answer => answer.log

/-- A reply without its events, with nobody listening to the pipeline in it. -/
def Reply.muted : Reply → Reply
  | nothing => nothing
  | pipeline answer => pipeline answer.muted
  | text answer => text (.quiet answer.result)

/-- The same pipelines with nobody listening. -/
def Session.muted (s : Session) : Session := ⟨s.pipelines.map Pipeline.muted⟩

namespace Workbench

/-- The same pipelines with nobody listening. -/
def muted (w : Workbench) : Workbench := ⟨w.registry, w.session.muted⟩

/-- Makes a request or renders. -/
def act (w : Workbench) : Act → Workbench × Reply
  | .request target request =>
    (⟨w.registry, (w.session.step target request).1⟩,
      .ofAnswer (w.session.step target request).2)
  | .render target dialect =>
    match w.session.pipelines[target]? with
    | none => (w, .nothing)
    | some p =>
      (⟨(p.renderBy w.registry dialect).1, w.session⟩, .text (p.renderBy w.registry dialect).2)

/-- Acts one after the other, with their replies. -/
def run (w : Workbench) : List Act → Workbench × List Reply
  | [] => (w, [])
  | a :: rest => (((w.act a).1.run rest).1, (w.act a).2 :: ((w.act a).1.run rest).2)

/-- The events of an act, by its reply. -/
def told (w : Workbench) : Act → Reply → List LogEntry
  | .request target request, .pipeline answer =>
    match w.session.pipelines[target]? with
    | none => []
    | some p => p.told request answer.result
  | .render _ dialect, .text answer =>
    Pipeline.toldOfText (w.registry.choose (dialect.getD .standard)).2 answer.result
  | _, _ => []

/-- The events of acts one after the other, by their replies. -/
def toldOf (w : Workbench) : List Act → List (List LogEntry)
  | [] => []
  | a :: rest => w.told a (w.act a).2 :: (w.act a).1.toldOf rest

end Workbench

/-! ## 4. One act -/

theorem Pipeline.told_muted (p : Pipeline) (request : Request) (result : Outcome Pipeline) :
    p.muted.told request (result.map Pipeline.muted) = p.told request result := by
  cases request <;> rcases result with (refusal | message) | q <;> rfl

theorem Session.getElem?_muted (s : Session) (target : Nat) :
    s.muted.pipelines[target]? = s.pipelines[target]?.map Pipeline.muted := List.getElem?_map

theorem Session.step_muted (s : Session) (target : Nat) (request : Request) :
    s.muted.step target request =
      ((s.step target request).1.muted, (s.step target request).2.map Logged.muted) := by
  have hget := s.getElem?_muted target
  unfold step
  cases htarget : s.pipelines[target]? with
  | none =>
    rw [htarget] at hget
    rw [hget]
    rfl
  | some p =>
    rw [htarget] at hget
    simp only [hget, Option.map_some, Pipeline.perform_muted]
    cases hresult : (p.perform request).result with
    | error failure => simp [Logged.muted, Logged.quiet, hresult, Except.map]
    | ok q => simp [Logged.muted, Logged.quiet, hresult, Except.map, muted]

namespace Workbench

variable {w : Workbench}

/-- Somebody listens to each of the pipelines. -/
def Heard (w : Workbench) : Prop := ∀ p ∈ w.session.pipelines, p.listening = true

/-- **An act gives the same with nobody listening.** -/
theorem act_muted (w : Workbench) (a : Act) :
    w.muted.act a = ((w.act a).1.muted, (w.act a).2.muted) := by
  cases a with
  | request target request =>
    have hstep := w.session.step_muted target request
    simp only [act, muted, hstep]
    cases (w.session.step target request).2 <;> rfl
  | render target dialect =>
    have hget := w.session.getElem?_muted target
    simp only [act, muted, hget]
    cases w.session.pipelines[target]? with
    | none => rfl
    | some p =>
      simp only [Option.map_some, Pipeline.renderBy_muted]
      rfl

theorem act_heard (h : w.Heard) (a : Act) : (w.act a).1.Heard := by
  cases a with
  | request target request =>
    intro q hq
    rcases Session.mem_step hq with hq | ⟨p, hp, haccepts⟩
    · exact h q hq
    · rw [haccepts.listening]
      exact h p hp
  | render target dialect =>
    simp only [act]
    cases w.session.pipelines[target]? <;> exact h

/-- What the reply to an act is. -/
theorem act_cases (w : Workbench) (a : Act) :
    (w.act a).2 = .nothing ∨
      (∃ target request p, a = .request target request ∧
        w.session.pipelines[target]? = some p ∧ (w.act a).2 = .pipeline (p.perform request)) ∨
      ∃ target dialect p, a = .render target dialect ∧
        w.session.pipelines[target]? = some p ∧
          (w.act a).2 = .text (p.renderBy w.registry dialect).2 := by
  cases a with
  | request target request =>
    simp only [act, Session.step_answer]
    cases htarget : w.session.pipelines[target]? with
    | none => exact .inl rfl
    | some p => exact .inr (.inl ⟨target, request, p, rfl, htarget, rfl⟩)
  | render target dialect =>
    simp only [act]
    cases htarget : w.session.pipelines[target]? with
    | none => exact .inl rfl
    | some p => exact .inr (.inr ⟨target, dialect, p, rfl, htarget, rfl⟩)

/-- **The events of an act are told by its reply.** -/
theorem log_act (h : w.Heard) (a : Act) : (w.act a).2.log = w.muted.told a (w.muted.act a).2 := by
  rw [act_muted]
  rcases w.act_cases a with hreply | ⟨target, request, p, rfl, htarget, hreply⟩ |
    ⟨target, dialect, p, rfl, htarget, hreply⟩
  · rw [hreply]
    cases a <;> rfl
  · have hlistening := h p (List.mem_of_getElem? htarget)
    have hmuted : w.muted.session.pipelines[target]? = some p.muted := by
      rw [muted, Session.getElem?_muted, htarget, Option.map_some]
    rw [hreply, Reply.log, Pipeline.log_perform, if_pos hlistening]
    simp only [Reply.muted, told, hmuted]
    exact (p.told_muted request _).symm
  · have hlistening := h p (List.mem_of_getElem? htarget)
    rw [hreply, Reply.log, Pipeline.log_renderBy, if_pos hlistening]
    rfl

/-- What is told of an accepted request are the last clauses of the pipeline that it gave. -/
theorem stored_of_act (h : w.Heard) {a : Act} {q : Pipeline} {log : List LogEntry}
    (hreply : (w.act a).2 = .pipeline ⟨.ok q, log⟩) :
    ∃ before stored, q.history = before ++ stored ∧
      log = stored.map fun r => .append r.clause.kindName r.schema.names := by
  rcases w.act_cases a with hnone | ⟨target, request, p, rfl, htarget, hrequest⟩ |
    ⟨target, dialect, p, rfl, htarget, hrender⟩
  · rw [hreply] at hnone
    cases hnone
  · have hanswer : p.perform request = ⟨.ok q, log⟩ :=
      Reply.pipeline.inj (hrequest.symm.trans hreply)
    have hlog := p.log_perform request
    rw [if_pos (h p (List.mem_of_getElem? htarget)), hanswer] at hlog
    obtain ⟨stored, hhistory, htold⟩ := Pipeline.told_of_perform (congrArg Logged.result hanswer)
    exact ⟨p.history, stored, hhistory, hlog.trans htold⟩
  · rw [hreply] at hrender
    cases hrender

/-- What is told as refused is the reply. -/
theorem reject_of_act {a : Act} {clause : String} {refusal : Refusal}
    (h : .reject clause refusal ∈ (w.act a).2.log) :
    refusal.clause = some clause ∧
      ∃ log, (w.act a).2 = .pipeline ⟨.error (.refused refusal), log⟩ := by
  rcases w.act_cases a with hnone | ⟨target, request, p, rfl, htarget, hrequest⟩ |
    ⟨target, dialect, p, rfl, htarget, hrender⟩
  · rw [hnone] at h
    cases h
  · rw [hrequest] at h ⊢
    obtain ⟨hresult, hclause⟩ := Pipeline.reject_of_perform h
    exact ⟨hclause, (p.perform request).log, by rw [← hresult]⟩
  · rw [hrender] at h
    exact absurd h (p.reject_not_mem_renderBy _ _)

end Workbench

/-! ## 5. Whole runs -/

/-- **The log is faithful and has no influence.** In a run of requests and renderings on pipelines
    to which somebody listens, the events are those that the replies of the same run with nobody
    listening tell of. That run gives the same pipelines, failures and texts, and somebody listens
    to each new pipeline as well. What is told as accepted are the clauses and schemas that were
    stored, and what is told as refused is the failure that was given, attributed to the clause that
    it is told of. -/
theorem log_faithful (w : Workbench) (heard : w.Heard) (acts : List Act) :
    (w.run acts).2.map Reply.log = w.muted.toldOf acts ∧
      w.muted.run acts = ((w.run acts).1.muted, (w.run acts).2.map Reply.muted) ∧
      (w.run acts).1.Heard ∧
      (∀ q log, .pipeline ⟨.ok q, log⟩ ∈ (w.run acts).2 →
        ∃ before stored, q.history = before ++ stored ∧
          log = stored.map fun r => .append r.clause.kindName r.schema.names) ∧
      ∀ reply ∈ (w.run acts).2, ∀ clause refusal, .reject clause refusal ∈ reply.log →
        refusal.clause = some clause ∧
          ∃ log, reply = .pipeline ⟨.error (.refused refusal), log⟩ := by
  induction acts generalizing w with
  | nil => exact ⟨rfl, rfl, heard, by simp [Workbench.run], by simp [Workbench.run]⟩
  | cons a rest ih =>
    obtain ⟨hlogs, hmuted, hheard, hstored, hrejects⟩ :=
      ih (w.act a).1 (Workbench.act_heard heard a)
    have hact := w.act_muted a
    refine ⟨?_, ?_, hheard, ?_, ?_⟩
    · rw [Workbench.run, Workbench.toldOf, List.map_cons, hlogs, ← Workbench.log_act heard, hact]
    · rw [Workbench.run, hact, hmuted]
      rfl
    · intro q log hreply
      rcases List.mem_cons.mp hreply with hreply | hreply
      · exact Workbench.stored_of_act heard hreply.symm
      · exact hstored q log hreply
    · intro reply hreply
      rcases List.mem_cons.mp hreply with rfl | hreply
      · exact fun clause refusal => Workbench.reject_of_act
      · exact hrejects reply hreply

/-- A grouping by team that selects an expression beside the team. -/
def teamsWith (selection : Expr) : ClauseRequest :=
  .groupBy ⟨["team"], [.column "team", .named "beside" selection], none⟩

/-- A page that is refused for its limit, one that is refused for its offset, one that is accepted,
    a grouping that is refused, a node that no rule knows, the same node and a call without a
    signature in groupings, each before a column that is not grouped, a call of a function that the
    record of signatures answers all the same, and renderings by a key that is not registered, by
    the standard dialect and of a clause that has no text. -/
def toldActs : List Act :=
  [.request 0 (.page ⟨0x4034000000000000⟩ ⟨0xBFF0000000000000⟩),
    .request 0 (.page ⟨0xBFF0000000000000⟩ ⟨0x4024000000000000⟩),
    .request 0 (.page ⟨0x4034000000000000⟩ ⟨0x4024000000000000⟩),
    .request 1 (.clause elderTeams),
    .request 1 (.clause (.filter (.foreign "Widget" "\x7b\x7d"))),
    .request 1 (.clause (teamsWith
      (.binary (.arithmetic .add) (.foreign "Widget" "\x7b\x7d") (.column "age")))),
    .request 1 (.clause (teamsWith
      (.binary (.arithmetic .add) (.call (.other "median") []) (.column "age")))),
    .request 1 (.clause (teamsWith (.call (.other "constructor") []))),
    .render 1 (some (.key "nope")),
    .render 1 none,
    .request 0 (.clause (.distinct [.name "name"])),
    .render 2 none]

theorem log_faithful_people :
    Workbench.Heard ⟨.empty, .start .ofPeople⟩ ∧
      (Workbench.run ⟨.empty, .start .ofPeople⟩ toldActs).2.map Reply.log =
        [[.append "Offset" ["id", "name", "age", "team"],
            .reject "Limit" ⟨.invalidValue "-1" (.notACount "limit"), some "Limit"⟩],
          [.reject "Offset" ⟨.invalidValue "-1" (.notACount "offset"), some "Offset"⟩],
          [.append "Offset" ["id", "name", "age", "team"],
            .append "Limit" ["id", "name", "age", "team"]],
          [.reject "GroupBy" ⟨.invalidReference "age" .notGrouped, some "GroupBy"⟩],
          [],
          [],
          [],
          [.reject "GroupBy" ⟨.typeMismatch "constructor" (.argumentCount none 0), some "GroupBy"⟩],
          [],
          [.render "pure-relation" "company.people\n->drop(20)\n->take(10)"],
          [.append "Distinct" ["name"]],
          []] := by
  have heard : Workbench.Heard ⟨.empty, .start .ofPeople⟩ := by
    intro p hp
    rw [List.mem_singleton.mp hp]
    rfl
  obtain ⟨hlogs, _⟩ := log_faithful ⟨.empty, .start .ofPeople⟩ heard toldActs
  refine ⟨heard, ?_⟩
  rw [hlogs]
  decide +kernel

end QueryPipeline
