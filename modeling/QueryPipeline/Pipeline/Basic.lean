import QueryPipeline.Clause.Resolve
import QueryPipeline.Pipeline.Log

/-!
# Pipelines

A pipeline is a source table and the clauses accepted since, each with the schema after it. A
request either gives a longer pipeline or is refused, and the pipeline it was made to stays as it
was.

* `Pipeline.clauses`, `snapshots` and `schema` are views of the history;
* `Pipeline.apply` answers a request for one clause, `Pipeline.perform` any request;
* refusals are attributed to the kind of clause that was asked for.
-/

namespace QueryPipeline

/-- A source with its schema, and the accepted clauses with the schemas after them. -/
structure Pipeline where
  source : TableName
  origin : Schema
  history : List Resolved
  /-- Whether there is a listener, which takes note of each event and does nothing else. -/
  listening : Bool

namespace Pipeline

/-- The pipeline that starts at a table. -/
def ofTable (t : Table) (listening : Bool) : Outcome Pipeline := do
  let schema ← t.schema
  return ⟨t.name, schema, [], listening⟩

/-! ## 1. Views -/

/-- The accepted clauses, in order. -/
def clauses (p : Pipeline) : List Clause := p.history.map Resolved.clause

/-- The schema of the source, then the schema after each clause. -/
def snapshots (p : Pipeline) : List Schema := p.origin :: p.history.map Resolved.schema

/-- The schema after the last clause. -/
def schema (p : Pipeline) : Schema :=
  match p.history.getLast? with
  | some r => r.schema
  | none => p.origin

/-- The pipeline with one more clause. -/
def extended (p : Pipeline) (r : Resolved) : Pipeline := { p with history := p.history ++ [r] }

/-! ## 2. Requests -/

/-- Answers a request for one clause. -/
def apply (p : Pipeline) (request : ClauseRequest) : Logged Pipeline :=
  let kind := request.kind.name
  match p.schema.resolve request with
  | .ok resolved =>
    .tell p.listening (.append kind resolved.schema.names) (.ok (p.extended resolved))
  | .error (.refused refusal) =>
    let refusal := refusal.inClause kind
    .tell p.listening (.reject kind refusal) (.error (.refused refusal))
  | .error (.defect message) => .quiet (.error (.defect message))

/-- Answers a request. A page is an offset and then a limit. -/
def perform (p : Pipeline) : Request → Logged Pipeline
  | .clause request => p.apply request
  | .page offset limit => (p.apply (.offset offset)).andThen fun q => q.apply (.limit limit)

/-! ## 3. Rendering -/

/-- The text of a pipeline. -/
def render (p : Pipeline) (r : Renderer) : Logged String :=
  r.renderLogged p.listening p.source p.clauses

end Pipeline
end QueryPipeline
