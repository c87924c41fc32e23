import QueryPipeline.Dialect.Renderer

/-!
# Logs

What a pipeline tells while it is built and rendered. A `Logged` result carries the events up to
and including its failure, if it fails. Whoever listens only takes note of an event: a listener
that fails, or that builds and renders pipelines itself, is outside of the model.
-/

namespace QueryPipeline

/-- An event. -/
inductive LogEntry
  /-- A clause was accepted; the names of the columns after it. -/
  | append (clause : String) (columns : List String)
  /-- A clause was refused. -/
  | reject (clause : String) (refusal : Refusal)
  | render (dialect text : String)
  deriving DecidableEq, Repr

/-- A result or failure, with the events on the way to it. -/
structure Logged (α : Type) where
  result : Outcome α
  log : List LogEntry

namespace Logged

variable {α β : Type}

/-- A result without events. -/
def quiet (result : Outcome α) : Logged α := ⟨result, []⟩

/-- A result with one event, which is dropped when nobody listens. To be told of an event always
    succeeds and does nothing else, so the result does not depend on it. -/
def tell (listening : Bool) (entry : LogEntry) (result : Outcome α) : Logged α :=
  ⟨result, if listening then [entry] else []⟩

/-- Goes on with a result; the events of both parts stand one after the other. -/
def andThen (first : Logged α) (next : α → Logged β) : Logged β :=
  match first.result with
  | .ok value =>
    let second := next value
    ⟨second.result, first.log ++ second.log⟩
  | .error failure => ⟨.error failure, first.log⟩

end Logged

/-- Renders and tells of the text if there is one. -/
def Renderer.renderLogged (r : Renderer) (listening : Bool) (source : TableName)
    (clauses : List Clause) : Logged String :=
  match r.render source clauses with
  | .ok text => .tell listening (.render r.name text) (.ok text)
  | .error failure => .quiet (.error failure)

end QueryPipeline
