import QueryPipeline.Pipeline.Basic

/-!
# Sessions

Several pipelines that grow out of one: each request is made to one of the pipelines obtained so
far, and an accepted request adds the pipeline that it gives. Pipelines are never changed or
removed, so a session branches freely.
-/

namespace QueryPipeline

/-- The pipelines obtained so far, in the order in which they were obtained. -/
structure Session where
  pipelines : List Pipeline

namespace Session

/-- A session with one pipeline. -/
def start (p : Pipeline) : Session := ⟨[p]⟩

/-- The number of the newest pipeline. -/
def newest (s : Session) : Nat := s.pipelines.length - 1

/-- Makes a request to a pipeline by its number. A number without a pipeline changes nothing. -/
def step (s : Session) (target : Nat) (request : Request) : Session × Option (Logged Pipeline) :=
  match s.pipelines[target]? with
  | none => (s, none)
  | some p =>
    let answer := p.perform request
    match answer.result with
    | .ok q => (⟨s.pipelines ++ [q]⟩, some answer)
    | .error _ => (s, some answer)

end Session
end QueryPipeline
