import QueryPipeline.Dialect.Registry
import QueryPipeline.Pipeline.Basic

/-!
# Rendering by a dialect

A pipeline is rendered in a dialect that a registry may have to look up. Where there is no
renderer there is no text and nothing is told.
-/

namespace QueryPipeline.Pipeline

/-- The text of a pipeline in a dialect. -/
def renderBy (p : Pipeline) (registry : DialectRegistry) (dialect : Option DialectInput) :
    DialectRegistry × Logged String :=
  match registry.choose (dialect.getD .standard) with
  | (registry, .ok renderer) => (registry, p.render renderer)
  | (registry, .error failure) => (registry, .quiet (.error failure))

/-- The text that one clause adds in a dialect. It is told to nobody. -/
def suffixBy (registry : DialectRegistry) (c : Clause) (dialect : Option DialectInput) :
    DialectRegistry × Outcome String :=
  match registry.choose (dialect.getD .standard) with
  | (registry, chosen) => (registry, do (← chosen).renderSuffix c)

end QueryPipeline.Pipeline
