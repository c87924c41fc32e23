import QueryPipeline.Clause.Basic

/-!
# Renderers

A renderer turns the source and the clauses of a pipeline into text, and tells which text one
clause adds.
-/

namespace QueryPipeline

/-- Turns a pipeline into text. -/
structure Renderer where
  /-- The name under which the renderer shows up in logs and refusals. -/
  name : String
  render : TableName → List Clause → Outcome String
  /-- The text that one clause adds. -/
  renderSuffix : Clause → Outcome String

/-- The texts of several clauses, one after the other, up to the first failure. -/
def suffixTexts (renderSuffix : Clause → Outcome String) : List Clause → Outcome String
  | [] => .ok ""
  | c :: rest => do
    let text ← renderSuffix c
    let more ← suffixTexts renderSuffix rest
    return text ++ more

end QueryPipeline
