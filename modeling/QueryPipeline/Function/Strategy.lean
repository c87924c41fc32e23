import QueryPipeline.Expr.Basic

/-!
# Writing function calls

Which text a dialect gives to a function call is settled by a strategy: for each function a
renderer, or none if the dialect has no such function.

* a `Fragment` is the text of a node, absent for the few nodes that a dialect passes over;
* a `FunctionRegistry` collects renderers by function, where a later one replaces an earlier one;
* the standard renderers keep the names of the aggregates and write `modulo` and `power` as `mod`
  and `pow`.
-/

namespace QueryPipeline

/-! ## 1. Fragments -/

/-- The text of a node, absent for a node that a dialect passes over. -/
abbrev Fragment := Option String

namespace Fragment

/-- A fragment inside a longer text, where an absent one leaves a word in its place. -/
def inline (f : Fragment) : String := f.getD "undefined"

/-- Fragments in a list, where an absent one leaves its place empty. -/
def listed (separator : String) (fs : List Fragment) : String :=
  separator.intercalate (fs.map fun f => f.getD "")

end Fragment

/-! ## 2. Renderers of calls -/

/-- A call with the texts of its arguments. -/
structure CallSite where
  function : FunctionName
  args : List Expr
  texts : List Fragment

/-- The text of an argument. -/
def CallSite.argument (c : CallSite) (i : Nat) : String := Fragment.inline (c.texts[i]?.getD none)

/-- Gives a call its text. -/
abbrev CallRenderer := CallSite → String

/-- Writes a call of one argument under the given name. -/
def unaryRenderer (name : String) : CallRenderer :=
  fun c => name ++ "(" ++ c.argument 0 ++ ")"

/-- Writes a call of two arguments under the given name. -/
def binaryRenderer (name : String) : CallRenderer :=
  fun c => name ++ "(" ++ c.argument 0 ++ ", " ++ c.argument 1 ++ ")"

/-- A renderer for each function that a dialect has. -/
abbrev FunctionStrategy := FunctionName → Option CallRenderer

/-- No function has a renderer. -/
def FunctionStrategy.none : FunctionStrategy := fun _ => Option.none

/-! ## 3. Registries -/

/-- Renderers by function, the latest first. -/
structure FunctionRegistry where
  entries : List (FunctionName × CallRenderer)

namespace FunctionRegistry

/-- The registry without renderers. -/
def empty : FunctionRegistry := ⟨[]⟩

/-- Adds or replaces the renderer of a function. -/
def add (r : FunctionRegistry) (f : FunctionName) (renderer : CallRenderer) : FunctionRegistry :=
  ⟨(f, renderer) :: r.entries⟩

/-- Adds several renderers, one after the other. -/
def register (r : FunctionRegistry) (definitions : List (FunctionName × CallRenderer)) :
    FunctionRegistry :=
  definitions.foldl (fun r d => r.add d.1 d.2) r

/-- The renderer of a function. -/
def get? (r : FunctionRegistry) (f : FunctionName) : Option CallRenderer :=
  (r.entries.find? fun e => e.1 = f).map Prod.snd

/-- The renderers of the functions that have rules. -/
def standardDefinitions : List (FunctionName × CallRenderer) :=
  [(.count, unaryRenderer "count"), (.sum, unaryRenderer "sum"), (.avg, unaryRenderer "avg"),
    (.min, unaryRenderer "min"), (.max, unaryRenderer "max"),
    (.modulo, binaryRenderer "mod"), (.power, binaryRenderer "pow")]

/-- Adds the standard renderers, in place of others for the same functions. -/
def withStandard (r : FunctionRegistry) : FunctionRegistry := r.register standardDefinitions

/-- The strategy that looks renderers up in a registry. -/
def strategy (r : FunctionRegistry) : FunctionStrategy := r.get?

end FunctionRegistry

/-- The strategy with the standard renderers alone. -/
def FunctionStrategy.standard : FunctionStrategy := FunctionRegistry.empty.withStandard.strategy

end QueryPipeline
