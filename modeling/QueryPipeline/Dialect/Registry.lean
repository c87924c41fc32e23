import QueryPipeline.Dialect.Arrow

/-!
# The registry of dialects

Dialects by key. The built-in dialect is put in only when a dialect is first asked for, and only
if its key is still free.

* a key is registered with a factory, which makes the same renderer or fails each time it is asked;
* a pipeline is rendered in a dialect that is given by its key or as a renderer
  (`DialectInput`), and in the built-in one if none is given.
-/

namespace QueryPipeline

/-- Makes a renderer whenever it is asked for one, or fails to. -/
structure DialectFactory where
  /-- The outcome of every call. It is fixed: the model is restricted to factories that make the
      same renderer each time, or fail in the same way, and that do not call the registry. -/
  make : Outcome Renderer

/-- A factory that always makes the same renderer. -/
instance : Coe Renderer DialectFactory := ⟨fun renderer => ⟨.ok renderer⟩⟩

/-- Factories by key, the latest first, and whether the built-in one was put in. -/
structure DialectRegistry where
  entries : List (String × DialectFactory)
  ready : Bool

/-- A dialect given by its key or as a renderer. -/
inductive DialectInput
  | key (key : String)
  | renderer (renderer : Renderer)

/-- The dialect that is meant where none is given. -/
def DialectInput.standard : DialectInput := .renderer ({} : Arrow).renderer

namespace DialectRegistry

/-- The registry without dialects. -/
def empty : DialectRegistry := ⟨[], false⟩

/-- The factory under a key. -/
def find? (r : DialectRegistry) (key : String) : Option DialectFactory :=
  (r.entries.find? fun e => e.1 == key).map Prod.snd

/-- Adds or replaces the factory of a key. -/
def register (r : DialectRegistry) (key : String) (factory : DialectFactory) : DialectRegistry :=
  { r with entries := (key, factory) :: r.entries }

/-- Removes all dialects; the built-in one is put in again when it is needed. -/
def clear (_ : DialectRegistry) : DialectRegistry := empty

/-- Puts the built-in dialect in, once, and not over another one. -/
def prepare (r : DialectRegistry) : DialectRegistry :=
  if r.ready then r
  else
    let r := { r with ready := true }
    if (r.find? Arrow.name).isSome then r
    else r.register Arrow.name ({} : Arrow).renderer

/-- The renderer that the factory of a key makes; an unknown key is refused. -/
def create (r : DialectRegistry) (key : String) : DialectRegistry × Outcome Renderer :=
  let r := r.prepare
  match r.find? key with
  | some factory => (r, factory.make)
  | none => (r, refuse (.invalidValue key .unregisteredDialect))

/-- The renderer that is meant by a key or a renderer. -/
def choose (r : DialectRegistry) : DialectInput → DialectRegistry × Outcome Renderer
  | .key key => r.create key
  | .renderer renderer => (r, .ok renderer)

end DialectRegistry
end QueryPipeline
