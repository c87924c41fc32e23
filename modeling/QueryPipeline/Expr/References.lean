import QueryPipeline.Function.Signature

/-!
# References

The columns that an expression mentions, from left to right and with repetitions.

* `Expr.references` lists every mention at any depth;
* `Expr.looseReferences` leaves out the arguments of aggregate calls: the mentions that a grouping
  must find among its keys;
* `Expr.walk` goes through the mentions of the one or the other sort and checks each. It goes no
  further than a node of unknown kind, which has no children to go through, and if it is to leave
  out aggregates, than a call of a function without a signature.
-/

namespace QueryPipeline
namespace Expr

mutual

/-- The columns mentioned in an expression. A node of unknown kind has no children to ask for: none
    is listed for it, and a walk breaks off there. -/
def references : Expr → List String
  | literal _ | valueList _ | foreign _ _ => []
  | column name => [name]
  | unary _ operand => operand.references
  | binary _ left right => left.references ++ right.references
  | call _ args => referencesAll args
  | named _ inner => inner.references
  | conditional test yes no => test.references ++ (yes.references ++ no.references)
  | ordering _ term => term.references
  | grouping keys selections none => referencesAll keys ++ referencesAll selections
  | grouping keys selections (some having) =>
    referencesAll keys ++ (referencesAll selections ++ having.references)
  | joining condition => condition.references

/-- The columns mentioned in a list of expressions. -/
def referencesAll : List Expr → List String
  | [] => []
  | e :: rest => e.references ++ referencesAll rest

end

mutual

/-- The columns mentioned outside of the arguments of aggregate calls. -/
def looseReferences : Expr → List String
  | literal _ | valueList _ | foreign _ _ => []
  | column name => [name]
  | unary _ operand => operand.looseReferences
  | binary _ left right => left.looseReferences ++ right.looseReferences
  | call function args => if function.isAggregate then [] else looseReferencesAll args
  | named _ inner => inner.looseReferences
  | conditional test yes no =>
    test.looseReferences ++ (yes.looseReferences ++ no.looseReferences)
  | ordering _ term => term.looseReferences
  | grouping keys selections none => looseReferencesAll keys ++ looseReferencesAll selections
  | grouping keys selections (some having) =>
    looseReferencesAll keys ++ (looseReferencesAll selections ++ having.looseReferences)
  | joining condition => condition.looseReferences

/-- The columns that a list of expressions mentions outside of the arguments of aggregate calls. -/
def looseReferencesAll : List Expr → List String
  | [] => []
  | e :: rest => e.looseReferences ++ looseReferencesAll rest

end

/-- Whether a walk goes on to the arguments of a call: always if it goes within aggregates, and else
    if the signature of the function, which it looks up, is not that of an aggregate. -/
def entersCall (within : Bool) (function : FunctionName) : Outcome Bool :=
  if within then .ok true
  else do
    function.requireSignature "aggregate"
    return !function.isAggregate

mutual

/-- Checks the columns that an expression mentions, from left to right. -/
def walk (within : Bool) (check : String → Outcome Unit) : Expr → Outcome Unit
  | literal _ | valueList _ => .ok ()
  | column name => check name
  | unary _ operand => walk within check operand
  | binary _ left right => do
    walk within check left
    walk within check right
  | call function args => do
    let enters ← entersCall within function
    if enters then walkAll within check args else .ok ()
  | named _ inner => walk within check inner
  | conditional test yes no => do
    walk within check test
    walk within check yes
    walk within check no
  | ordering _ term => walk within check term
  | grouping keys selections none => do
    walkAll within check keys
    walkAll within check selections
  | grouping keys selections (some having) => do
    walkAll within check keys
    walkAll within check selections
    walk within check having
  | joining condition => walk within check condition
  | foreign _ _ => .error (.notIterable "childExpressions")

/-- Checks the columns that a list of expressions mentions, from left to right. -/
def walkAll (within : Bool) (check : String → Outcome Unit) : List Expr → Outcome Unit
  | [] => .ok ()
  | e :: rest => do
    walk within check e
    walkAll within check rest

end

end Expr
end QueryPipeline
