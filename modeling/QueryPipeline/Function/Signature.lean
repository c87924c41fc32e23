import QueryPipeline.Expr.Basic
import QueryPipeline.Record

/-!
# Signatures

How many arguments a function takes, which types it accepts and which type it gives. The five
aggregates take one argument, `modulo` and `power` take two.

A name without rules has no signature, and to ask for a property of it is a defect
(`requireSignature`). Only the reserved words are answered by the record of signatures all the same:
with something that has no number of arguments, so that no call of them is accepted, and that is no
aggregate.
-/

namespace QueryPipeline
namespace FunctionName

/-- The number of arguments of a function that has rules. -/
def arity? : FunctionName → Option Nat
  | count | sum | avg | min | max => some 1
  | modulo | power => some 2
  | other _ => none

/-- Reads a property of the signature of a function, which must be there. -/
def requireSignature (f : FunctionName) (property : String) : Outcome Unit :=
  match f with
  | other text =>
    if reservedWords.contains text then .ok () else .error (.unreadable property)
  | _ => .ok ()

/-- The type that an aggregate gives for the type of its argument. -/
def aggregateType (f : FunctionName) (arg : ColumnType) : Except TypeFault ColumnType :=
  match f with
  | sum =>
    if arg.isNumeric then .ok (if arg = .double then .double else .long)
    else .error (.nonNumericArgument f.text arg)
  | avg => if arg.isNumeric then .ok .double else .error (.nonNumericArgument f.text arg)
  | min | max => if arg = .boolean then .error (.booleanArgument f.text) else .ok arg
  | _ => .ok .long

/-- The type that a function of two arguments gives for their types. -/
def scalarType (f : FunctionName) (left right : ColumnType) : Except TypeFault ColumnType :=
  match f with
  | modulo =>
    if left.isIntegral && right.isIntegral then .ok (left.widen right)
    else .error (.nonIntegralArguments f.text left right)
  | _ =>
    if !left.isNumeric then .error (.nonNumericArgument f.text left)
    else if !right.isNumeric then .error (.nonNumericArgument f.text right)
    else .ok .double

/-- The type that a function gives for the types of its arguments; arguments beyond the ones it
    takes are not looked at. -/
def resultType (f : FunctionName) (args : List ColumnType) : Except TypeFault ColumnType :=
  match f.arity?, args with
  | some 1, arg :: _ => f.aggregateType arg
  | some 1, [] => .error (.missingArgument f.text "one argument")
  | some _, left :: right :: _ => f.scalarType left right
  | some _, _ => .error (.missingArgument f.text "two arguments")
  | none, args => .error (.argumentCount none args.length)

end FunctionName
end QueryPipeline
