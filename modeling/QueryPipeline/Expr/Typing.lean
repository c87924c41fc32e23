import QueryPipeline.Expr.References
import QueryPipeline.Function.Signature
import QueryPipeline.Schema

/-!
# Typing

The type of an expression against a schema, or the first reason why it has none.

* operands are typed from left to right before the rule of their operator is applied
  (`BinaryOp.resultType`); only the list of a membership test has no type of its own;
* aggregate calls are accepted only where `Mode.allowAggregates` says so, and never inside the
  arguments of another aggregate call;
* lists, orderings, groupings and joins are not values and have no type.
-/

namespace QueryPipeline

/-! ## 1. Rules of the operators -/

/-- Refuses a subject for a type fault. -/
def mistyped {α : Type} (subject : String) (fault : TypeFault) : Outcome α :=
  refuse (.typeMismatch subject fault)

/-- Refuses anything but a boolean in the given role. -/
def requireBoolean (subject role : String) (type : ColumnType) : Outcome Unit :=
  if type = .boolean then .ok () else mistyped subject (.notBoolean role type)

/-- Whether a node is a string literal. -/
def Expr.isStringLiteral : Expr → Bool
  | .literal (.string _) => true
  | _ => false

/-- The type of an operator applied to operands of the given types. The pattern on the right of
    `LIKE` must be written as a literal, so the right operand itself is given too. -/
def BinaryOp.resultType (op : BinaryOp) (rightOperand : Expr) (left right : ColumnType) :
    Outcome ColumnType :=
  match op with
  | .logical _ => do
    requireBoolean op.text "left operand" left
    requireBoolean op.text "right operand" right
    return .boolean
  | .comparison .like =>
    if left ≠ .string then mistyped op.text (.patternOnNonText left)
    else if !rightOperand.isStringLiteral then mistyped op.text .patternNotLiteral
    else .ok .boolean
  | .comparison .equal | .comparison .notEqual =>
    if left.equalityComparable right then .ok .boolean
    else mistyped op.text (.notComparable left right)
  | .comparison _ =>
    if left.orderComparable right then .ok .boolean
    else mistyped op.text (.notComparable left right)
  | .arithmetic arith =>
    if !left.isNumeric || !right.isNumeric then
      mistyped op.text (.arithmeticOnNonNumeric left right)
    else
      match arith with
      | .power => .ok .double
      | .remainder =>
        if !left.isIntegral || !right.isIntegral then
          mistyped op.text (.remainderOnNonIntegral left right)
        else .ok (left.widen right)
      | _ => .ok (left.widen right)
  | .bitwise _ =>
    if !left.isIntegral || !right.isIntegral then
      mistyped op.text (.bitwiseOnNonIntegral left right)
    else .ok (left.widen right)
  | .other _ => mistyped op.text .unknownOperator

/-- Membership of a value in a list of literals: each must be comparable with the value. -/
def membershipType (op : BinaryOp) (left : ColumnType) : List Literal → Outcome ColumnType
  | [] => .ok .boolean
  | item :: rest =>
    if left.equalityComparable item.type then membershipType op left rest
    else mistyped op.text (.notComparable left item.type)

/-- Membership of a value in the node on the right, which must be a list that is not empty. -/
def BinaryOp.membershipIn (op : BinaryOp) (left : ColumnType) : Expr → Outcome ColumnType
  | .valueList [] => mistyped op.text .membershipInEmptyList
  | .valueList items => membershipType op left items
  | _ => mistyped op.text .membershipWithoutList

/-- Whether an operator tests membership. -/
def BinaryOp.isMembership : BinaryOp → Bool
  | .comparison .isIn | .comparison .notIn => true
  | _ => false

/-- The common type of the two branches of a conditional. -/
def branchType (yes no : ColumnType) : Outcome ColumnType :=
  if yes = no then .ok yes
  else if yes.isNumeric && no.isNumeric then .ok (yes.widen no)
  else if yes.family = .temporal ∧ no.family = .temporal then .ok .datetime
  else mistyped "if" (.incompatibleBranches yes no)

/-! ## 2. Calls -/

/-- Where aggregate calls may stand. -/
structure Mode where
  allowAggregates : Bool := false
  insideAggregate : Bool := false
  deriving DecidableEq, Repr

/-- Aggregates are accepted. -/
def Mode.grouped : Mode := { allowAggregates := true }

/-- The arguments of an aggregate call. -/
def Mode.argument : Mode := { insideAggregate := true }

/-- Checks the number of arguments of a call, and that an aggregate may stand there. A name without
    a signature is no reason to refuse the call: to read the number of arguments is a defect. -/
def FunctionName.checkCall (f : FunctionName) (mode : Mode) (count : Nat) : Outcome Unit := do
  f.requireSignature "arity"
  if f.arity? ≠ some count then mistyped f.text (.argumentCount f.arity? count)
  else if f.isAggregate && mode.insideAggregate then mistyped f.text .nestedAggregate
  else if f.isAggregate && !mode.allowAggregates then mistyped f.text .misplacedAggregate
  else .ok ()

/-- The mode in which the arguments of a call are typed. -/
def FunctionName.argumentMode (f : FunctionName) (mode : Mode) : Mode :=
  if f.isAggregate then .argument else mode

/-- The type of a call with arguments of the given types. -/
def FunctionName.callType (f : FunctionName) (args : List ColumnType) : Outcome ColumnType :=
  match f.resultType args with
  | .ok type => .ok type
  | .error fault => mistyped f.text fault

/-! ## 3. Expressions -/

namespace Expr

mutual

/-- The type of an expression. -/
def infer (s : Schema) (mode : Mode) : Expr → Outcome ColumnType
  | literal value => .ok value.type
  | column name => do return (← s.get name).type
  | unary op operand => do
    let type ← infer s mode operand
    if op = .not then requireBoolean op.text "NOT operand" type
    return .boolean
  | binary op left right =>
    if op.isMembership then do
      let leftType ← infer s mode left
      op.membershipIn leftType right
    else do
      let leftType ← infer s mode left
      let rightType ← infer s mode right
      op.resultType right leftType rightType
  | call f args => do
    f.checkCall mode args.length
    let types ← inferAll s (f.argumentMode mode) args
    f.callType types
  | named _ inner => infer s mode inner
  | conditional test yes no => do
    requireBoolean "if" "condition" (← infer s mode test)
    let yesType ← infer s mode yes
    let noType ← infer s mode no
    branchType yesType noType
  | foreign _ source => .error (unexpected source)
  | valueList _ => mistyped NodeKind.valueList.name .notAValue
  | ordering _ _ => mistyped NodeKind.ordering.name .notAValue
  | grouping _ _ _ => mistyped NodeKind.grouping.name .notAValue
  | joining _ => mistyped NodeKind.joining.name .notAValue

/-- The types of a list of expressions, from left to right. -/
def inferAll (s : Schema) (mode : Mode) : List Expr → Outcome (List ColumnType)
  | [] => .ok []
  | e :: rest => do
    let type ← infer s mode e
    let types ← inferAll s mode rest
    return type :: types

end

end Expr
end QueryPipeline
