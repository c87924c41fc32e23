import QueryPipeline.Expr.Basic

/-!
# Building expressions

Nodes made of columns, plain values and other nodes.

* `ColumnInput` names a column or is a node; a bare text in this place is the name of a column;
* `ValueInput` is a value, a column or a node; a bare text in this place is a string literal;
* each builder lifts what it is given; lifting a plain value can be refused (`Literal.ofPlain`).
-/

namespace QueryPipeline

/-! ## 1. Inputs -/

/-- A column as it is declared: its name and the name of its type. -/
structure ColumnDeclaration where
  name : String
  typeName : String
  deriving DecidableEq, Repr

/-- What is given where a column is expected. -/
inductive ColumnInput
  | name (text : String)
  | column (declaration : ColumnDeclaration)
  | node (expr : Expr)
  deriving Repr

/-- What is given where a value is expected. -/
inductive ValueInput
  | plain (value : PlainValue)
  | column (declaration : ColumnDeclaration)
  | node (expr : Expr)
  deriving Repr

namespace ColumnInput

/-- The node that is meant: a reference to the named column, or the node itself. -/
def toExpr : ColumnInput → Expr
  | name text => .column text
  | column declaration => .column declaration.name
  | node expr => expr

/-- How the kind of the input is named when another kind was expected: a node by its kind, a column
    by the name of its type; a bare name has no kind. -/
def kindName : ColumnInput → String
  | name _ => "undefined"
  | column declaration => declaration.typeName
  | node expr => expr.kindName

/-- The name of the column that is meant where only a name is of use; a node gives its own. -/
def columnName : ColumnInput → String
  | name text => text
  | column declaration => declaration.name
  | node (.column text) => text
  | node (.named text _) => text
  | node _ => "undefined"

end ColumnInput

/-- The node that is meant: a literal, a reference to the column, or the node itself. -/
def ValueInput.toExpr : ValueInput → Outcome Expr
  | plain value => do return .literal (← Literal.ofPlain value)
  | column declaration => .ok (.column declaration.name)
  | node expr => .ok expr

namespace Expr

/-! ## 2. Operators -/

/-- The node that is meant on the left of an operator, where a bare text names a column. -/
def leftOperand : ValueInput → Outcome Expr
  | .plain (.text name) => .ok (column name)
  | input => input.toExpr

/-- An operator applied to two inputs, which are lifted from left to right. -/
def ofBinary (op : BinaryOp) (left right : ValueInput) : Outcome Expr := do
  let leftExpr ← leftOperand left
  let rightExpr ← right.toExpr
  return binary op leftExpr rightExpr

/-- An item of a list: a plain value, or a literal as it is. -/
inductive ItemInput
  | plain (value : PlainValue)
  | literal (value : Literal)
  deriving Repr

/-- The literal that is meant. -/
def ItemInput.toLiteral : ItemInput → Outcome Literal
  | plain value => Literal.ofPlain value
  | literal value => .ok value

/-- Lifts the items of a list from left to right. -/
def liftItems : List ItemInput → Outcome (List Literal)
  | [] => .ok []
  | item :: rest => do
    let first ← item.toLiteral
    let more ← liftItems rest
    return first :: more

/-- A membership test of a column in a list of values. -/
def member (op : Comparison) (left : ColumnInput) (items : List ItemInput) : Outcome Expr := do
  return binary (.comparison op) left.toExpr (.valueList (← liftItems items))

/-- Joins operands by a logical operator, from the left. Without operands there is nothing to
    join. -/
def fold (op : Connective) : List Expr → Outcome Expr
  | [] => .error (.defect (op.text ++ " needs at least one operand"))
  | first :: rest => .ok (rest.foldl (fun joined next => binary (.logical op) joined next) first)

/-- A null check of a column. -/
def nullCheck (op : UnaryOp) (operand : ColumnInput) : Expr := unary op operand.toExpr

/-! ## 3. Names, conditions, orderings and calls -/

/-- Names the result of a column or expression. -/
def nameResult (input : ColumnInput) (name : String) : Expr := named name input.toExpr

/-- A conditional; the branches are lifted from left to right. -/
def ifThen (test : Expr) (yes no : ValueInput) : Outcome Expr := do
  let yesExpr ← yes.toExpr
  let noExpr ← no.toExpr
  return conditional test yesExpr noExpr

/-- An ordering by a column or expression. -/
def orderBy (direction : Direction) (input : ColumnInput) : Expr := ordering direction input.toExpr

/-- A call of an aggregate on a column. -/
def aggregate (f : FunctionName) (input : ColumnInput) : Expr := call f [input.toExpr]

/-- A call of a function of two arguments on a column and a value. -/
def callTwo (f : FunctionName) (left : ColumnInput) (right : ValueInput) : Outcome Expr := do
  let rightExpr ← right.toExpr
  return call f [left.toExpr, rightExpr]

end Expr

/-! ## 4. Groupings -/

/-- The keys, selections and condition of a grouping. -/
structure Grouping where
  keys : List String
  selections : List Expr
  having : Option Expr
  deriving Repr

/-- A grouping of inputs. -/
def Grouping.ofInputs (selections : List ColumnInput) (keys : List ColumnInput)
    (having : Option Expr) : Grouping :=
  { keys := keys.map ColumnInput.columnName
    selections := selections.map ColumnInput.toExpr
    having := having }

/-- The node of a grouping. -/
def Grouping.toExpr (g : Grouping) : Expr :=
  .grouping (g.keys.map .column) g.selections g.having

end QueryPipeline
