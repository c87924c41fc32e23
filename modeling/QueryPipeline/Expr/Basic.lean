import QueryPipeline.Expr.Literal
import QueryPipeline.Expr.Operator

/-!
# Expressions

The nodes of which values, predicates, orderings and groupings are made.

* `Expr` has one constructor for each of eleven kinds of node, and `foreign` for a node of a kind
  that this library does not know, kept with its kind and its source text so that it can be named
  when it is refused;
* `Expr.kind?` is the kind of a known node;
* `FunctionName` names the functions; a name without rules is kept as `other`.
-/

namespace QueryPipeline

/-! ## 1. Functions -/

/-- A function that expressions can call. -/
inductive FunctionName
  | count | sum | avg | min | max | modulo | power
  | other (text : String)
  deriving DecidableEq, Repr

namespace FunctionName

/-- The written form of a function name. -/
def text : FunctionName → String
  | count => "count"
  | sum => "sum"
  | avg => "avg"
  | min => "min"
  | max => "max"
  | modulo => "modulo"
  | power => "power"
  | other text => text

/-- Every function that has rules. -/
def known : List FunctionName := [count, sum, avg, min, max, modulo, power]

/-- The functions by their written forms. -/
def vocabulary : Vocabulary FunctionName where
  text := text
  known := known
  other := other
  distinct := by decide
  other_unknown word := by simp [known]
  complete f := by cases f <;> simp [known]

/-- The function with the given written form. -/
def ofText : String → FunctionName := vocabulary.read

/-- Whether a function has rules. -/
abbrev Known : FunctionName → Prop := vocabulary.Known

/-- Functions that fold the rows of a group into one value. To ask this of a name without rules is
    a defect where the program looks the name up, which `requireSignature` sees to. -/
def isAggregate : FunctionName → Bool
  | count | sum | avg | min | max => true
  | _ => false

end FunctionName

/-! ## 2. Nodes -/

/-- A node of an expression. -/
inductive Expr
  /-- A constant. -/
  | literal (value : Literal)
  /-- A reference to a column of the current schema. -/
  | column (name : String)
  | unary (op : UnaryOp) (operand : Expr)
  | binary (op : BinaryOp) (left right : Expr)
  /-- The list on the right of a membership test. -/
  | valueList (items : List Literal)
  | call (function : FunctionName) (args : List Expr)
  /-- An expression with a name for its result. -/
  | named (name : String) (inner : Expr)
  | conditional (test yes no : Expr)
  /-- An ordering term with its direction. -/
  | ordering (direction : Direction) (term : Expr)
  /-- Grouping keys, selections per group, and a condition on the groups. -/
  | grouping (keys selections : List Expr) (having : Option Expr)
  /-- The condition of a join. -/
  | joining (condition : Expr)
  /-- A node of an unknown kind, with its source text. -/
  | foreign (kind source : String)
  deriving Repr

/-- The kinds of node that have rules. -/
inductive NodeKind
  | literal | column | unary | binary | valueList | call | named | conditional | ordering
  | grouping | joining
  deriving DecidableEq, Repr

/-- The name of a kind of node. -/
def NodeKind.name : NodeKind → String
  | literal => "Literal"
  | column => "ColumnRef"
  | unary => "Unary"
  | binary => "Binary"
  | valueList => "ValueList"
  | call => "FunctionCall"
  | named => "Alias"
  | conditional => "Conditional"
  | ordering => "OrderSpec"
  | grouping => "GroupSpec"
  | joining => "JoinSpec"

/-- Groupings and joins are parts of clauses and never values. -/
def NodeKind.isPartOfClause : NodeKind → Bool
  | grouping | joining => true
  | _ => false

namespace Expr

/-- The kind of a known node. -/
def kind? : Expr → Option NodeKind
  | literal _ => some .literal
  | column _ => some .column
  | unary _ _ => some .unary
  | binary _ _ _ => some .binary
  | valueList _ => some .valueList
  | call _ _ => some .call
  | named _ _ => some .named
  | conditional _ _ _ => some .conditional
  | ordering _ _ => some .ordering
  | grouping _ _ _ => some .grouping
  | joining _ => some .joining
  | foreign _ _ => none

/-- The name of the kind of a node, known or not. -/
def kindName (e : Expr) : String :=
  match e with
  | foreign kind _ => kind
  | _ => (e.kind?.map NodeKind.name).getD ""

/-- The defect of a node of unknown kind. -/
def unexpected (source : String) : Failure := .defect ("Unexpected expression node " ++ source)

/-- The nodes directly below a node, in the order in which they are evaluated. -/
def children : Expr → List Expr
  | literal _ | column _ | foreign _ _ => []
  | unary _ operand => [operand]
  | binary _ left right => [left, right]
  | valueList items => items.map literal
  | call _ args => args
  | named _ inner => [inner]
  | conditional test yes no => [test, yes, no]
  | ordering _ term => [term]
  | grouping keys selections having => keys ++ selections ++ having.toList
  | joining condition => [condition]

end Expr
end QueryPipeline
