import QueryPipeline.Expr.Basic
import QueryPipeline.Table

/-!
# Clauses

The steps of a pipeline after its source, as trees of nodes. A clause that comes from outside may
hold any nodes; the clauses of a pipeline are made by its checks, and hold column references and
named expressions where their kind asks for them. `foreign` stands for a clause of a kind that
this library does not know, and for a source that is repeated among the steps; both are kept with
their kind and their source text.
-/

namespace QueryPipeline

/-- An expression with a name for its result. -/
structure Aliased where
  name : String
  expr : Expr
  deriving Repr

/-- The node of a named expression. -/
def Aliased.toExpr (a : Aliased) : Expr := .named a.name a.expr

/-- An ordering term with its direction. -/
structure OrderTerm where
  direction : Direction
  term : Expr
  deriving Repr

/-- The node of an ordering term. -/
def OrderTerm.toExpr (t : OrderTerm) : Expr := .ordering t.direction t.term

/-- The node of a renamed column: the source under the name of the target. -/
def renamedColumn (pair : String × String) : Expr := .named pair.2 (.column pair.1)

/-- A step of a pipeline. -/
inductive Clause
  /-- Keeps the given columns, in order. -/
  | select (columns : List Expr)
  /-- Appends computed columns. -/
  | extend (columns : List Expr)
  /-- Renames columns in place; each is named by its new name. -/
  | rename (columns : List Expr)
  | filter (predicate : Expr)
  /-- Groups rows by keys; one column for each selection, for the groups that meet a condition. -/
  | groupBy (keys selections : List Expr) (having : Option Expr)
  | orderBy (terms : List OrderTerm)
  /-- Keeps the first rows; the count is the number that was given. -/
  | limit (count : Binary64)
  /-- Leaves out the first rows; the count is the number that was given. -/
  | offset (count : Binary64)
  /-- Keeps distinct rows over the given columns, over all of them if none are given. -/
  | distinct (columns : List Expr)
  | join (other : TableName) (kind : JoinKind) (condition : Expr)
  | foreign (kind source : String)
  deriving Repr

/-- The kinds of clause that have rules. -/
inductive ClauseKind
  | select | extend | rename | filter | groupBy | orderBy | limit | offset | distinct | join
  deriving DecidableEq, Repr

/-- The name of a kind of clause. -/
def ClauseKind.name : ClauseKind → String
  | select => "Select"
  | extend => "Extend"
  | rename => "Rename"
  | filter => "Filter"
  | groupBy => "GroupBy"
  | orderBy => "OrderBy"
  | limit => "Limit"
  | offset => "Offset"
  | distinct => "Distinct"
  | join => "Join"

namespace Clause

/-- The kind of a known clause. -/
def kind? : Clause → Option ClauseKind
  | select _ => some .select
  | extend _ => some .extend
  | rename _ => some .rename
  | filter _ => some .filter
  | groupBy _ _ _ => some .groupBy
  | orderBy _ => some .orderBy
  | limit _ => some .limit
  | offset _ => some .offset
  | distinct _ => some .distinct
  | join _ _ _ => some .join
  | foreign _ _ => none

/-- The name of the kind of a clause, known or not. -/
def kindName (c : Clause) : String :=
  match c with
  | foreign kind _ => kind
  | _ => (c.kind?.map ClauseKind.name).getD ""

/-- The defect of a clause of unknown kind. -/
def unexpected (source : String) : Failure := .defect ("Unexpected clause " ++ source)

end Clause
end QueryPipeline
