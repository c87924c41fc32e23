import QueryPipeline.Clause.Basic
import QueryPipeline.Expr.Build

/-!
# Requests

What can be asked of a pipeline: one request for each kind of clause, and the page, which is an
offset followed by a limit. Requests hold what the caller gave; nothing in them is checked yet.
-/

namespace QueryPipeline

/-- Pairs of source and target names: a list, or a record. -/
inductive RenameInput
  | list (pairs : List (String × String))
  | record (entries : List (String × String))
  deriving Repr

/-- The pairs in order. -/
def RenameInput.pairs : RenameInput → List (String × String)
  | list pairs => pairs
  | record entries => Record.enumerate entries

/-- A request for one clause. -/
inductive ClauseRequest
  | select (columns : List ColumnInput)
  | extend (columns : List ColumnInput)
  | rename (input : RenameInput)
  | filter (predicate : Expr)
  | groupBy (grouping : Grouping)
  | orderBy (terms : List ColumnInput)
  | limit (count : Binary64)
  | offset (count : Binary64)
  | distinct (columns : List ColumnInput)
  | join (other : Table) (kind : String) (condition : Expr)
  deriving Repr

/-- The kind of clause that a request asks for. -/
def ClauseRequest.kind : ClauseRequest → ClauseKind
  | select _ => .select
  | extend _ => .extend
  | rename _ => .rename
  | filter _ => .filter
  | groupBy _ => .groupBy
  | orderBy _ => .orderBy
  | limit _ => .limit
  | offset _ => .offset
  | distinct _ => .distinct
  | join _ _ _ => .join

/-- A request to a pipeline. -/
inductive Request
  | clause (request : ClauseRequest)
  | page (offset limit : Binary64)
  deriving Repr

namespace Request

/-- A join that keeps the rows with a partner. -/
def innerJoin (other : Table) (condition : Expr) : Request :=
  clause (.join other JoinKind.inner.text condition)

/-- A join that keeps all rows of the left side. -/
def leftJoin (other : Table) (condition : Expr) : Request :=
  clause (.join other JoinKind.left.text condition)

end Request
end QueryPipeline
