import QueryPipeline.Clause.Request
import QueryPipeline.Expr.Typing

/-!
# Resolving requests

A request is checked against the schema it is made on, and gives the clause to store together with
the schema after it. Each kind of request has a function of its own, and the checks of a function
are made in the order in which they are written, so that the first one that fails decides which
refusal is given.

* `resolveSelect`, `resolveDistinct`: references to known columns, none twice;
* `resolveExtend`: named expressions with new names, typed on the schema before the clause;
* `resolveRename`: a simultaneous renaming that makes no name stand twice;
* `resolveGroupBy`: selections that use keys and aggregates only, and a condition that uses the
  columns of the result only;
* `Schema.resolve` puts them together.
-/

namespace QueryPipeline

/-- The clause of a request and the schema after it. -/
structure Resolved where
  clause : Clause
  schema : Schema
  deriving Repr

/-! ## 1. Shared checks -/

/-- Refuses an empty list. -/
def requireNonEmpty {α : Type} (items : List α) (what : String) : Outcome Unit :=
  if items.isEmpty then refuse (.invalidValue "[]" (.noEntries what)) else .ok ()

/-- The name of the column that an input refers to; other nodes are refused. -/
def columnReference (clause : String) (input : ColumnInput) : Outcome String :=
  match input.toExpr with
  | .column name => .ok name
  | e => mistyped e.kindName (.notAColumn clause)

/-- The names of the columns that inputs refer to, from left to right. -/
def columnReferences (clause : String) : List ColumnInput → Outcome (List String)
  | [] => .ok []
  | input :: rest => do
    let name ← columnReference clause input
    let names ← columnReferences clause rest
    return name :: names

/-- The type of an expression without aggregates, which must be boolean. -/
def requirePredicate (s : Schema) (mode : Mode) (subject role : String) (e : Expr) :
    Outcome Unit := do
  requireBoolean subject role (← e.infer s mode)

/-! ## 2. Selections and computed columns -/

/-- Keeps columns in the given order. -/
def resolveSelect (s : Schema) (columns : List ColumnInput) : Outcome Resolved := do
  requireNonEmpty columns "select"
  let names ← columnReferences "select" columns
  let schema ← s.project names
  return ⟨.select (names.map .column), schema⟩

/-- Keeps distinct rows; without columns the schema stays as it is. -/
def resolveDistinct (s : Schema) (columns : List ColumnInput) : Outcome Resolved := do
  let names ← columnReferences "distinct" columns
  let schema ← if names.isEmpty then pure s else s.project names
  return ⟨.distinct (names.map .column), schema⟩

/-- The named expression that an input is; anything else is refused. -/
def requireAliased : ColumnInput → Outcome Aliased
  | .node (.named name inner) => .ok ⟨name, inner⟩
  | input => mistyped input.kindName .notAliased

/-- Checks computed columns from left to right. A name must be an identifier, and neither a column
    of the schema nor among the names before it. -/
def computedColumns (s : Schema) :
    List String → List ColumnInput → Outcome (List (Aliased × Column))
  | _, [] => .ok []
  | earlier, input :: rest => do
    let a ← requireAliased input
    let name ← requireIdentifier (.text a.name) "Alias"
    if s.has name || earlier.contains name then refuse (.duplicateColumn name)
    let type ← a.expr.infer s {}
    let more ← computedColumns s (name :: earlier) rest
    return (a, ⟨name, type⟩) :: more

/-- Appends computed columns. -/
def resolveExtend (s : Schema) (columns : List ColumnInput) : Outcome Resolved := do
  requireNonEmpty columns "extend"
  let computed ← computedColumns s [] columns
  let schema ← s.append (computed.map Prod.snd)
  return ⟨.extend (computed.map fun c => c.1.toExpr), schema⟩

/-! ## 3. Renaming -/

/-- Checks pairs from left to right: the source is a column, the target an identifier, and neither
    occurred before in its role. -/
def checkPairs (s : Schema) : List (String × String) → List (String × String) → Outcome Unit
  | _, [] => .ok ()
  | earlier, (source, target) :: rest => do
    let _ ← s.get source
    let target ← requireIdentifier (.text target) "Rename target"
    if source ∈ earlier.map Prod.fst then refuse (.duplicateColumn source)
    if target ∈ earlier.map Prod.snd then refuse (.duplicateColumn target)
    checkPairs s ((source, target) :: earlier) rest

/-- The first target that is the name of a column which keeps its name. -/
def collidingTarget? (s : Schema) (pairs : List (String × String)) : Option String :=
  (pairs.map Prod.snd).find? fun target =>
    s.has target && !(pairs.map Prod.fst).contains target

/-- Renames columns in place, all at once. -/
def resolveRename (s : Schema) (input : RenameInput) : Outcome Resolved := do
  let pairs := input.pairs
  requireNonEmpty pairs "rename"
  checkPairs s [] pairs
  match collidingTarget? s pairs with
  | some target => refuse (.duplicateColumn target)
  | none =>
    let schema ← s.rename pairs
    return ⟨.rename (pairs.map renamedColumn), schema⟩

/-! ## 4. Filters, groups and orderings -/

/-- Keeps the rows for which a predicate holds. -/
def resolveFilter (s : Schema) (predicate : Expr) : Outcome Resolved := do
  requirePredicate s {} "filter" "predicate" predicate
  return ⟨.filter predicate, s⟩

/-- Looks the keys of a grouping up, from left to right. -/
def checkKeys (s : Schema) : List String → Outcome Unit
  | [] => .ok ()
  | key :: rest => do
    let _ ← s.get key
    checkKeys s rest

/-- Refuses a column that is not a key. -/
def checkKeyReference (s : Schema) (keys : List String) (name : String) : Outcome Unit :=
  if keys.contains name then .ok ()
  else if s.has name then refuse (.invalidReference name .neitherKeyNorAggregate)
  else refuse (.unknownColumn name)

/-- Refuses the first column, mentioned outside of aggregate calls, that is not a key. -/
def checkSelectionReferences (s : Schema) (keys : List String) (e : Expr) : Outcome Unit :=
  e.walk false (checkKeyReference s keys)

/-- The name of a selection: its alias, its column, or its position counted from 1. -/
def selectionName (position : Nat) : Expr → Outcome String
  | .named name _ => requireIdentifier (.text name) "Alias"
  | .column name => .ok name
  | _ => .ok ("column" ++ natText position)

/-- The columns of the selections, from left to right. -/
def selectionColumns (s : Schema) (keys : List String) : Nat → List Expr → Outcome (List Column)
  | _, [] => .ok []
  | position, e :: rest => do
    checkSelectionReferences s keys e
    let type ← e.infer s .grouped
    let name ← selectionName position e
    let more ← selectionColumns s keys (position + 1) rest
    return ⟨name, type⟩ :: more

/-- Refuses a column that is not in the result of a grouping. -/
def checkResultReference (s grouped : Schema) (keys : List String) (name : String) :
    Outcome Unit :=
  if grouped.has name then .ok ()
  else if keys.contains name then refuse (.invalidReference name .keyNotSelected)
  else if s.has name then refuse (.invalidReference name .notGrouped)
  else refuse (.unknownColumn name)

/-- Refuses the first column of a condition on groups that is not in the result. -/
def checkHavingReferences (s grouped : Schema) (keys : List String) (having : Expr) :
    Outcome Unit :=
  having.walk true (checkResultReference s grouped keys)

/-- Checks a condition on groups against the schema of the result. -/
def checkHaving (s grouped : Schema) (keys : List String) : Option Expr → Outcome Unit
  | none => .ok ()
  | some having => do
    checkHavingReferences s grouped keys having
    requirePredicate grouped .grouped "having" "predicate" having

/-- Groups rows by keys; the result has one column for each selection. -/
def resolveGroupBy (s : Schema) (g : Grouping) : Outcome Resolved := do
  requireNonEmpty g.keys "groupBy keys"
  requireNonEmpty g.selections "groupBy selections"
  checkKeys s g.keys
  let columns ← selectionColumns s g.keys 1 g.selections
  let grouped ← Schema.ofColumns columns
  checkHaving s grouped g.keys g.having
  return ⟨.groupBy (g.keys.map .column) g.selections g.having, grouped⟩

/-- The ordering term that an input is; anything but an ordering sorts ascending. -/
def orderTerm : ColumnInput → OrderTerm
  | .node (.ordering direction term) => ⟨direction, term⟩
  | input => ⟨.asc, input.toExpr⟩

/-- Types the ordering terms from left to right. -/
def checkTerms (s : Schema) : List OrderTerm → Outcome Unit
  | [] => .ok ()
  | t :: rest => do
    let _ ← t.term.infer s {}
    checkTerms s rest

/-- Sorts rows. -/
def resolveOrderBy (s : Schema) (inputs : List ColumnInput) : Outcome Resolved := do
  requireNonEmpty inputs "orderBy"
  let terms := inputs.map orderTerm
  checkTerms s terms
  return ⟨.orderBy terms, s⟩

/-! ## 5. Counts and joins -/

/-- Refuses anything but a count of rows: a safe integer that is not negative. -/
def requireCount (count : Binary64) (what : String) : Outcome Unit :=
  match count.safeInteger? with
  | some n => if 0 ≤ n then .ok () else refuse (.invalidValue count.text (.notACount what))
  | none => refuse (.invalidValue count.text (.notACount what))

/-- Keeps the first rows. -/
def resolveLimit (s : Schema) (count : Binary64) : Outcome Resolved := do
  requireCount count "limit"
  return ⟨.limit count, s⟩

/-- Leaves out the first rows. -/
def resolveOffset (s : Schema) (count : Binary64) : Outcome Resolved := do
  requireCount count "offset"
  return ⟨.offset count, s⟩

/-- The join kind with the given name; an unknown one is refused. -/
def requireJoinKind (text : String) : Outcome JoinKind :=
  match JoinKind.ofText text with
  | .other _ => refuse (.invalidValue text .unknownJoinKind)
  | kind => .ok kind

/-- Refuses the first column of the other side whose name the schema has already. -/
def checkCollisions (s other : Schema) : Outcome Unit :=
  match other.names.find? s.has with
  | none => .ok ()
  | some name => refuse (.duplicateColumn name)

/-- Puts the columns of another table beside the ones of the schema. The condition sees both. -/
def resolveJoin (s : Schema) (other : Table) (kind : String) (condition : Expr) :
    Outcome Resolved := do
  let kind ← requireJoinKind kind
  let otherSchema ← other.schema
  checkCollisions s otherSchema
  let combined ← s.append otherSchema.columns
  requirePredicate combined {} "join" "condition" condition
  return ⟨.join other.name kind condition, combined⟩

/-! ## 6. All kinds -/

/-- Resolves a request on a schema. -/
def Schema.resolve (s : Schema) : ClauseRequest → Outcome Resolved
  | .select columns => resolveSelect s columns
  | .extend columns => resolveExtend s columns
  | .rename input => resolveRename s input
  | .filter predicate => resolveFilter s predicate
  | .groupBy grouping => resolveGroupBy s grouping
  | .orderBy terms => resolveOrderBy s terms
  | .limit count => resolveLimit s count
  | .offset count => resolveOffset s count
  | .distinct columns => resolveDistinct s columns
  | .join other kind condition => resolveJoin s other kind condition

end QueryPipeline
