import QueryPipeline.ColumnType
import QueryPipeline.Number.Digits

/-!
# Failures

What can go wrong while a pipeline is described, built or rendered. A failure is either a refusal,
which names a cause, the clause it concerns (once that is known) and a subject, or a defect: an
ill-formed request that no cause covers, on which the program itself breaks off.

* `TypeFault`, `ReferenceFault` and `ValueFault` are the reasons of the causes that have several;
* `detail` gives the wording of a reason, `Refusal.message` that of a whole refusal;
* `Refusal.inClause` attributes a refusal to a clause, in place of an earlier attribution.
-/

namespace QueryPipeline

/-! ## 1. Reasons -/

/-- Why an expression has no type, or not the type its place asks for. -/
inductive TypeFault
  | notBoolean (role : String) (got : ColumnType)
  | patternOnNonText (got : ColumnType)
  | patternNotLiteral
  | notComparable (left right : ColumnType)
  | arithmeticOnNonNumeric (left right : ColumnType)
  | remainderOnNonIntegral (left right : ColumnType)
  | bitwiseOnNonIntegral (left right : ColumnType)
  | unknownOperator
  | membershipWithoutList
  | membershipInEmptyList
  | argumentCount (expected : Option Nat) (got : Nat)
  | nestedAggregate
  | misplacedAggregate
  | missingArgument (function count : String)
  | nonNumericArgument (function : String) (got : ColumnType)
  | booleanArgument (function : String)
  | nonIntegralArguments (function : String) (left right : ColumnType)
  | incompatibleBranches (left right : ColumnType)
  | notAValue
  | notAColumn (clause : String)
  | notAliased
  | described (text : String)
  deriving DecidableEq, Repr

/-- The wording of a reason. -/
def TypeFault.detail : TypeFault → String
  | notBoolean role got => role ++ " must be boolean, got " ++ got.name
  | patternOnNonText got => "LIKE needs a string operand, got " ++ got.name
  | patternNotLiteral => "LIKE pattern must be a string literal"
  | notComparable left right => "cannot compare " ++ left.name ++ " with " ++ right.name
  | arithmeticOnNonNumeric left right =>
    "arithmetic needs numeric operands, got " ++ left.name ++ " and " ++ right.name
  | remainderOnNonIntegral left right =>
    "MOD needs integer or long operands, got " ++ left.name ++ " and " ++ right.name
  | bitwiseOnNonIntegral left right =>
    "bitwise operators need integer or long operands, got " ++ left.name ++ " and " ++ right.name
  | unknownOperator => "unknown operator"
  | membershipWithoutList => "right operand must be a list of literals"
  | membershipInEmptyList => "value list must not be empty"
  | argumentCount (some expected) got =>
    "expects " ++ natText expected ++ " argument(s), got " ++ natText got
  | argumentCount none got => "expects undefined argument(s), got " ++ natText got
  | nestedAggregate => "aggregate functions cannot be nested"
  | misplacedAggregate =>
    "aggregate functions are only allowed in groupBy selections and having"
  | missingArgument function count => function ++ " expects " ++ count
  | nonNumericArgument function got =>
    function ++ " expects a numeric argument, got " ++ got.name
  | booleanArgument function => function ++ " cannot be applied to a boolean argument"
  | nonIntegralArguments function left right =>
    function ++ " expects integer or long arguments, got " ++ left.name ++ " and " ++ right.name
  | incompatibleBranches left right =>
    "branches have incompatible types " ++ left.name ++ " and " ++ right.name
  | notAValue => "not a value expression"
  | notAColumn clause => clause ++ " takes column references only"
  | notAliased => "extend expressions must be aliased"
  | described text => text

/-- Why a column must not be used in a grouping. -/
inductive ReferenceFault
  | neitherKeyNorAggregate
  | keyNotSelected
  | notGrouped
  | described (text : String)
  deriving DecidableEq, Repr

/-- The wording of a reason. -/
def ReferenceFault.detail : ReferenceFault → String
  | neitherKeyNorAggregate => "is neither a grouping key nor an aggregate"
  | keyNotSelected => "is a grouping key missing from the selections"
  | notGrouped => "is not part of the grouped schema"
  | described text => text

/-- Why a value is not acceptable where it was given. -/
inductive ValueFault
  | notAnIdentifier (what : String)
  | noEntries (what : String)
  | notACount (what : String)
  | unknownJoinKind
  | declaredTwice (table : String)
  | unknownColumnType (column : String)
  | undefinedTable (database : String)
  | unregisteredDialect
  | notInt32
  | notSafeInteger
  | notInt64
  | notFinite
  | invalidInstant
  | yearOutOfRange
  | notADateText
  | notACalendarDate
  | described (text : String)
  deriving DecidableEq, Repr

/-- The wording of a reason. -/
def ValueFault.detail : ValueFault → String
  | notAnIdentifier what => what ++ " name must consist of letters, digits and underscores"
  | noEntries what => what ++ " needs at least one entry"
  | notACount what => what ++ " must be a non-negative integer"
  | unknownJoinKind => "join kind must be inner or left"
  | declaredTwice table => "column is declared twice in " ++ table
  | unknownColumnType column => "column \"" ++ column ++ "\" has an unknown semantic type"
  | undefinedTable database => "table is not defined in database \"" ++ database ++ "\""
  | unregisteredDialect =>
    "dialect is not registered. Use DialectFactory.register(...) to register it."
  | notInt32 => "integer literals must be 32-bit integers"
  | notSafeInteger => "long literals must be safe integers or bigints"
  | notInt64 => "long literals must fit in 64 bits"
  | notFinite => "double literals must be finite"
  | invalidInstant => "invalid date"
  | yearOutOfRange => "date years must lie between 0000 and 9999"
  | notADateText => "dates must be written as YYYY-MM-DD"
  | notACalendarDate => "not a calendar date"
  | described text => text

/-! ## 2. Causes -/

/-- What a request is refused for. -/
inductive Cause
  | unknownColumn (column : String)
  | typeMismatch (subject : String) (fault : TypeFault)
  | duplicateColumn (column : String)
  | invalidReference (column : String) (fault : ReferenceFault)
  | invalidValue (subject : String) (fault : ValueFault)
  | unsupported (nodeKind backend : String)
  deriving DecidableEq, Repr

namespace Cause

/-- The offending column, alias, node kind or value. -/
def subject : Cause → String
  | unknownColumn column => column
  | typeMismatch subject _ => subject
  | duplicateColumn column => column
  | invalidReference column _ => column
  | invalidValue subject _ => subject
  | unsupported nodeKind _ => nodeKind

/-- The name of a kind of cause. -/
def kind : Cause → String
  | unknownColumn _ => "UnknownColumn"
  | typeMismatch _ _ => "TypeError"
  | duplicateColumn _ => "DuplicateAlias"
  | invalidReference _ _ => "InvalidAggregateReference"
  | invalidValue _ _ => "ConfigError"
  | unsupported _ _ => "BackendUnsupported"

/-- The wording of the reason, for the causes that have one. -/
def detail? : Cause → Option String
  | typeMismatch _ fault => some fault.detail
  | invalidReference _ fault => some fault.detail
  | invalidValue _ fault => some fault.detail
  | _ => none

end Cause

/-! ## 3. Refusals -/

/-- A cause, attributed to a clause once that is known. -/
structure Refusal where
  cause : Cause
  clause : Option String
  deriving DecidableEq, Repr

namespace Refusal

/-- The same cause attributed to the given clause. -/
def inClause (r : Refusal) (clause : String) : Refusal := { r with clause := some clause }

/-- The mention of the clause in a message; an empty name is not mentioned. -/
def clauseMention (r : Refusal) : String :=
  match r.clause with
  | none => ""
  | some clause => if clause.isEmpty then "" else " in " ++ clause

/-- A name in double quotes. -/
def quoted (text : String) : String := "\"" ++ text ++ "\""

/-- The wording of a refusal. What a backend lacks is said without the clause. -/
def message (r : Refusal) : String :=
  match r.cause with
  | .unknownColumn column => "Unknown column " ++ quoted column ++ r.clauseMention
  | .typeMismatch subject fault =>
    "Type error on " ++ quoted subject ++ r.clauseMention ++ ": " ++ fault.detail
  | .duplicateColumn column => "Column " ++ quoted column ++ " already exists" ++ r.clauseMention
  | .invalidReference column fault =>
    "Column " ++ quoted column ++ " " ++ fault.detail ++ r.clauseMention
  | .invalidValue subject fault =>
    "Invalid value " ++ quoted subject ++ r.clauseMention ++ ": " ++ fault.detail
  | .unsupported nodeKind backend =>
    "Node kind " ++ quoted nodeKind ++ " is not supported by the " ++ backend ++ " backend"

end Refusal

/-! ## 4. Failures -/

/-- A refusal, or a defect with its wording. -/
inductive Failure
  | refused (refusal : Refusal)
  | defect (message : String)
  deriving DecidableEq, Repr

namespace Failure

/-- A refusal for a cause whose clause is not known yet. -/
def because (cause : Cause) : Failure := refused ⟨cause, none⟩

/-- A property was read of something that is not there. -/
def unreadable (property : String) : Failure :=
  defect ("Cannot read properties of undefined (reading \x27" ++ property ++ "\x27)")

/-- A property was assigned that is inherited from something that must not change. -/
def unassignable (property : String) : Failure :=
  defect ("Cannot assign to read only property \x27" ++ property ++
    "\x27 of object \x27#<Object>\x27")

/-- The members of a function's result were asked for, and it has none. -/
def notIterable (function : String) : Failure :=
  defect (function ++ " is not a function or its return value is not iterable")

/-- Attributes a refusal to a clause; a defect stays as it is. -/
def inClause (clause : String) : Failure → Failure
  | refused r => refused (r.inClause clause)
  | defect message => defect message

/-- Attributes a refusal to a clause unless it has one already. -/
def inClauseIfUnknown (clause : String) : Failure → Failure
  | refused ⟨cause, none⟩ => refused ⟨cause, some clause⟩
  | failure => failure

end Failure

/-- A result or a failure. -/
abbrev Outcome := Except Failure

/-- Refuses for a cause. -/
def refuse {α : Type} (cause : Cause) : Outcome α := .error (.because cause)

/-- Captures a refusal as a value; a defect stays a failure. -/
def attempt {α : Type} (step : Outcome α) : Except String (Except Refusal α) :=
  match step with
  | .ok value => .ok (.ok value)
  | .error (.refused r) => .ok (.error r)
  | .error (.defect message) => .error message

end QueryPipeline
