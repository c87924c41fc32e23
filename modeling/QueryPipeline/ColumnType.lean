/-!
# Column types

The seven types a column or an expression can have, and the rules that relate them.

* `ColumnType.family` groups the types whose values can be compared with each other;
* `ColumnType.widen` is the wider of two numeric types in the order `integer < long < double`;
* `equalityComparable` and `orderComparable` say which pairs `=` and `<` accept.
-/

namespace QueryPipeline

/-! ## 1. Types and their names -/

/-- The type of a column or of an expression. -/
inductive ColumnType
  | integer | long | double | string | boolean | date | datetime
  deriving DecidableEq, Repr

namespace ColumnType

/-- Every type, in the order in which they are listed. -/
def all : List ColumnType := [integer, long, double, string, boolean, date, datetime]

/-- The name of a type. -/
def name : ColumnType → String
  | integer => "integer"
  | long => "long"
  | double => "double"
  | string => "string"
  | boolean => "boolean"
  | date => "date"
  | datetime => "datetime"

/-- The type with the given name. Names are matched exactly. -/
def ofName? (text : String) : Option ColumnType := all.find? fun t => t.name == text

/-- The type with the given name in any mixture of cases. Type names are ASCII, and no character
    outside of ASCII has a letter of theirs as its lower case. -/
def ofNameAnyCase? (text : String) : Option ColumnType := ofName? text.toLower

theorem mem_all (t : ColumnType) : t ∈ all := by cases t <;> decide

theorem ofName?_name (t : ColumnType) : ofName? t.name = some t := by cases t <;> decide

/-! ## 2. Families -/

/-- A group of types whose values can be compared with each other. -/
inductive Family
  | numeric | string | temporal | boolean
  deriving DecidableEq, Repr

/-- The name of a family. -/
def Family.name : Family → String
  | .numeric => "numeric"
  | .string => "string"
  | .temporal => "temporal"
  | .boolean => "boolean"

/-- The family of a type. -/
def family : ColumnType → Family
  | integer | long | double => .numeric
  | string => .string
  | date | datetime => .temporal
  | boolean => .boolean

/-- Integers, longs and doubles. -/
def isNumeric (t : ColumnType) : Bool := t.family == .numeric

/-- Integers and longs. -/
def isIntegral : ColumnType → Bool
  | integer | long => true
  | _ => false

/-! ## 3. Widening and comparison -/

/-- The place of a type in the order of widening; types that are not numeric stand at the start. -/
def rank : ColumnType → Nat
  | long => 1
  | double => 2
  | _ => 0

/-- The wider of two types, the left one if neither is wider. -/
def widen (left right : ColumnType) : ColumnType :=
  if right.rank ≤ left.rank then left else right

/-- Whether two types may be compared for equality. -/
def equalityComparable (left right : ColumnType) : Bool := left.family == right.family

/-- Whether two types may be ordered; booleans may not. -/
def orderComparable (left right : ColumnType) : Bool :=
  equalityComparable left right && left.family != .boolean

end ColumnType
end QueryPipeline
