import QueryPipeline.Calendar.Instant
import QueryPipeline.Fault
import QueryPipeline.Number.Shortest

/-!
# Literals

Constants of six types, and the checks that make them of plain values.

* one constructor function per type (`Literal.ofInteger`, `ofLong`, `ofDouble`, `ofDateText`,
  `ofInstant`) refuses what its type cannot hold;
* `Literal.ofPlain` lifts a plain value to the narrowest literal that holds it. Whole numbers
  beyond the safe range become doubles, since a double no longer tells them apart.
-/

namespace QueryPipeline

/-! ## 1. Literals -/

/-- A constant with its type. Integers are kept as the number that was given and dates as they are
    written; what makes one well-formed is checked where it is made of a plain value. -/
inductive Literal
  | integer (value : Binary64)
  | long (value : Int)
  | double (value : Binary64)
  /-- A text of Unicode scalar values; unpaired surrogates are outside of the model. -/
  | string (value : String)
  | boolean (value : Bool)
  | date (value : String)
  deriving DecidableEq, Repr

namespace Literal

/-- The type of a literal. -/
def type : Literal → ColumnType
  | integer _ => .integer
  | long _ => .long
  | double _ => .double
  | string _ => .string
  | boolean _ => .boolean
  | date _ => .date

/-! ## 2. Numbers -/

/-- An integer literal holds the whole numbers of 32 bits. -/
def ofInteger (v : Binary64) : Outcome Literal :=
  match v.toInt? with
  | some n => if isInt32 n then .ok (integer v) else refuse (.invalidValue v.text .notInt32)
  | none => refuse (.invalidValue v.text .notInt32)

/-- A long literal holds the whole numbers of 64 bits. -/
def ofLong (n : Int) : Outcome Literal :=
  if isInt64 n then .ok (long n) else refuse (.invalidValue (intText n) .notInt64)

/-- A long literal made of a number, which must be a safe integer. -/
def ofSafeInteger (v : Binary64) : Outcome Literal :=
  match v.toInt? with
  | some n => if isSafeInteger n then ofLong n else refuse (.invalidValue v.text .notSafeInteger)
  | none => refuse (.invalidValue v.text .notSafeInteger)

/-- A double literal holds the finite doubles. -/
def ofDouble (v : Binary64) : Outcome Literal :=
  if v.isFinite then .ok (double v) else refuse (.invalidValue v.text .notFinite)

/-! ## 3. Dates -/

/-- A date literal written as `YYYY-MM-DD`, kept as it is. What is written is a day of the calendar
    if counting on from it leads nowhere else. -/
def ofDateText (s : String) : Outcome Literal :=
  match Date.read? s with
  | none => refuse (.invalidValue s .notADateText)
  | some d => if d.countedOn = d then .ok (date s) else refuse (.invalidValue s .notACalendarDate)

/-- A date literal for the day of an instant, which must lie in the years 0 to 9999. -/
def ofInstant : Option Instant → Outcome Literal
  | none => refuse (.invalidValue "Invalid Date" .invalidInstant)
  | some t =>
    let d := t.date
    if 0 ≤ d.year ∧ d.year ≤ 9999 then .ok (date d.text)
    else refuse (.invalidValue (intText d.year) .yearOutOfRange)

end Literal

/-! ## 4. Plain values -/

/-- A value that is lifted to a literal. An absent instant is one that could not be represented. -/
inductive PlainValue
  | number (value : Binary64)
  | wholeNumber (value : Int)
  | text (value : String)
  | truth (value : Bool)
  | instant (value : Option Instant)
  deriving DecidableEq, Repr

/-- The narrowest literal that holds a number. -/
def Literal.ofNumber (v : Binary64) : Outcome Literal :=
  match v.toInt? with
  | some n =>
    if isInt32 n then ofInteger v
    else if isSafeInteger n then ofSafeInteger v
    else ofDouble v
  | none => ofDouble v

/-- The narrowest literal that holds a plain value. -/
def Literal.ofPlain : PlainValue → Outcome Literal
  | .number v => ofNumber v
  | .wholeNumber n => ofLong n
  | .text s => .ok (string s)
  | .truth b => .ok (boolean b)
  | .instant t => ofInstant t

end QueryPipeline
