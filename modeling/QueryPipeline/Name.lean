import QueryPipeline.Fault
import QueryPipeline.Number.Shortest

/-!
# Names

Databases, tables, columns and aliases are named by identifiers: one or more ASCII letters, digits
or underscores. A name that comes from outside is a `RawName`, which need not be a text at all.
-/

namespace QueryPipeline

/-- A letter, digit or underscore of ASCII. -/
def isNameChar (c : Char) : Bool := c.isAlphanum || c == '_'

/-- One or more letters, digits or underscores. -/
def isIdentifier (s : String) : Bool := !s.toList.isEmpty && s.toList.all isNameChar

/-- What is given where a name is expected. -/
inductive RawName
  | missing
  | truth (value : Bool)
  | number (value : Binary64)
  | text (value : String)
  deriving DecidableEq, Repr

namespace RawName

/-- How the given thing is shown. -/
def shown : RawName → String
  | missing => "null"
  | truth value => if value then "true" else "false"
  | number value => value.text
  | text value => value

/-- The identifier that was given, if it is one. -/
def identifier? : RawName → Option String
  | text value => if isIdentifier value then some value else none
  | _ => none

end RawName

/-- Accepts an identifier, and refuses anything else as the name of `what`. -/
def requireIdentifier (name : RawName) (what : String) : Outcome String :=
  match name.identifier? with
  | some value => .ok value
  | none => refuse (.invalidValue name.shown (.notAnIdentifier what))

end QueryPipeline
