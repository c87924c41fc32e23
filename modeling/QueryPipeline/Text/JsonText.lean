/-!
# JSON texts

Strings as JSON writes them: in double quotes, with an escape for the quote, the backslash and the
control characters, and every other character as it is. Lists and records have no blanks in them.
Nodes of unknown kind are shown in this form.
-/

namespace QueryPipeline
namespace JsonText

/-- The hexadecimal digit of a number below sixteen. -/
def hexDigit (n : Nat) : Char := Char.ofNat (if n < 10 then 48 + n else 87 + n)

/-- A character inside of a string. -/
def charText (c : Char) : List Char :=
  if c = '"' ∨ c = '\\' then ['\\', c]
  else if c = '\n' then ['\\', 'n']
  else if c = '\t' then ['\\', 't']
  else if c = '\r' then ['\\', 'r']
  else if c.toNat = 8 then ['\\', 'b']
  else if c.toNat = 12 then ['\\', 'f']
  else if c.toNat < 32 then ['\\', 'u', '0', '0', hexDigit (c.toNat / 16), hexDigit (c.toNat % 16)]
  else [c]

/-- A string in quotes. -/
def string (s : String) : String :=
  String.ofList ('"' :: s.toList.flatMap charText ++ ['"'])

/-- A list of written values. -/
def list (items : List String) : String := "[" ++ ",".intercalate items ++ "]"

/-- A record of written values. -/
def record (fields : List (String × String)) : String :=
  "\x7b" ++ ",".intercalate (fields.map fun f => string f.1 ++ ":" ++ f.2) ++ "\x7d"

end JsonText
end QueryPipeline
