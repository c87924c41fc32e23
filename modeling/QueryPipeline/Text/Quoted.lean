/-!
# Quoted texts

String values inside a rendered pipeline: a text between two quotes, where a backslash stands in
front of each backslash and each quote of the value.

* `Quoted.write` is the written form;
* `Quoted.scan` reads one written value off the front of a text and gives what follows it.

Values are sequences of Unicode scalar values; texts with unpaired surrogates are outside of the
model.
-/

namespace QueryPipeline
namespace Quoted

/-- The character that opens and closes a value. -/
def quote : Char := '\x27'

/-- The character that takes away the meaning of the next one. -/
def escape : Char := '\\'

/-- The characters of a value with an escape before each quote and each escape. -/
def body : List Char → List Char
  | [] => []
  | c :: rest => if c = quote ∨ c = escape then escape :: c :: body rest else c :: body rest

/-- A value in quotes. -/
def writeChars (s : List Char) : List Char := quote :: body s ++ [quote]

/-- A value in quotes. -/
def write (s : String) : String := String.ofList (writeChars s.toList)

/-- Reads up to the first quote that no escape precedes: the characters read, with escapes taken
    away, and what follows the quote. -/
def scanBody : List Char → Option (List Char × List Char)
  | [] => none
  | c :: rest =>
    if c = quote then some ([], rest)
    else if c = escape then
      match rest with
      | [] => none
      | d :: rest => (scanBody rest).map fun (s, after) => (d :: s, after)
    else (scanBody rest).map fun (s, after) => (c :: s, after)

/-- Reads a value in quotes off the front of a text, and gives what follows it. -/
def scan : List Char → Option (List Char × List Char)
  | [] => none
  | c :: rest => if c = quote then scanBody rest else none

end Quoted
end QueryPipeline
