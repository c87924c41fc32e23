import QueryPipeline.Dialect.Renderer
import QueryPipeline.Function.Strategy
import QueryPipeline.Text.Quoted

/-!
# The arrow dialect

Pipelines as text in which the source table is followed by one line `->operation(arguments)` for
each clause.

* operators stand between their operands in parentheses, calls are written by a strategy;
* an ordering is written by its directions alone or with its terms (`OrderStyle`), and the two
  row counts by a `Pagination`;
* the dialect has no `distinct`, no groupings or joins as values, and no operators and functions
  without a token or renderer: these are refused.
-/

namespace QueryPipeline

/-! ## 1. Options -/

/-- How an ordering term is written: its direction alone, or after the term. -/
inductive OrderStyle
  | direction | term
  deriving DecidableEq, Repr

/-- How the two row counts are written. -/
structure Pagination where
  limit : Binary64 → String
  offset : Binary64 → String

/-- Row counts as calls of the given names. -/
def Pagination.ofNames (limit offset : String) : Pagination where
  limit count := limit ++ "(" ++ count.text ++ ")"
  offset count := offset ++ "(" ++ count.text ++ ")"

/-- Row counts as `take(n)` and `drop(n)`. -/
def Pagination.takeDrop : Pagination := ofNames "take" "drop"

/-- The options of the dialect. -/
structure Arrow where
  orderStyle : OrderStyle := .direction
  pagination : Pagination := .takeDrop
  functions : FunctionStrategy := .standard

/-! ## 2. Tokens -/

/-- The text that a table of tokens gives for a word which it answers although nothing was put
    there. -/
def reservedText (word : String) : String :=
  if word = reservedKey then "[object Object]"
  else if word = "constructor" then "function Object() \x7b [native code] \x7d"
  else "function " ++ word ++ "() \x7b [native code] \x7d"

/-- The words that every table of tokens answers, with the texts that they give. -/
def reservedTokens : List (String × String) :=
  reservedWords.map fun word => (word, reservedText word)

/-- The token of a comparison. -/
def Comparison.token : Comparison → String
  | .equal => "=="
  | .notEqual => "!="
  | .greater => ">"
  | .greaterOrEqual => ">="
  | .less => "<"
  | .lessOrEqual => "<="
  | .like => "like"
  | .isIn => "in"
  | .notIn => "notIn"

/-- The token of a logical operator. -/
def Connective.token : Connective → String
  | .and => "&&"
  | .or => "||"

/-- The token of an arithmetic operator that stands between its operands. -/
def Arithmetic.token? : Arithmetic → Option String
  | .remainder | .power => none
  | op => some op.text

/-- The token of an operator that stands between its operands. A text that is no operator has one
    only if it is reserved. -/
def BinaryOp.token? : BinaryOp → Option String
  | .comparison op => some op.token
  | .logical op => some op.token
  | .arithmetic op => op.token?
  | .bitwise op => some op.text
  | .other text => reservedTokens.lookup text

/-- The text of an operator with the texts of its operands; remainders and powers are written as
    calls. -/
def BinaryOp.written? (op : BinaryOp) (left right : String) : Option String :=
  match op with
  | .arithmetic .remainder => some ("mod(" ++ left ++ ", " ++ right ++ ")")
  | .arithmetic .power => some ("pow(" ++ left ++ ", " ++ right ++ ")")
  | _ => op.token?.map fun token => "(" ++ left ++ " " ++ token ++ " " ++ right ++ ")"

/-- The text of an operator with the text of its operand. An operator without rules has no text,
    which is no reason to refuse it. -/
def UnaryOp.written (op : UnaryOp) (operand : String) : Fragment :=
  match op with
  | .not => some ("not(" ++ operand ++ ")")
  | .isNull => some ("(" ++ operand ++ " is null)")
  | .isNotNull => some ("(" ++ operand ++ " is not null)")
  | .other _ => none

/-- The text of a literal. -/
def Literal.written : Literal → String
  | .integer v => v.text
  | .long n => intText n
  | .double v => v.plainText
  | .string s => Quoted.write s
  | .boolean b => if b then "true" else "false"
  | .date d => "%" ++ d ++ "%"

/-- The word for a join kind. A text that is none has one only if it is reserved. -/
def JoinKind.token : JoinKind → Fragment
  | .inner => some "INNER"
  | .left => some "LEFT_OUTER"
  | .other text => reservedTokens.lookup text

/-- A list in brackets. -/
def bracketed (text : String) : String := "[" ++ text ++ "]"

/-- An operation on a line of its own. -/
def operation (name args : String) : String := "\n->" ++ name ++ "(" ++ args ++ ")"

namespace Arrow

/-- The name of the dialect. -/
def name : String := "pure-relation"

/-- Refuses what the dialect lacks. -/
def unsupported {α : Type} (kind : String) : Outcome α := refuse (.unsupported kind name)

/-! ## 3. Expressions -/

mutual

/-- The text of an expression. -/
def fragment (d : Arrow) : Expr → Outcome Fragment
  | .literal value => .ok (some value.written)
  | .column name => .ok (some name)
  | .unary op operand => do
    let text ← fragment d operand
    return op.written text.inline
  | .binary op left right => do
    let leftText ← fragment d left
    let rightText ← fragment d right
    match op.written? leftText.inline rightText.inline with
    | some text => return some text
    | none => unsupported op.text
  | .valueList items => .ok (some (bracketed (", ".intercalate (items.map Literal.written))))
  | .call f args =>
    match d.functions f with
    | none => unsupported f.text
    | some renderer => do
      let texts ← fragments d args
      return some (renderer ⟨f, args, texts⟩)
  | .named name inner => do
    let text ← fragment d inner
    return some (text.inline ++ " as " ++ name)
  | .conditional test yes no => do
    let testText ← fragment d test
    let yesText ← fragment d yes
    let noText ← fragment d no
    return some ("if(" ++ testText.inline ++ ", " ++ yesText.inline ++ ", " ++ noText.inline ++ ")")
  | .ordering direction term => do
    let text ← fragment d term
    return some (text.inline ++ " " ++ direction.text)
  | .grouping _ _ _ => unsupported NodeKind.grouping.name
  | .joining _ => unsupported NodeKind.joining.name
  | .foreign _ source => .error (Expr.unexpected source)

/-- The texts of a list of expressions, from left to right. -/
def fragments (d : Arrow) : List Expr → Outcome (List Fragment)
  | [] => .ok []
  | e :: rest => do
    let text ← fragment d e
    let texts ← fragments d rest
    return text :: texts

end

/-- The texts of a list of expressions with commas between them. -/
def listText (d : Arrow) (es : List Expr) : Outcome String := do
  return Fragment.listed ", " (← d.fragments es)

/-- The text of an expression inside a longer text. -/
def inlineText (d : Arrow) (e : Expr) : Outcome String := do
  return (← d.fragment e).inline

/-! ## 4. Clauses -/

/-- The text of an ordering term in the style of the dialect. -/
def termText (d : Arrow) (t : OrderTerm) : Outcome String :=
  match d.orderStyle with
  | .direction => .ok t.direction.text
  | .term => do return (← d.inlineText t.term) ++ " " ++ t.direction.text

/-- The texts of ordering terms, from left to right. -/
def termTexts (d : Arrow) : List OrderTerm → Outcome (List String)
  | [] => .ok []
  | t :: rest => do
    let text ← d.termText t
    let texts ← termTexts d rest
    return text :: texts

/-- The text of a condition on groups, behind a comma. -/
def havingText (d : Arrow) : Option Expr → Outcome String
  | none => .ok ""
  | some e => do return ", " ++ (← d.inlineText e)

/-- The keys, selections and condition of a grouping. -/
def groupingText (d : Arrow) (keys selections : List Expr) (having : Option Expr) :
    Outcome String := do
  let keysText ← d.listText keys
  let selectionsText ← d.listText selections
  let havingText ← d.havingText having
  return bracketed keysText ++ ", " ++ bracketed selectionsText ++ havingText

/-- The text of a clause, or why the dialect has none. -/
def clauseText (d : Arrow) : Clause → Outcome String
  | .select columns => do return operation "project" (bracketed (← d.listText columns))
  | .extend columns => do return operation "extend" (bracketed (← d.listText columns))
  | .rename columns => do return operation "rename" (bracketed (← d.listText columns))
  | .filter predicate => do return operation "filter" (← d.inlineText predicate)
  | .groupBy keys selections having => do
    return operation "groupBy" (← d.groupingText keys selections having)
  | .orderBy terms => do
    return operation "sort" (bracketed (", ".intercalate (← d.termTexts terms)))
  | .limit count => .ok ("\n->" ++ d.pagination.limit count)
  | .offset count => .ok ("\n->" ++ d.pagination.offset count)
  | .distinct _ => unsupported ClauseKind.distinct.name
  | .join other kind condition => do
    let text ← d.inlineText condition
    return operation "join" (other.text ++ ", " ++ kind.token.inline ++ ", " ++ text)
  | .foreign _ source => .error (Clause.unexpected source)

/-- The text that a clause adds; a refusal is attributed to the clause. -/
def renderSuffix (d : Arrow) (c : Clause) : Outcome String :=
  (d.clauseText c).mapError (Failure.inClauseIfUnknown c.kindName)

/-- The text of a pipeline. -/
def render (d : Arrow) (source : TableName) (clauses : List Clause) : Outcome String := do
  return source.text ++ (← suffixTexts d.renderSuffix clauses)

/-- The dialect as a renderer. -/
def renderer (d : Arrow) : Renderer := ⟨name, d.render, d.renderSuffix⟩

end Arrow
end QueryPipeline
