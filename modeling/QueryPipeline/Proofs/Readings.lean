import QueryPipeline.Clause.Basic
import QueryPipeline.Dialect.Arrow
import QueryPipeline.Proofs.Expressions
import QueryPipeline.Proofs.Phrases

/-!
# Readings

What the text of an expression tells of it. Numbers, truth values and column references are told
by their texts only, and a remainder or power does not tell whether it was an operator or a call;
all else is told exactly.

* `Expr.normal` and `Clause.normal` take an expression and a clause to what is told of them;
* `Reading.phrase` is the phrase in which a reading is written, and `Phrase.reading` finds the
  reading again;
* `Expr.Regular` are the expressions that are written faithfully: their phrases are well-formed
  (`Regular.phrase_wellFormed`) and **tell their readings** (`Regular.reading_phrase`);
* **`Regular.fragment_eq`**: the arrow dialect writes them as the texts of these phrases.
-/

namespace QueryPipeline

/-! ## 1. Readings -/

/-- An expression as far as its text tells it. -/
inductive Reading
  /-- A number, a truth value or a column, by its text. -/
  | leaf (text : String)
  | string (value : String)
  | date (value : String)
  | unary (op : UnaryOp) (operand : Reading)
  | binary (op : BinaryOp) (left right : Reading)
  | valueList (items : List Reading)
  | call (function : FunctionName) (args : List Reading)
  | named (name : String) (inner : Reading)
  | conditional (test yes no : Reading)
  | ordering (direction : Direction) (term : Reading)
  | grouping (keys selections : List Reading) (having : Option Reading)
  | joining (condition : Reading)
  | foreign (kind source : String)
  deriving Repr

/-- The reading of a literal. -/
def Literal.normal : Literal → Reading
  | string value => .string value
  | date value => .date value
  | value => .leaf value.written

namespace Expr

mutual

/-- The reading of an expression. -/
def normal : Expr → Reading
  | literal value => value.normal
  | column name => .leaf name
  | unary op operand => .unary op (normal operand)
  | binary (.arithmetic .remainder) left right => .call .modulo [normal left, normal right]
  | binary (.arithmetic .power) left right => .call .power [normal left, normal right]
  | binary op left right => .binary op (normal left) (normal right)
  | valueList items => .valueList (items.map Literal.normal)
  | call function args => .call function (normalAll args)
  | named name inner => .named name (normal inner)
  | conditional test yes no => .conditional (normal test) (normal yes) (normal no)
  | ordering direction term => .ordering direction (normal term)
  | grouping keys selections none => .grouping (normalAll keys) (normalAll selections) none
  | grouping keys selections (some having) =>
    .grouping (normalAll keys) (normalAll selections) (some (normal having))
  | joining condition => .joining (normal condition)
  | foreign kind source => .foreign kind source

/-- The readings of a list of expressions. -/
def normalAll : List Expr → List Reading
  | [] => []
  | e :: rest => normal e :: normalAll rest

end

theorem normalAll_eq (es : List Expr) : normalAll es = es.map normal := by
  induction es with
  | nil => rfl
  | cons e rest ih => rw [normalAll, ih, List.map_cons]

end Expr

/-- A clause as far as its text tells it. Row counts are whole numbers. -/
inductive ClauseReading
  | select (columns : List Reading)
  | extend (columns : List Reading)
  | rename (columns : List Reading)
  | filter (predicate : Reading)
  | groupBy (keys selections : List Reading) (having : Option Reading)
  | orderBy (terms : List Reading)
  | limit (count : Option Int)
  | offset (count : Option Int)
  | distinct (columns : List Reading)
  | join (other : TableName) (kind : JoinKind) (condition : Reading)
  | foreign (kind source : String)
  deriving Repr

/-- The reading of a clause. -/
def Clause.normal : Clause → ClauseReading
  | select columns => .select (columns.map Expr.normal)
  | extend columns => .extend (columns.map Expr.normal)
  | rename columns => .rename (columns.map Expr.normal)
  | filter predicate => .filter predicate.normal
  | groupBy keys selections having =>
    .groupBy (keys.map Expr.normal) (selections.map Expr.normal) (having.map Expr.normal)
  | orderBy terms => .orderBy (terms.map fun t => t.toExpr.normal)
  | limit count => .limit count.toInt?
  | offset count => .offset count.toInt?
  | distinct columns => .distinct (columns.map Expr.normal)
  | join other kind condition => .join other kind condition.normal
  | foreign kind source => .foreign kind source

/-! ## 2. Phrases of readings -/

/-- The word in front of the arguments of a call. -/
def FunctionName.written : FunctionName → String
  | modulo => "mod"
  | power => "pow"
  | f => f.text

namespace Reading

mutual

/-- The phrase in which a reading is written. Readings that are never written have an empty one. -/
def phrase : Reading → Phrase
  | leaf text => .word text
  | string value => .quoted value
  | date value => .dated value
  | unary .not operand => .applied "not" [phrase operand]
  | unary .isNull operand => .postfixed "null" (phrase operand)
  | unary .isNotNull operand => .postfixed "not null" (phrase operand)
  | binary op left right => .infixed (op.token?.getD "") (phrase left) (phrase right)
  | valueList items => .listed (phrases items)
  | call function args => .applied function.written (phrases args)
  | named name inner => .named name (phrase inner)
  | conditional test yes no => .applied "if" [phrase test, phrase yes, phrase no]
  | ordering direction term => .directed direction.text (phrase term)
  | unary (.other _) _ | grouping _ _ _ | joining _ | foreign _ _ => .word ""

/-- The phrases of a list of readings. -/
def phrases : List Reading → List Phrase
  | [] => []
  | r :: rest => phrase r :: phrases rest

end

theorem phrases_eq (rs : List Reading) : phrases rs = rs.map phrase := by
  induction rs with
  | nil => rfl
  | cons r rest ih => rw [phrases, ih, List.map_cons]

end Reading

/-! ## 3. Readings of phrases -/

/-- The function that is written by a word. -/
def FunctionName.ofWritten (text : String) : FunctionName :=
  (known.find? fun f => f.written == text).getD (other text)

/-- The operator that is written by a token. -/
def BinaryOp.ofToken (token : String) : BinaryOp :=
  (known.find? fun op => op.token? == some token).getD (other token)

/-- The reading of a word with arguments: a negation, a conditional or a call. -/
def Reading.ofApplied : String → List Reading → Reading
  | "not", [operand] => .unary .not operand
  | "if", [test, yes, no] => .conditional test yes no
  | name, args => .call (.ofWritten name) args

namespace Phrase

mutual

/-- The reading that a phrase tells. -/
def reading : Phrase → Reading
  | word text => .leaf text
  | quoted value => .string value
  | dated value => .date value
  | applied name args => .ofApplied name (readings args)
  | listed items => .valueList (readings items)
  | infixed token left right => .binary (.ofToken token) (reading left) (reading right)
  | postfixed state operand =>
    .unary (if state = "null" then .isNull else .isNotNull) (reading operand)
  | named name inner => .named name (reading inner)
  | directed direction term => .ordering (.ofText direction) (reading term)

/-- The readings that a list of phrases tells. -/
def readings : List Phrase → List Reading
  | [] => []
  | p :: rest => reading p :: readings rest

end

theorem readings_eq (ps : List Phrase) : readings ps = ps.map reading := by
  induction ps with
  | nil => rfl
  | cons p rest ih => rw [readings, ih, List.map_cons]

end Phrase

/-! ## 4. Regular expressions -/

/-- A literal that is written as one word, in quotes, or between percent signs of its own. -/
def Literal.Regular : Literal → Prop
  | integer value => IsWord value.text
  | date value => '%' ∉ value.toList
  | _ => True

/-- An expression that is written faithfully. -/
inductive Expr.Regular : Expr → Prop
  | literal {value : Literal} (h : value.Regular) : Regular (.literal value)
  | column {name : String} (h : isIdentifier name = true) : Regular (.column name)
  | unary {op : UnaryOp} {operand : Expr} (h : op.Known) (hoperand : Regular operand) :
      Regular (.unary op operand)
  | binary {op : BinaryOp} {left right : Expr} (h : op.Known) (hleft : Regular left)
      (hright : Regular right) : Regular (.binary op left right)
  | valueList {items : List Literal} (h : ∀ v ∈ items, v.Regular) : Regular (.valueList items)
  | call {function : FunctionName} {args : List Expr} (h : function.Known)
      (hcount : function.arity? = some args.length) (hargs : ∀ e ∈ args, Regular e) :
      Regular (.call function args)
  | named {name : String} {inner : Expr} (h : isIdentifier name = true) (hinner : Regular inner) :
      Regular (.named name inner)
  | conditional {test yes no : Expr} (htest : Regular test) (hyes : Regular yes)
      (hno : Regular no) : Regular (.conditional test yes no)
  | ordering {direction : Direction} {term : Expr} (h : direction.Known)
      (hterm : Regular term) : Regular (.ordering direction term)

/-- The token of an operator is told apart from all else that may stand behind a phrase. -/
theorem BinaryOp.isToken {op : BinaryOp} (h : op.Known) {token : String}
    (htoken : op.token? = some token) : Phrase.IsToken token := by
  cases op with
  | comparison op => cases op <;> cases htoken <;> exact ⟨by decide, by decide, fun _ => rfl⟩
  | logical op => cases op <;> cases htoken <;> exact ⟨by decide, by decide, fun _ => rfl⟩
  | arithmetic op => cases op <;> cases htoken <;> exact ⟨by decide, by decide, fun _ => rfl⟩
  | bitwise op => cases op <;> cases htoken <;> exact ⟨by decide, by decide, fun _ => rfl⟩
  | other text => exact absurd h (Vocabulary.other_unknown _ text)

theorem BinaryOp.ofToken_token? {op : BinaryOp} (h : op.Known) {token : String}
    (htoken : op.token? = some token) : ofToken token = op := by
  cases op with
  | comparison op => cases op <;> cases htoken <;> rfl
  | logical op => cases op <;> cases htoken <;> rfl
  | arithmetic op => cases op <;> cases htoken <;> rfl
  | bitwise op => cases op <;> cases htoken <;> rfl
  | other text => exact absurd h (Vocabulary.other_unknown _ text)

/-- An operator that has rules has a token, or is a remainder or power. -/
theorem BinaryOp.token?_cases {op : BinaryOp} (h : op.Known) :
    (∃ token, op.token? = some token ∧ ∀ left right : Expr,
      (Expr.binary op left right).normal = .binary op left.normal right.normal) ∨
    op = .arithmetic .remainder ∨ op = .arithmetic .power := by
  cases op with
  | arithmetic op =>
    cases op with
    | remainder => exact Or.inr (Or.inl rfl)
    | power => exact Or.inr (Or.inr rfl)
    | _ => exact Or.inl ⟨_, rfl, fun _ _ => rfl⟩
  | other text => exact absurd h (Vocabulary.other_unknown _ text)
  | _ => exact Or.inl ⟨_, rfl, fun _ _ => rfl⟩

theorem FunctionName.isWord_written {f : FunctionName} (h : f.Known) : IsWord f.written := by
  cases f with
  | other text => exact absurd h (Vocabulary.other_unknown _ text)
  | _ => decide

/-- A call is told apart from negations and conditionals, and its function is told. -/
theorem Reading.ofApplied_written {f : FunctionName} (h : f.Known) (args : List Reading) :
    ofApplied f.written args = .call f args := by
  cases f with
  | other text => exact absurd h (Vocabulary.other_unknown _ text)
  | _ => rfl

theorem Literal.Regular.phrase_wellFormed {value : Literal} (h : value.Regular) :
    value.normal.phrase.WellFormed := by
  cases value with
  | integer value => exact .word h
  | long value => exact .word (isWord_intText value)
  | double value => exact .word (isWord_plainText value)
  | string value => exact .quoted
  | boolean value => cases value <;> exact .word (by decide)
  | date value => exact .dated h

theorem Literal.reading_phrase (value : Literal) : value.normal.phrase.reading = value.normal := by
  cases value <;> rfl

namespace Expr.Regular

/-- **A regular expression is written as a well-formed phrase.** -/
theorem phrase_wellFormed {e : Expr} (h : e.Regular) : e.normal.phrase.WellFormed := by
  induction h with
  | literal h => exact h.phrase_wellFormed
  | column h => exact .word (isWord_of_identifier h)
  | @unary op operand h _ ih =>
    cases op with
    | not =>
      refine .applied (by decide) fun p hp => ?_
      obtain rfl := List.mem_singleton.mp hp
      exact ih
    | isNull => exact .postfixed (by decide) ih
    | isNotNull => exact .postfixed (by decide) ih
    | other text => exact absurd h (Vocabulary.other_unknown _ text)
  | @binary op left right h _ _ ihl ihr =>
    have pair : ∀ p ∈ [left.normal.phrase, right.normal.phrase], p.WellFormed := by
      intro p hp
      simp only [List.mem_cons, List.not_mem_nil, or_false] at hp
      rcases hp with rfl | rfl
      · exact ihl
      · exact ihr
    rcases BinaryOp.token?_cases h with ⟨token, htoken, hnormal⟩ | rfl | rfl
    · rw [hnormal, Reading.phrase, htoken]
      exact .infixed (BinaryOp.isToken h htoken) ihl ihr
    · exact .applied (by decide) pair
    · exact .applied (by decide) pair
  | @valueList items h =>
    rw [normal, Reading.phrase, Reading.phrases_eq]
    refine .listed fun p hp => ?_
    obtain ⟨r, hr, rfl⟩ := List.mem_map.mp hp
    obtain ⟨v, hv, rfl⟩ := List.mem_map.mp hr
    exact (h v hv).phrase_wellFormed
  | @call function args h _ _ ih =>
    rw [normal, Reading.phrase, Reading.phrases_eq, normalAll_eq]
    refine .applied (FunctionName.isWord_written h) fun p hp => ?_
    obtain ⟨r, hr, rfl⟩ := List.mem_map.mp hp
    obtain ⟨e, he, rfl⟩ := List.mem_map.mp hr
    exact ih e he
  | named h _ ih => exact .named (isWord_of_identifier h) ih
  | conditional _ _ _ iht ihy ihn =>
    refine .applied (by decide) fun p hp => ?_
    simp only [List.mem_cons, List.not_mem_nil, or_false] at hp
    rcases hp with rfl | rfl | rfl
    · exact iht
    · exact ihy
    · exact ihn
  | @ordering direction term h _ ih =>
    refine .directed ?_ ih
    cases direction with
    | asc => exact Or.inl rfl
    | desc => exact Or.inr rfl
    | other text => exact absurd h (Vocabulary.other_unknown _ text)

/-- **The phrase of a regular expression tells its reading.** -/
theorem reading_phrase {e : Expr} (h : e.Regular) : e.normal.phrase.reading = e.normal := by
  induction h with
  | literal _ => exact Literal.reading_phrase _
  | column _ => rfl
  | @unary op operand h _ ih =>
    cases op with
    | not =>
      show Reading.unary .not operand.normal.phrase.reading = _
      rw [ih, normal]
    | isNull =>
      show Reading.unary .isNull operand.normal.phrase.reading = _
      rw [ih, normal]
    | isNotNull =>
      show Reading.unary .isNotNull operand.normal.phrase.reading = _
      rw [ih, normal]
    | other text => exact absurd h (Vocabulary.other_unknown _ text)
  | @binary op left right h _ _ ihl ihr =>
    rcases BinaryOp.token?_cases h with ⟨token, htoken, hnormal⟩ | rfl | rfl
    · rw [hnormal, Reading.phrase, htoken, Phrase.reading]
      show Reading.binary (BinaryOp.ofToken token) _ _ = _
      rw [BinaryOp.ofToken_token? h htoken, ihl, ihr]
    · show Reading.call .modulo [left.normal.phrase.reading, right.normal.phrase.reading] = _
      rw [ihl, ihr, normal]
    · show Reading.call .power [left.normal.phrase.reading, right.normal.phrase.reading] = _
      rw [ihl, ihr, normal]
  | @valueList items h =>
    rw [normal, Reading.phrase, Phrase.reading, Reading.phrases_eq, Phrase.readings_eq,
      List.map_map, List.map_map]
    congr 1
    exact List.map_congr_left fun v _ => v.reading_phrase
  | @call function args h _ _ ih =>
    rw [normal, Reading.phrase, Phrase.reading, Reading.ofApplied_written h, Reading.phrases_eq,
      Phrase.readings_eq, normalAll_eq, List.map_map, List.map_map]
    congr 1
    exact List.map_congr_left fun e he => ih e he
  | @named name inner _ _ ih =>
    show Reading.named name inner.normal.phrase.reading = _
    rw [ih, normal]
  | @conditional test yes no _ _ _ iht ihy ihn =>
    show Reading.conditional test.normal.phrase.reading yes.normal.phrase.reading
      no.normal.phrase.reading = _
    rw [iht, ihy, ihn, normal]
  | @ordering direction term h _ ih =>
    show Reading.ordering (.ofText direction.text) term.normal.phrase.reading = _
    have hread : Direction.ofText direction.text = direction := Vocabulary.read_text h
    rw [hread, ih, normal]

/-- **Regular expressions with one phrase have one reading.** -/
theorem normal_injective {e e' : Expr} (h : e.Regular) (h' : e'.Regular)
    (heq : e.normal.phrase = e'.normal.phrase) : e.normal = e'.normal := by
  rw [← h.reading_phrase, heq, h'.reading_phrase]

variable {es es' : List Expr}

theorem phrases_wellFormed (h : ∀ e ∈ es, e.Regular) :
    ∀ p ∈ Reading.phrases (es.map normal), p.WellFormed := by
  rw [Reading.phrases_eq]
  intro p hp
  obtain ⟨r, hr, rfl⟩ := List.mem_map.mp hp
  obtain ⟨e, he, rfl⟩ := List.mem_map.mp hr
  exact (h e he).phrase_wellFormed

theorem readings_phrases (h : ∀ e ∈ es, e.Regular) :
    Phrase.readings (Reading.phrases (es.map normal)) = es.map normal := by
  rw [Reading.phrases_eq, Phrase.readings_eq, List.map_map, List.map_map]
  exact List.map_congr_left fun e he => (h e he).reading_phrase

theorem map_normal_injective (h : ∀ e ∈ es, e.Regular) (h' : ∀ e ∈ es', e.Regular)
    (heq : Reading.phrases (es.map normal) = Reading.phrases (es'.map normal)) :
    es.map normal = es'.map normal := by
  rw [← readings_phrases h, heq, readings_phrases h']

end Expr.Regular

/-! ## 5. What the dialect writes -/

/-- Writes a call under a name, with the texts of its first arguments between commas. -/
def callRenderer (name : String) (count : Nat) : CallRenderer :=
  fun c => name ++ "(" ++ ", ".intercalate ((List.range count).map c.argument) ++ ")"

theorem unaryRenderer_eq (name : String) : unaryRenderer name = callRenderer name 1 := by
  funext c
  simp [unaryRenderer, callRenderer, List.range_succ]

theorem binaryRenderer_eq (name : String) : binaryRenderer name = callRenderer name 2 := by
  funext c
  simp [binaryRenderer, callRenderer, List.range_succ, String.append_assoc]

/-- **The standard renderers**: a function is written under its word with as many arguments as it
    takes. -/
theorem FunctionStrategy.standard_eq_some {f : FunctionName} {renderer : CallRenderer} :
    standard f = some renderer ↔
      ∃ count, f.arity? = some count ∧ callRenderer f.written count = renderer := by
  have hstandard : standard f = f.arity?.map (callRenderer f.written) := by
    cases f with
    | other text => rfl
    | modulo => exact congrArg some (binaryRenderer_eq _)
    | power => exact congrArg some (binaryRenderer_eq _)
    | _ => exact congrArg some (unaryRenderer_eq _)
  rw [hstandard, Option.map_eq_some_iff]

theorem CallSite.map_argument (f : FunctionName) (args : List Expr) (texts : List String) :
    (List.range texts.length).map (CallSite.argument ⟨f, args, texts.map some⟩) = texts := by
  refine List.ext_getElem (by simp) fun i _ h => ?_
  simp [CallSite.argument, Fragment.inline, h]

/-- The standard renderers write a call with the texts of its arguments, if their number is
    right. -/
theorem FunctionStrategy.standard_written {f : FunctionName} (args : List Expr)
    (texts : List String) (hcount : f.arity? = some texts.length) :
    ∃ renderer, standard f = some renderer ∧ renderer ⟨f, args, texts.map some⟩ =
      f.written ++ "(" ++ ", ".intercalate texts ++ ")" := by
  refine ⟨_, standard_eq_some.mpr ⟨_, hcount, rfl⟩, ?_⟩
  rw [callRenderer, CallSite.map_argument]

theorem BinaryOp.written?_of_token {op : BinaryOp} {token : String} (h : op.token? = some token)
    (left right : String) :
    op.written? left right = some ("(" ++ left ++ " " ++ token ++ " " ++ right ++ ")") := by
  cases op with
  | arithmetic op => cases op <;> cases h <;> rfl
  | other text =>
    show (BinaryOp.token? (.other text)).map _ = _
    rw [h]
    rfl
  | _ =>
    cases h
    rfl

theorem Literal.text_phrase (value : Literal) : value.normal.phrase.text = value.written := by
  cases value <;> rfl

namespace Expr.Regular

variable {d : Arrow}

theorem fragments_eq {es : List Expr}
    (h : ∀ e ∈ es, d.fragment e = .ok (some e.normal.phrase.text)) :
    d.fragments es = .ok ((es.map fun e => e.normal.phrase.text).map some) := by
  induction es with
  | nil => rfl
  | cons e rest ih =>
    rw [Arrow.fragments, h e List.mem_cons_self, ih fun e he => h e (List.mem_cons_of_mem _ he)]
    rfl

/-- **The dialect writes a regular expression as the text of its phrase.** -/
theorem fragment_eq (standard : d.functions = .standard) {e : Expr} (h : e.Regular) :
    d.fragment e = .ok (some e.normal.phrase.text) := by
  induction h with
  | @literal value _ => rw [Arrow.fragment, normal, Literal.text_phrase]
  | column _ => rfl
  | @unary op operand h _ ih =>
    rw [Arrow.fragment, ih]
    cases op with
    | not => simp [UnaryOp.written, normal, Reading.phrase, Phrase.text, Phrase.texts,
        Fragment.inline]
    | isNull => simp [UnaryOp.written, normal, Reading.phrase, Phrase.text, Fragment.inline,
        String.append_assoc]
    | isNotNull => simp [UnaryOp.written, normal, Reading.phrase, Phrase.text, Fragment.inline,
        String.append_assoc]
    | other text => exact absurd h (Vocabulary.other_unknown _ text)
  | @binary op left right h _ _ ihl ihr =>
    rw [Arrow.fragment, ihl, ihr]
    rcases BinaryOp.token?_cases h with ⟨token, htoken, hnormal⟩ | rfl | rfl
    · rw [hnormal, Reading.phrase, htoken]
      simp only [Outcome.ok_bind, BinaryOp.written?_of_token htoken]
      rfl
    · simp [BinaryOp.written?, normal, Reading.phrase, Reading.phrases, Phrase.text, Phrase.texts,
        Fragment.inline, FunctionName.written, String.append_assoc]
    · simp [BinaryOp.written?, normal, Reading.phrase, Reading.phrases, Phrase.text, Phrase.texts,
        Fragment.inline, FunctionName.written, String.append_assoc]
  | @valueList items h =>
    have htexts : items.map Literal.written =
        (((items.map Literal.normal).map Reading.phrase).map Phrase.text) := by
      rw [List.map_map, List.map_map]
      exact List.map_congr_left fun v _ => v.text_phrase.symm
    rw [Arrow.fragment, normal, Reading.phrase, Phrase.text, Reading.phrases_eq, Phrase.texts_eq,
      htexts, bracketed]
  | @call function args h hcount _ ih =>
    have hlength : function.arity? = some (args.map fun e => e.normal.phrase.text).length := by
      rw [List.length_map]
      exact hcount
    obtain ⟨renderer, hrenderer, hwritten⟩ :=
      FunctionStrategy.standard_written args (args.map fun e => e.normal.phrase.text) hlength
    have htexts : args.map (fun e => e.normal.phrase.text) =
        (((args.map normal).map Reading.phrase).map Phrase.text) := by
      rw [List.map_map, List.map_map]
      rfl
    rw [Arrow.fragment, standard, hrenderer, normal, Reading.phrase, Phrase.text,
      Reading.phrases_eq, Phrase.texts_eq, normalAll_eq, ← htexts, ← hwritten]
    show (d.fragments args >>= fun texts => pure (some (renderer ⟨function, args, texts⟩))) = _
    rw [fragments_eq ih]
    rfl
  | named _ _ ih =>
    rw [Arrow.fragment, ih]
    rfl
  | conditional _ _ _ iht ihy ihn =>
    rw [Arrow.fragment, iht, ihy, ihn]
    simp [normal, Reading.phrase, Phrase.text, Phrase.texts, Fragment.inline, String.append_assoc]
  | ordering _ _ ih =>
    rw [Arrow.fragment, ih]
    rfl

end Expr.Regular
end QueryPipeline
