import Mathlib.Data.List.Forall2
import QueryPipeline.Proofs.Quotations
import QueryPipeline.Proofs.Readings
import QueryPipeline.Proofs.Rewriting

/-!
# String values in expressions

Where the string values of an expression go when it is written: each into quotes of its own, and
nothing of them elsewhere.

* `Uniform` is a computation for every change of the string values that ends alike for all of them:
  with one result, seen through each change, or with one failure;
* `Quoted.Holds` says of parts which values they hold, and when none of the rest is a quote;
* `Expr.strings` are the string values that are written for an expression, and `Expr.restring`
  changes them at a node;
* `BinaryOp.written?_fill`, `HoldAll.standard_fill`: operators and the standard calls are written
  from the parts of their operands and arguments;
* **`Arrow.fragment_uniform`**: so an expression is written from parts that hold its string values.
-/

namespace QueryPipeline

open Quoted (Part Unquoted fill own values)

/-! ## 1. Results for all string values -/

section Uniform

variable {α β γ δ : Type} {P : α → Prop} {Q : γ → Prop} {view : (String → String) → α → β}
  {view' : (String → String) → γ → δ} {x : (String → String) → Outcome β}

/-- A result for every change of the string values. It is one result, seen through each of the
    changes, or the same failure for all of them. -/
inductive Uniform (P : α → Prop) (view : (String → String) → α → β)
    (x : (String → String) → Outcome β) : Prop
  | ok (a : α) (h : P a) (hx : ∀ f, x f = .ok (view f a))
  | error (failure : Failure) (hx : ∀ f, x f = .error failure)

namespace Uniform

/-- **Chains are uniform** if their first parts are, and their rests are on every result. -/
theorem bind {next : (String → String) → β → Outcome δ} (h : Uniform P view x)
    (hnext : ∀ a, P a → Uniform Q view' fun f => next f (view f a)) :
    Uniform Q view' fun f => x f >>= next f := by
  cases h with
  | ok a ha hx =>
    have hsame : (fun f => x f >>= next f) = fun f => next f (view f a) := by
      funext f
      rw [hx f]
      rfl
    rw [hsame]
    exact hnext a ha
  | error failure hx =>
    refine .error failure fun f => ?_
    rw [hx f]
    rfl

/-- A rest that cannot fail. -/
theorem bind_ok {next : (String → String) → β → δ} (h : Uniform P view x)
    (hnext : ∀ a, P a → ∃ b, Q b ∧ ∀ f, next f (view f a) = view' f b) :
    Uniform Q view' fun f => x f >>= fun b => pure (next f b) := by
  refine h.bind fun a ha => ?_
  obtain ⟨b, hb, hsame⟩ := hnext a ha
  exact .ok b hb fun f => congrArg Except.ok (hsame f)

/-- One result in front of several. -/
theorem cons {R S : List α → Prop} {xs : (String → String) → Outcome (List β)}
    (h : Uniform P view x) (hrest : Uniform R (fun f as => as.map (view f)) xs)
    (hall : ∀ a as, P a → R as → S (a :: as)) :
    Uniform S (fun f as => as.map (view f)) fun f => do
      let b ← x f
      let bs ← xs f
      return b :: bs :=
  h.bind fun a ha => hrest.bind_ok fun as has => ⟨a :: as, hall a as ha has, fun _ => rfl⟩

/-- What holds of the one result may be replaced by what it implies. -/
theorem weaken {R : α → Prop} (h : Uniform P view x) (himp : ∀ a, P a → R a) :
    Uniform R view x := by
  cases h with
  | ok a ha hx => exact .ok a (himp a ha) hx
  | error failure hx => exact .error failure hx

theorem mapError (g : Failure → Failure) (h : Uniform P view x) :
    Uniform P view fun f => (x f).mapError g := by
  cases h with
  | ok a ha hx => exact .ok a ha fun f => by rw [hx f]; rfl
  | error failure hx => exact .error (g failure) fun f => by rw [hx f]; rfl

end Uniform
end Uniform

/-! ## 2. What parts hold -/

namespace Quoted

/-- Parts with the given values, and without a quote of their own if the condition is met. -/
structure Holds (vs : List String) (clean : Prop) (parts : List Part) : Prop where
  values_eq : values parts = vs
  unquoted : clean → .plain quote ∉ parts

namespace Holds

variable {vs ws : List String} {clean : Prop} {a b : List Part}

theorem own {s : String} (h : clean → Unquoted s) : Holds [] clean (own s) :=
  ⟨values_own s, fun hc hmem => h hc ((plain_mem_own s).mp hmem)⟩

theorem value (s : String) : Holds [s] clean [.value s] := ⟨rfl, fun _ => by simp⟩

theorem mono {weaker : Prop} (h : Holds vs clean a) (hclean : weaker → clean) :
    Holds vs weaker a := ⟨h.values_eq, fun hw => h.unquoted (hclean hw)⟩

theorem append (ha : Holds vs clean a) (hb : Holds ws clean b) :
    Holds (vs ++ ws) clean (a ++ b) := by
  refine ⟨by rw [values_append, ha.values_eq, hb.values_eq], fun hc hmem => ?_⟩
  rcases List.mem_append.mp hmem with hmem | hmem
  · exact ha.unquoted hc hmem
  · exact hb.unquoted hc hmem

/-- Parts between two texts. -/
theorem between {left right : String} (ha : Holds vs clean a) (hleft : Unquoted left)
    (hright : Unquoted right) : Holds vs clean (Quoted.own left ++ a ++ Quoted.own right) := by
  simpa using ((own fun _ => hleft).append ha).append (own fun _ => hright)

/-- Parts with a text between them. -/
theorem joined {middle : String} (ha : Holds vs clean a) (h : Unquoted middle)
    (hb : Holds ws clean b) : Holds (vs ++ ws) clean (a ++ Quoted.own middle ++ b) := by
  simpa using (ha.append (own fun _ => h)).append hb

/-- Parts in front of a text. -/
theorem followed {right : String} (h : clean → Unquoted right) (ha : Holds vs clean a) :
    Holds vs clean (a ++ Quoted.own right) := by
  simpa using ha.append (own h)

/-- Parts behind a text. -/
theorem preceded {left : String} (h : clean → Unquoted left) (ha : Holds vs clean a) :
    Holds vs clean (Quoted.own left ++ a) := (own h).append ha

/-- Lists of parts with a text between each two of them. -/
theorem intercalate {α : Type} {strings : α → List String} {as : List α}
    {lists : List (List Part)} {separator : String}
    (h : List.Forall₂ (fun a parts => Holds (strings a) clean parts) as lists)
    (hseparator : Unquoted separator) :
    Holds (as.flatMap strings) clean ((Quoted.own separator).intercalate lists) := by
  refine ⟨?_, fun hc => not_mem_intercalate (mt (plain_mem_own separator).mp hseparator) ?_⟩
  · rw [values_intercalate]
    induction h with
    | nil => rfl
    | cons ha _ ih => rw [List.flatMap_cons, List.flatMap_cons, ha.values_eq, ih]
  · induction h with
    | nil => exact fun _ hp => absurd hp List.not_mem_nil
    | cons ha _ ih => exact List.forall_mem_cons.mpr ⟨ha.unquoted hc, ih⟩

end Holds

/-- The parts of a list in brackets. -/
def bracketedParts (parts : List Part) : List Part := own "[" ++ parts ++ own "]"

theorem bracketed_fill (f : String → String) (parts : List Part) :
    bracketed (fill f parts) = fill f (bracketedParts parts) := by
  simp [bracketed, bracketedParts, String.append_assoc]

theorem Holds.bracketed {vs : List String} {clean : Prop} {parts : List Part}
    (h : Holds vs clean parts) : Holds vs clean (bracketedParts parts) :=
  h.between (by decide) (by decide)

/-- The parts of a word with arguments behind it. -/
def calledParts (name : String) (lists : List (List Part)) : List Part :=
  own (name ++ "(") ++ (own ", ").intercalate lists ++ own ")"

theorem called_fill (f : String → String) (name : String) (lists : List (List Part)) :
    name ++ "(" ++ ", ".intercalate (lists.map (fill f)) ++ ")" =
      fill f (calledParts name lists) := by
  rw [intercalate_fill]
  simp [calledParts, String.append_assoc]

/-- **A word with arguments holds what they hold.** -/
theorem Holds.called {α : Type} {strings : α → List String} {as : List α}
    {lists : List (List Part)} {clean : Prop} {name : String} (hname : Unquoted name)
    (h : List.Forall₂ (fun a parts => Holds (strings a) clean parts) as lists) :
    Holds (as.flatMap strings) clean (calledParts name lists) :=
  (Holds.intercalate h (by decide : Unquoted ", ")).between
    (unquoted_append.mpr ⟨hname, by decide⟩) (by decide)

end Quoted

/-! ## 3. String values of expressions -/

namespace Literal

/-- The string value of a constant, if it is one. -/
def strings : Literal → List String
  | string s => [s]
  | _ => []

/-- The constant with its string value changed. -/
def restring (f : String → String) : Literal → Literal
  | string s => string (f s)
  | value => value

/-- The parts of a written constant. -/
def parts : Literal → List Part
  | string s => [.value s]
  | value => own value.written

theorem written_restring (f : String → String) (value : Literal) :
    (value.restring f).written = fill f value.parts := by
  cases value with
  | string s => exact (Quoted.fill_value s).symm
  | _ => exact (Quoted.fill_own _).symm

end Literal

namespace Expr

mutual

/-- The string values that are written for an expression, in order. A call writes as many arguments
    as its function takes, and an operator without rules no operand. -/
def strings : Expr → List String
  | literal value => value.strings
  | column _ | grouping _ _ _ | joining _ | foreign _ _ | unary (.other _) _ => []
  | unary _ operand => operand.strings
  | binary _ left right => left.strings ++ right.strings
  | valueList items => items.flatMap Literal.strings
  | call function args => ((stringsAll args).take (function.arity?.getD 0)).flatten
  | named _ inner => inner.strings
  | conditional test yes no => test.strings ++ yes.strings ++ no.strings
  | ordering _ term => term.strings

/-- The string values of each of several expressions. -/
def stringsAll : List Expr → List (List String)
  | [] => []
  | e :: rest => e.strings :: stringsAll rest

end

theorem stringsAll_eq (es : List Expr) : stringsAll es = es.map strings := by
  induction es with
  | nil => rfl
  | cons e rest ih => rw [stringsAll, ih, List.map_cons]

/-- Changes the string values of a single node. -/
def restring (f : String → String) : Expr → Expr
  | literal value => literal (value.restring f)
  | valueList items => valueList (items.map (Literal.restring f))
  | e => e

theorem restring_id (e : Expr) : restring id e = e := by
  have hliteral (value : Literal) : value.restring id = value := by
    cases value <;> rfl
  cases e with
  | literal value => rw [restring, hliteral]
  | valueList items => rw [restring, List.map_congr_left fun v _ => hliteral v, List.map_id']
  | _ => rfl

/-- The texts of a node besides string values and the words of a dialect. -/
def ownTexts : Expr → List String
  | literal (.string _) => []
  | literal value => [value.written]
  | column name => [name]
  | named name _ => [name]
  | ordering direction _ => [direction.text]
  | _ => []

/-- No name, number or date in an expression has a quote in it. -/
def Unquoted (e : Expr) : Prop := ∀ n ∈ e.nodes, ∀ t ∈ n.ownTexts, Quoted.Unquoted t

theorem unquoted_iff {e : Expr} :
    e.Unquoted ↔ (∀ t ∈ e.ownTexts, Quoted.Unquoted t) ∧ ∀ c ∈ e.children, c.Unquoted :=
  forall_nodes

theorem Unquoted.own {e : Expr} (h : e.Unquoted) : ∀ t ∈ e.ownTexts, Quoted.Unquoted t :=
  (unquoted_iff.mp h).1

theorem Unquoted.child {e c : Expr} (h : e.Unquoted) (hc : c ∈ e.children) : c.Unquoted :=
  (unquoted_iff.mp h).2 c hc

end Expr

theorem Literal.holds_parts (value : Literal) :
    Quoted.Holds value.strings (Expr.literal value).Unquoted value.parts := by
  cases value with
  | string s => exact .value s
  | _ => exact .own fun h => h.own _ List.mem_cons_self

/-! ## 4. Texts of expressions -/

namespace Quoted

/-- The parts of a fragment inside a longer text. -/
def inlineParts (fragment : Option (List Part)) : List Part := fragment.getD (own "undefined")

theorem inline_fill (f : String → String) (fragment : Option (List Part)) :
    Fragment.inline (fragment.map (fill f)) = fill f (inlineParts fragment) := by
  cases fragment with
  | none => exact (fill_own _).symm
  | some parts => rfl

end Quoted

open Quoted (Holds inlineParts inline_fill)

/-- The words that a table of tokens answers although nothing was put there have no quote. -/
theorem unquoted_reserved {text token : String} (h : reservedTokens.lookup text = some token) :
    Unquoted token := by
  have hall : ∀ entry ∈ reservedTokens, Unquoted entry.2 := by
    refine List.forall_mem_map.mpr fun word hword => ?_
    have hname : Unquoted word := by
      revert word
      decide
    show Unquoted (reservedText word)
    unfold reservedText
    split
    · decide
    · split
      · decide
      · simp only [Quoted.unquoted_append]
        exact ⟨⟨by decide, hname⟩, by decide⟩
  obtain ⟨before, after, hentries, _⟩ := List.lookup_eq_some_iff.mp h
  exact hall (text, token) (hentries ▸ List.mem_append_right before List.mem_cons_self)

/-- The words between operands have no quote in them. -/
theorem BinaryOp.unquoted_token {op : BinaryOp} {token : String} (h : op.token? = some token) :
    Unquoted token := by
  cases op with
  | comparison op => cases op <;> cases h <;> decide
  | logical op => cases op <;> cases h <;> decide
  | arithmetic op => cases op <;> cases h <;> decide
  | bitwise op => cases op <;> cases h <;> decide
  | other text => exact unquoted_reserved h

/-- The parts of two operands as arguments of a word. -/
theorem Quoted.Holds.calledPair {vs ws : List String} {clean : Prop} {a b : List Part}
    {name : String} (hname : Unquoted name) (ha : Holds vs clean a) (hb : Holds ws clean b) :
    Holds (vs ++ ws) clean (Quoted.calledParts name [a, b]) ∧
      ∀ f, name ++ "(" ++ fill f a ++ ", " ++ fill f b ++ ")" =
        fill f (Quoted.calledParts name [a, b]) := by
  have hpair : List.Forall₂ (fun vs parts => Holds vs clean parts) [vs, ws] [a, b] :=
    .cons ha (.cons hb .nil)
  refine ⟨by simpa using Holds.called hname hpair, fun f => ?_⟩
  rw [← Quoted.called_fill]
  simp [String.append_assoc]

/-- **An operator is written from the parts of its operands**, or it has no text. -/
theorem BinaryOp.written?_fill (op : BinaryOp) {vs ws : List String} {clean : Prop}
    {a b : List Part} (ha : Holds vs clean a) (hb : Holds ws clean b) :
    (∀ f, op.written? (fill f a) (fill f b) = none) ∨
      ∃ parts, Holds (vs ++ ws) clean parts ∧
        ∀ f, op.written? (fill f a) (fill f b) = some (fill f parts) := by
  cases htoken : op.token? with
  | some token =>
    have hmiddle : Unquoted (" " ++ token ++ " ") := by
      simp only [Quoted.unquoted_append]
      exact ⟨⟨by decide, unquoted_token htoken⟩, by decide⟩
    have hparts := (ha.joined hmiddle hb).between (by decide : Unquoted "(")
      (by decide : Unquoted ")")
    refine Or.inr ⟨_, hparts, fun f => ?_⟩
    rw [written?_of_token htoken]
    simp [String.append_assoc]
  | none =>
    cases op with
    | arithmetic op =>
      cases op with
      | remainder =>
        obtain ⟨hparts, hfill⟩ := ha.calledPair (by decide : Unquoted "mod") hb
        exact Or.inr ⟨_, hparts, fun f => congrArg some (hfill f)⟩
      | power =>
        obtain ⟨hparts, hfill⟩ := ha.calledPair (by decide : Unquoted "pow") hb
        exact Or.inr ⟨_, hparts, fun f => congrArg some (hfill f)⟩
      | _ => cases htoken
    | other text =>
      refine Or.inl fun f => ?_
      show (BinaryOp.token? (.other text)).map _ = _
      rw [htoken]
      rfl
    | _ => cases htoken

/-- Expressions and the parts of their texts. -/
def HoldAll (clean : Prop) : List Expr → List (Option (List Part)) → Prop :=
  List.Forall₂ fun e o => Holds e.strings clean (inlineParts o)

/-- The parts of an argument. -/
def argumentParts (os : List (Option (List Part))) (i : Nat) : List Part :=
  inlineParts (os[i]?.getD none)

/-- The string values of an argument. -/
def argumentStrings (args : List Expr) (i : Nat) : List String :=
  (args[i]?.map Expr.strings).getD []

/-- What stands at the first places of a list, where there is anything. -/
theorem flatMap_range_getElem? {α : Type} (lists : List (List α)) (count : Nat) :
    ((List.range count).flatMap fun i => lists[i]?.getD []) = (lists.take count).flatten := by
  induction count with
  | zero => rfl
  | succ count ih =>
    rw [List.range_succ, List.flatMap_append, ih, List.flatMap_singleton, List.take_add_one,
      List.flatten_append]
    cases lists[count]? <;> simp

theorem strings_call {function : FunctionName} {count : Nat} (h : function.arity? = some count)
    (args : List Expr) :
    (Expr.call function args).strings = (List.range count).flatMap (argumentStrings args) := by
  have hstrings : argumentStrings args = fun i => (Expr.stringsAll args)[i]?.getD [] := by
    funext i
    rw [Expr.stringsAll_eq, List.getElem?_map, argumentStrings]
  rw [Expr.strings, h, hstrings, flatMap_range_getElem?]
  rfl

theorem argument_fill (f : String → String) (function : FunctionName) (args : List Expr)
    (os : List (Option (List Part))) (i : Nat) :
    CallSite.argument ⟨function, args, os.map (Option.map (fill f))⟩ i =
      fill f (argumentParts os i) := by
  rw [CallSite.argument, List.getElem?_map, argumentParts, ← inline_fill]
  cases os[i]? <;> rfl

namespace HoldAll

variable {clean : Prop} {args : List Expr} {os : List (Option (List Part))}

theorem argument (h : HoldAll clean args os) (i : Nat) :
    Holds (argumentStrings args i) clean (argumentParts os i) := by
  induction h generalizing i with
  | nil => exact .own fun _ => by decide
  | cons he _ ih =>
    cases i with
    | zero => exact he
    | succ i => exact ih i

/-- **The standard renderers write a call from the parts of its arguments.** -/
theorem standard_fill (h : HoldAll clean args os) {function : FunctionName}
    {renderer : CallRenderer} (hrenderer : FunctionStrategy.standard function = some renderer) :
    ∃ parts, Holds (Expr.call function args).strings clean parts ∧
      ∀ f args', renderer ⟨function, args', os.map (Option.map (fill f))⟩ = fill f parts := by
  obtain ⟨count, hcount, rfl⟩ := FunctionStrategy.standard_eq_some.mp hrenderer
  have hname : Unquoted function.written :=
    Quoted.unquoted_of_isWord (FunctionName.isWord_written (FunctionName.known_of_arity hcount))
  have harguments : List.Forall₂ (fun i parts => Holds (argumentStrings args i) clean parts)
      (List.range count) ((List.range count).map (argumentParts os)) :=
    List.forall₂_map_right_iff.mpr (List.forall₂_same.mpr fun i _ => h.argument i)
  rw [strings_call hcount]
  refine ⟨_, Holds.called hname harguments, fun f args' => ?_⟩
  rw [← Quoted.called_fill, List.map_map, callRenderer]
  congr 3
  exact List.map_congr_left fun i _ => argument_fill f function args' os i

end HoldAll

namespace Arrow

variable {d : Arrow}

/-- An expression is written from parts that hold its string values. -/
abbrev WrittenFromParts (d : Arrow) (e : Expr) : Prop :=
  Uniform (fun o => Holds e.strings e.Unquoted (inlineParts o)) (fun f o => o.map (fill f))
    fun f => d.fragment (e.rewrite (Expr.restring f))

theorem fragments_uniform {es : List Expr} (h : ∀ e ∈ es, d.WrittenFromParts e) :
    Uniform (HoldAll (∀ e ∈ es, e.Unquoted) es) (fun f os => os.map (Option.map (fill f)))
      fun f => d.fragments (es.map (Expr.rewrite (Expr.restring f))) := by
  induction es with
  | nil => exact .ok [] .nil fun _ => rfl
  | cons e rest ih =>
    obtain ⟨he, hrest⟩ := List.forall_mem_cons.mp h
    refine he.cons (ih hrest) fun o os ho hos => ?_
    refine .cons (ho.mono fun hc => hc e List.mem_cons_self) (hos.imp fun _ _ hp => ?_)
    exact hp.mono fun hc e he => hc e (List.mem_cons_of_mem _ he)

namespace WrittenFromParts

/-- **A node around another** is written from the parts of that one, between two texts. -/
theorem around {e inner : Expr} (left right : String) (h : d.WrittenFromParts inner)
    (child : inner ∈ e.children) (hstrings : e.strings = inner.strings) (hleft : Unquoted left)
    (hright : e.Unquoted → Unquoted right)
    (hwritten : ∀ f, d.fragment (e.rewrite (Expr.restring f)) = do
      let text ← d.fragment (inner.rewrite (Expr.restring f))
      return some (left ++ text.inline ++ right)) : d.WrittenFromParts e := by
  unfold WrittenFromParts
  simp only [hwritten]
  refine h.bind_ok fun o ho => ⟨some (own left ++ inlineParts o ++ own right), ?_, fun f => ?_⟩
  · rw [hstrings]
    exact ((ho.mono fun h => h.child child).preceded fun _ => hleft).followed hright
  · simp [inline_fill, String.append_assoc]

theorem unary {operand : Expr} (op : UnaryOp) (h : d.WrittenFromParts operand) :
    d.WrittenFromParts (.unary op operand) := by
  cases op with
  | not =>
    exact h.around "not(" ")" List.mem_cons_self rfl (by decide) (fun _ => by decide) fun _ => rfl
  | isNull =>
    refine h.around "(" " is null)" List.mem_cons_self rfl (by decide) (fun _ => by decide)
      fun f => ?_
    simp [Expr.rewrite, Expr.restring, fragment, UnaryOp.written, String.append_assoc]
  | isNotNull =>
    refine h.around "(" " is not null)" List.mem_cons_self rfl (by decide) (fun _ => by decide)
      fun f => ?_
    simp [Expr.rewrite, Expr.restring, fragment, UnaryOp.written, String.append_assoc]
  | other text =>
    -- the operand is written, and its text is dropped
    exact h.bind_ok fun _ _ => ⟨none, .own fun _ => by decide, fun _ => rfl⟩

theorem binary {left right : Expr} (op : BinaryOp) (hleft : d.WrittenFromParts left)
    (hright : d.WrittenFromParts right) : d.WrittenFromParts (.binary op left right) := by
  unfold WrittenFromParts
  simp only [Expr.rewrite, Expr.restring, fragment]
  refine hleft.bind fun l hl => hright.bind fun r hr => ?_
  have hl' := hl.mono fun h : (Expr.binary op left right).Unquoted => h.child List.mem_cons_self
  have hr' := hr.mono fun h : (Expr.binary op left right).Unquoted =>
    h.child (List.mem_cons_of_mem _ List.mem_cons_self)
  simp only [inline_fill]
  rcases BinaryOp.written?_fill op hl' hr' with hnone | ⟨parts, hparts, hfill⟩
  · exact .error (.because (.unsupported op.text name)) fun f => by rw [hnone f]; rfl
  · exact .ok (some parts) hparts fun f => by rw [hfill f]; rfl

theorem valueList (items : List Literal) : d.WrittenFromParts (.valueList items) := by
  have hitems (f : String → String) : (items.map (Literal.restring f)).map Literal.written =
      (items.map Literal.parts).map (fill f) := by
    rw [List.map_map, List.map_map]
    exact List.map_congr_left fun value _ => value.written_restring f
  have hlists : List.Forall₂
      (fun v parts => Holds v.strings (Expr.valueList items).Unquoted parts) items
      (items.map Literal.parts) := by
    refine List.forall₂_map_right_iff.mpr (List.forall₂_same.mpr fun value hv => ?_)
    exact value.holds_parts.mono fun h => h.child (List.mem_map_of_mem hv)
  refine .ok (some _) (Holds.intercalate hlists (by decide : Unquoted ", ")).bracketed fun f => ?_
  show Except.ok (some (bracketed (", ".intercalate ((items.map _).map _)))) = _
  rw [hitems, Quoted.intercalate_fill, Quoted.bracketed_fill]
  rfl

theorem call (standard : d.functions = .standard) (function : FunctionName) {args : List Expr}
    (h : ∀ e ∈ args, d.WrittenFromParts e) : d.WrittenFromParts (.call function args) := by
  unfold WrittenFromParts
  simp only [Expr.rewrite, Expr.restring, fragment, Expr.rewriteAll_eq]
  cases hrenderer : d.functions function with
  | none => exact .error (.because (.unsupported function.text name)) fun _ => rfl
  | some renderer =>
    refine (fragments_uniform h).bind_ok fun os hos => ?_
    rw [standard] at hrenderer
    obtain ⟨parts, hparts, hfill⟩ := hos.standard_fill hrenderer
    exact ⟨some parts, hparts.mono fun h e he => h.child he, fun f => congrArg some (hfill f _)⟩

theorem conditional {test yes no : Expr} (htest : d.WrittenFromParts test)
    (hyes : d.WrittenFromParts yes) (hno : d.WrittenFromParts no) :
    d.WrittenFromParts (.conditional test yes no) := by
  unfold WrittenFromParts
  simp only [Expr.rewrite, Expr.restring, fragment]
  refine htest.bind fun t ht => hyes.bind fun y hy => hno.bind_ok fun n hn => ?_
  have child {c : Expr} (hc : c ∈ [test, yes, no]) (h : (Expr.conditional test yes no).Unquoted) :
      c.Unquoted := h.child hc
  have hcomma : Unquoted ", " := by decide
  have hparts := (((ht.mono (child (by simp))).joined hcomma (hy.mono (child (by simp)))).joined
    hcomma (hn.mono (child (by simp)))).between (by decide : Unquoted "if(")
      (by decide : Unquoted ")")
  exact ⟨some _, hparts, fun f => by simp [inline_fill, String.append_assoc]⟩

theorem named {inner : Expr} (name : String) (h : d.WrittenFromParts inner) :
    d.WrittenFromParts (.named name inner) := by
  refine h.around "" (" as " ++ name) List.mem_cons_self rfl (by decide) (fun hclean => ?_)
    fun f => ?_
  · exact Quoted.unquoted_append.mpr ⟨by decide, hclean.own name List.mem_cons_self⟩
  · simp [Expr.rewrite, Expr.restring, fragment, String.append_assoc]

theorem ordering {term : Expr} (direction : Direction) (h : d.WrittenFromParts term) :
    d.WrittenFromParts (.ordering direction term) := by
  refine h.around "" (" " ++ direction.text) List.mem_cons_self rfl (by decide)
    (fun hclean => ?_) fun f => ?_
  · exact Quoted.unquoted_append.mpr ⟨by decide, hclean.own direction.text List.mem_cons_self⟩
  · simp [Expr.rewrite, Expr.restring, fragment, String.append_assoc]

end WrittenFromParts

/-- **An expression is written from parts**, of which its string values are the values. -/
theorem fragment_uniform (standard : d.functions = .standard) (e : Expr) :
    d.WrittenFromParts e := by
  induction e with
  | literal value =>
    refine .ok (some value.parts) value.holds_parts fun f => ?_
    exact congrArg (fun text => Except.ok (some text)) (value.written_restring f)
  | column name =>
    refine .ok (some (own name)) (.own fun h => h.own name List.mem_cons_self) fun f => ?_
    exact congrArg (fun text => Except.ok (some text)) (Quoted.fill_own name).symm
  | unary op operand ih => exact .unary op ih
  | binary op left right ihl ihr => exact .binary op ihl ihr
  | valueList items => exact .valueList items
  | call function args ih => exact .call standard function ih
  | named name inner ih => exact .named name ih
  | conditional test yes no iht ihy ihn => exact .conditional iht ihy ihn
  | ordering direction term ih => exact .ordering direction ih
  | grouping keys selections having =>
    -- refused before any of its parts is written
    refine .error (.because (.unsupported NodeKind.grouping.name name)) fun f => ?_
    cases having <;> rfl
  | joining condition =>
    exact .error (.because (.unsupported NodeKind.joining.name name)) fun _ => rfl
  | foreign kind source => exact .error (Expr.unexpected source) fun _ => rfl

end Arrow
end QueryPipeline
