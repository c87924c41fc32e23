import QueryPipeline.Proofs.StringValues
import QueryPipeline.Proofs.Unambiguous

/-!
# The places of string values

Where the string values of a pipeline stand in its text, in the arrow dialect with the standard
calls, whichever way orderings and row counts are written.

* `Clause.strings` are the string values that are written for a clause, and `Clause.rewrite` changes
  the nodes of a clause, and so its string values;
* `Arrow.Delimited` says what parts tell of a text: it is written from them, their values are the
  string values of the pipeline in order, each is scanned exactly where it stands, and nothing else
  of the text changes with the string values;
* `render_uniform`: every text is written from such parts, clause by clause;
* **`strings_delimited`**: so a string value is read exactly, whatever follows it, and tells nothing
  outside of its quotes. The text of a pipeline that was built on made tables is read into these
  parts from its front.
-/

namespace QueryPipeline

open Quoted (Part Unquoted Holds fill own inlineParts inline_fill bracketed_fill)

/-! ## 1. String values of clauses -/

/-- The string values that are written for an ordering term. -/
def OrderStyle.strings : OrderStyle → OrderTerm → List String
  | direction, _ => []
  | term, t => t.term.strings

/-- An ordering term whose nodes are changed. -/
def OrderTerm.rewrite (f : Expr → Expr) (t : OrderTerm) : OrderTerm :=
  ⟨t.direction, t.term.rewrite f⟩

namespace Clause

/-- The string values that are written for a clause, in order. -/
def strings (style : OrderStyle) : Clause → List String
  | orderBy terms => terms.flatMap style.strings
  | c => c.exprs.flatMap Expr.strings

/-- Applies a function to every node of a clause. -/
def rewrite (f : Expr → Expr) : Clause → Clause
  | select columns => select (columns.map (Expr.rewrite f))
  | extend columns => extend (columns.map (Expr.rewrite f))
  | rename columns => rename (columns.map (Expr.rewrite f))
  | filter predicate => filter (predicate.rewrite f)
  | groupBy keys selections having =>
    groupBy (keys.map (Expr.rewrite f)) (selections.map (Expr.rewrite f))
      (having.map (Expr.rewrite f))
  | orderBy terms => orderBy (terms.map (OrderTerm.rewrite f))
  | limit count => limit count
  | offset count => offset count
  | distinct columns => distinct (columns.map (Expr.rewrite f))
  | join other kind condition => join other kind (condition.rewrite f)
  | foreign kind source => foreign kind source

/-- The texts of a clause besides those of its nodes and the words of the dialect. -/
def ownTexts (pagination : Pagination) : Clause → List String
  | limit count => [pagination.limit count]
  | offset count => [pagination.offset count]
  | join other _ _ => [other.text]
  | _ => []

/-- No name, number or date in a clause has a quote in it. -/
structure Unquoted (pagination : Pagination) (c : Clause) : Prop where
  exprs : ∀ e ∈ c.exprs, e.Unquoted
  own : ∀ t ∈ c.ownTexts pagination, Quoted.Unquoted t

variable {f : Expr → Expr}

theorem kindName_rewrite (c : Clause) : (c.rewrite f).kindName = c.kindName := by
  cases c <;> rfl

theorem rewrite_same (step : ∀ e, f e = e) (c : Clause) : c.rewrite f = c := by
  have hsame : Expr.rewrite f = id := funext (Expr.rewrite_same step)
  have hterms : OrderTerm.rewrite f = id := by
    funext t
    rw [OrderTerm.rewrite, hsame]
    rfl
  cases c with
  | groupBy keys selections having => simp [rewrite, hsame]
  | orderBy terms => simp [rewrite, hterms]
  | _ => simp [rewrite, hsame]

end Clause

/-! ## 2. Texts of clauses -/

namespace Quoted

/-- The parts of fragments in a list. -/
def listedParts (os : List (Option (List Part))) : List Part :=
  (own ", ").intercalate (os.map fun o => o.getD [])

theorem listed_fill (f : String → String) (os : List (Option (List Part))) :
    Fragment.listed ", " (os.map (Option.map (fill f))) = fill f (listedParts os) := by
  rw [listedParts, ← intercalate_fill, Fragment.listed, List.map_map, List.map_map]
  refine congrArg _ (List.map_congr_left fun o _ => ?_)
  cases o <;> rfl

/-- The parts of an operation. -/
def operationParts (name : String) (parts : List Part) : List Part :=
  own ("\n->" ++ name ++ "(") ++ parts ++ own ")"

theorem operation_fill (f : String → String) (name : String) (parts : List Part) :
    operation name (fill f parts) = fill f (operationParts name parts) := by
  simp [operation, operationParts, String.append_assoc]

theorem Holds.operation {vs : List String} {clean : Prop} {parts : List Part}
    (h : Holds vs clean parts) (name : String) (hname : Unquoted ("\n->" ++ name ++ "(")) :
    Holds vs clean (operationParts name parts) :=
  h.between hname (by decide)

end Quoted

open Quoted (listed_fill operation_fill)

/-- In a list, a node without text leaves its place empty. -/
theorem HoldAll.listed {clean : Prop} {es : List Expr} {os : List (Option (List Part))}
    (h : HoldAll clean es os) : Holds (es.flatMap Expr.strings) clean (Quoted.listedParts os) := by
  refine .intercalate (List.forall₂_map_right_iff.mpr (h.imp fun e o ho => ?_)) (by decide)
  cases o with
  | none =>
    exact ⟨(Quoted.values_own "undefined").symm.trans ho.values_eq, fun _ => List.not_mem_nil⟩
  | some parts => exact ho

theorem JoinKind.unquoted_token (kind : JoinKind) : Unquoted kind.token.inline := by
  cases kind with
  | other text =>
    cases h : JoinKind.token (.other text) with
    | none => decide
    | some token => exact unquoted_reserved h
  | _ => decide

namespace Arrow

variable {d : Arrow}

section Texts

variable (standard : d.functions = .standard)
include standard

theorem listText_uniform (es : List Expr) :
    Uniform (Holds (es.flatMap Expr.strings) (∀ e ∈ es, e.Unquoted)) fill
      fun f => d.listText (es.map (Expr.rewrite (Expr.restring f))) := by
  refine (fragments_uniform fun e _ => fragment_uniform standard e).bind_ok fun os hos => ?_
  exact ⟨_, hos.listed, fun f => listed_fill f os⟩

theorem inlineText_uniform (e : Expr) :
    Uniform (Holds e.strings e.Unquoted) fill
      fun f => d.inlineText (e.rewrite (Expr.restring f)) :=
  (fragment_uniform standard e).bind_ok fun o ho => ⟨_, ho, fun f => inline_fill f o⟩

theorem termText_uniform (t : OrderTerm) :
    Uniform (Holds (d.orderStyle.strings t) t.toExpr.Unquoted) fill
      fun f => d.termText (t.rewrite (Expr.restring f)) := by
  have hdirection : t.toExpr.Unquoted → Unquoted t.direction.text := fun h =>
    h.own _ List.mem_cons_self
  unfold termText
  cases d.orderStyle with
  | direction =>
    refine .ok (own t.direction.text) (.own hdirection) fun f => ?_
    exact congrArg Except.ok (Quoted.fill_own _).symm
  | term =>
    refine (inlineText_uniform standard t.term).bind_ok fun parts hparts =>
      ⟨parts ++ own (" " ++ t.direction.text), ?_, fun f => ?_⟩
    · refine (hparts.mono fun h => h.child List.mem_cons_self).followed fun h => ?_
      exact Quoted.unquoted_append.mpr ⟨by decide, hdirection h⟩
    · simp [String.append_assoc, OrderTerm.rewrite]

theorem termTexts_uniform (terms : List OrderTerm) :
    Uniform (List.Forall₂ (fun t parts => Holds (d.orderStyle.strings t)
        (∀ t ∈ terms, t.toExpr.Unquoted) parts) terms)
      (fun f lists => lists.map (fill f))
      fun f => d.termTexts (terms.map (OrderTerm.rewrite (Expr.restring f))) := by
  induction terms with
  | nil => exact .ok [] .nil fun _ => rfl
  | cons t rest ih =>
    refine (termText_uniform standard t).cons ih fun parts lists ht hrest => ?_
    refine .cons (ht.mono fun hc => hc t List.mem_cons_self) (hrest.imp fun _ _ hu => ?_)
    exact hu.mono fun hc u hu => hc u (List.mem_cons_of_mem _ hu)

theorem havingText_uniform (having : Option Expr) :
    Uniform (Holds (having.toList.flatMap Expr.strings) (∀ e ∈ having.toList, e.Unquoted)) fill
      fun f => d.havingText (having.map (Expr.rewrite (Expr.restring f))) := by
  cases having with
  | none => exact .ok [] ⟨rfl, fun _ => List.not_mem_nil⟩ fun _ => rfl
  | some e =>
    rw [Option.toList_some, List.flatMap_singleton]
    refine (inlineText_uniform standard e).bind_ok fun parts hparts =>
      ⟨own ", " ++ parts, ?_, fun f => by simp⟩
    exact (hparts.mono fun h => h e List.mem_cons_self).preceded fun _ => by decide

theorem groupingText_uniform (keys selections : List Expr) (having : Option Expr) :
    Uniform (Holds ((keys ++ selections ++ having.toList).flatMap Expr.strings)
        (∀ e ∈ keys ++ selections ++ having.toList, e.Unquoted)) fill
      fun f => d.groupingText (keys.map (Expr.rewrite (Expr.restring f)))
        (selections.map (Expr.rewrite (Expr.restring f)))
        (having.map (Expr.rewrite (Expr.restring f))) := by
  rw [List.flatMap_append, List.flatMap_append]
  refine (listText_uniform standard keys).bind fun k hk =>
    (listText_uniform standard selections).bind fun s hs =>
      (havingText_uniform standard having).bind_ok fun h hh => ?_
  have hkeys := hk.bracketed.mono fun hc : ∀ e ∈ keys ++ selections ++ having.toList, e.Unquoted =>
    fun e he => hc e (List.mem_append_left _ (List.mem_append_left _ he))
  have hselections := hs.bracketed.mono
    fun hc : ∀ e ∈ keys ++ selections ++ having.toList, e.Unquoted =>
      fun e he => hc e (List.mem_append_left _ (List.mem_append_right _ he))
  have hhaving := hh.mono fun hc : ∀ e ∈ keys ++ selections ++ having.toList, e.Unquoted =>
    fun e he => hc e (List.mem_append_right _ he)
  have hcomma : Unquoted ", " := by decide
  refine ⟨_, (hkeys.joined hcomma hselections).append hhaving, fun f => ?_⟩
  rw [bracketed_fill, bracketed_fill]
  simp [String.append_assoc]

/-- An operation on a list of expressions. -/
theorem columnsText_uniform {name : String} (hname : Unquoted ("\n->" ++ name ++ "("))
    (columns : List Expr) :
    Uniform (Holds (columns.flatMap Expr.strings) (∀ e ∈ columns, e.Unquoted)) fill fun f => do
      return operation name
        (bracketed (← d.listText (columns.map (Expr.rewrite (Expr.restring f))))) := by
  refine (listText_uniform standard columns).bind_ok fun parts hparts =>
    ⟨_, hparts.bracketed.operation name hname, fun f => ?_⟩
  rw [bracketed_fill, operation_fill]

omit standard in
theorem countText_uniform {text : String} {clean : Prop} (h : clean → Unquoted text) :
    Uniform (Holds [] clean) fill fun _ => .ok ("\n->" ++ text) := by
  refine .ok (own ("\n->" ++ text)) (.own fun hc => ?_) fun f => ?_
  · exact Quoted.unquoted_append.mpr ⟨by decide, h hc⟩
  · exact congrArg Except.ok (Quoted.fill_own _).symm

theorem filterText_uniform (predicate : Expr) :
    Uniform (Holds predicate.strings predicate.Unquoted) fill
      fun f => d.clauseText ((Clause.filter predicate).rewrite (Expr.restring f)) :=
  (inlineText_uniform standard predicate).bind_ok fun parts hparts =>
    ⟨_, hparts.operation "filter" (by decide), fun f => operation_fill f _ parts⟩

theorem joinText_uniform {other : TableName} (kind : JoinKind) (condition : Expr) :
    Uniform (Holds condition.strings (Unquoted other.text ∧ condition.Unquoted)) fill
      fun f => d.clauseText ((Clause.join other kind condition).rewrite (Expr.restring f)) := by
  refine (inlineText_uniform standard condition).bind_ok fun parts hparts => ?_
  have hfront : Unquoted other.text ∧ condition.Unquoted →
      Unquoted (other.text ++ ", " ++ kind.token.inline ++ ", ") := by
    intro h
    simp only [Quoted.unquoted_append]
    exact ⟨⟨⟨h.1, by decide⟩, kind.unquoted_token⟩, by decide⟩
  refine ⟨_, ((hparts.mono And.right).preceded hfront).operation "join" (by decide), fun f => ?_⟩
  rw [← operation_fill, Quoted.fill_append, Quoted.fill_own]

/-- **A clause is written from parts**, of which its string values are the values. -/
theorem clauseText_uniform (c : Clause) :
    Uniform (Holds (c.strings d.orderStyle) (c.Unquoted d.pagination)) fill
      fun f => d.clauseText (c.rewrite (Expr.restring f)) := by
  cases c with
  | select columns =>
    exact (columnsText_uniform standard (by decide) columns).weaken
      fun _ h => h.mono Clause.Unquoted.exprs
  | extend columns =>
    exact (columnsText_uniform standard (by decide) columns).weaken
      fun _ h => h.mono Clause.Unquoted.exprs
  | rename columns =>
    exact (columnsText_uniform standard (by decide) columns).weaken
      fun _ h => h.mono Clause.Unquoted.exprs
  | filter predicate =>
    have hstrings : (Clause.filter predicate).strings d.orderStyle = predicate.strings :=
      List.flatMap_singleton _ _
    rw [hstrings]
    exact (filterText_uniform standard predicate).weaken
      fun _ h => h.mono fun hc => hc.exprs predicate List.mem_cons_self
  | groupBy keys selections having =>
    refine (groupingText_uniform standard keys selections having).bind_ok fun parts hparts => ?_
    have hgrouping := hparts.mono
      fun h : (Clause.groupBy keys selections having).Unquoted d.pagination => h.exprs
    exact ⟨_, hgrouping.operation "groupBy" (by decide), fun f => operation_fill f _ parts⟩
  | orderBy terms =>
    refine (termTexts_uniform standard terms).bind_ok fun lists hlists => ?_
    have hterms := (Holds.intercalate hlists (by decide : Unquoted ", ")).bracketed.mono
      fun h : (Clause.orderBy terms).Unquoted d.pagination =>
        fun t ht => h.exprs _ (List.mem_map_of_mem ht)
    refine ⟨_, hterms.operation "sort" (by decide), fun f => ?_⟩
    rw [Quoted.intercalate_fill, bracketed_fill, operation_fill]
  | limit count => exact countText_uniform fun h => h.own _ List.mem_cons_self
  | offset count => exact countText_uniform fun h => h.own _ List.mem_cons_self
  | distinct columns =>
    exact .error (.because (.unsupported ClauseKind.distinct.name name)) fun _ => rfl
  | join other kind condition =>
    have hstrings : (Clause.join other kind condition).strings d.orderStyle = condition.strings :=
      List.flatMap_singleton _ _
    rw [hstrings]
    exact (joinText_uniform standard kind condition).weaken fun _ h => h.mono fun hc =>
      ⟨hc.own _ List.mem_cons_self, hc.exprs condition List.mem_cons_self⟩
  | foreign kind source => exact .error (Clause.unexpected source) fun _ => rfl

theorem renderSuffix_uniform (c : Clause) :
    Uniform (Holds (c.strings d.orderStyle) (c.Unquoted d.pagination)) fill
      fun f => d.renderSuffix (c.rewrite (Expr.restring f)) := by
  simp only [renderSuffix, Clause.kindName_rewrite]
  exact (clauseText_uniform standard c).mapError _

theorem suffixTexts_uniform (clauses : List Clause) :
    Uniform (Holds (clauses.flatMap (Clause.strings d.orderStyle))
        (∀ c ∈ clauses, c.Unquoted d.pagination)) fill
      fun f => suffixTexts d.renderSuffix (clauses.map (Clause.rewrite (Expr.restring f))) := by
  induction clauses with
  | nil => exact .ok [] ⟨rfl, fun _ => List.not_mem_nil⟩ fun _ => rfl
  | cons c rest ih =>
    refine (renderSuffix_uniform standard c).bind fun parts hc => ih.bind_ok fun more hrest => ?_
    have hfirst := hc.mono fun h : ∀ b ∈ c :: rest, b.Unquoted d.pagination =>
      h c List.mem_cons_self
    have hothers := hrest.mono fun h : ∀ b ∈ c :: rest, b.Unquoted d.pagination =>
      fun b hb => h b (List.mem_cons_of_mem _ hb)
    exact ⟨_, hfirst.append hothers, fun f => Quoted.fill_append.symm⟩

/-- **A pipeline is written from parts**, of which its string values are the values. -/
theorem render_uniform (source : TableName) (clauses : List Clause) :
    Uniform (Holds (clauses.flatMap (Clause.strings d.orderStyle))
        (Unquoted source.text ∧ ∀ c ∈ clauses, c.Unquoted d.pagination)) fill
      fun f => d.render source (clauses.map (Clause.rewrite (Expr.restring f))) := by
  refine (suffixTexts_uniform standard clauses).bind_ok fun parts hparts =>
    ⟨own source.text ++ parts, (hparts.mono And.right).preceded And.left, fun f => ?_⟩
  rw [Quoted.fill_append, Quoted.fill_own]

end Texts
end Arrow

/-! ## 3. Pipelines without quotes of their own -/

/-- A worded literal has no quote but those of a string value. -/
theorem Literal.Worded.unquoted {value : Literal} (h : value.Worded) :
    (Expr.literal value).Unquoted := by
  refine Expr.unquoted_iff.mpr ⟨?_, fun c hc => absurd hc List.not_mem_nil⟩
  cases value with
  | string s => exact fun t ht => absurd ht List.not_mem_nil
  | integer value => exact List.forall_mem_singleton.mpr (Quoted.unquoted_of_isWord h)
  | long n => exact List.forall_mem_singleton.mpr (Quoted.unquoted_of_isWord (isWord_intText n))
  | double value =>
    exact List.forall_mem_singleton.mpr (Quoted.unquoted_of_isWord (isWord_plainText value))
  | boolean b => cases b <;> exact List.forall_mem_singleton.mpr (by decide)
  | date value =>
    have hmark : Unquoted "%" := by decide
    have hfront := Quoted.unquoted_append.mpr ⟨hmark, Quoted.unquoted_of_isWord h⟩
    exact List.forall_mem_singleton.mpr (Quoted.unquoted_append.mpr ⟨hfront, hmark⟩)

/-- **A well-formed node that is written faithfully has no quote but those of string values.** -/
theorem Expr.Regular.unquoted {e : Expr} (h : e.Regular) (wf : e.WellFormed) : e.Unquoted := by
  have bare {e : Expr} (hown : e.ownTexts = []) (hchildren : ∀ c ∈ e.children, c.Unquoted) :
      e.Unquoted := by
    refine unquoted_iff.mpr ⟨fun t ht => ?_, hchildren⟩
    rw [hown] at ht
    exact absurd ht List.not_mem_nil
  induction h with
  | literal _ =>
    cases wf with
    | literal made => exact made.worded.unquoted
  | column h =>
    have hname := Quoted.unquoted_of_isWord (isWord_of_identifier h)
    exact unquoted_iff.mpr
      ⟨List.forall_mem_singleton.mpr hname, fun c hc => absurd hc List.not_mem_nil⟩
  | unary _ _ ih =>
    cases wf with
    | unary _ hoperand => exact bare rfl (List.forall_mem_singleton.mpr (ih hoperand))
  | binary _ _ _ ihl ihr =>
    cases wf with
    | binary hleft hright =>
      exact bare rfl (List.forall_mem_cons.mpr
        ⟨ihl hleft, List.forall_mem_singleton.mpr (ihr hright)⟩)
  | valueList _ =>
    cases wf with
    | valueList made =>
      exact bare rfl (List.forall_mem_map.mpr fun v hv => (made v hv).worded.unquoted)
  | call _ _ _ ih =>
    cases wf with
    | call hargs => exact bare rfl fun e he => ih e he (hargs e he)
  | named _ _ ih =>
    cases wf with
    | named h hinner =>
      have hname := Quoted.unquoted_of_isWord (isWord_of_identifier h)
      exact unquoted_iff.mpr
        ⟨List.forall_mem_singleton.mpr hname, List.forall_mem_singleton.mpr (ih hinner)⟩
  | conditional _ _ _ iht ihy ihn =>
    cases wf with
    | conditional htest hyes hno =>
      exact bare rfl (List.forall_mem_cons.mpr ⟨iht htest, List.forall_mem_cons.mpr
        ⟨ihy hyes, List.forall_mem_singleton.mpr (ihn hno)⟩⟩)
  | @ordering direction _ hdirection _ ih =>
    cases wf with
    | ordering _ hterm =>
      have htext : Quoted.Unquoted direction.text := by
        cases direction with
        | other text => exact absurd hdirection (Vocabulary.other_unknown _ text)
        | _ => decide
      exact unquoted_iff.mpr
        ⟨List.forall_mem_singleton.mpr htext, List.forall_mem_singleton.mpr (ih hterm)⟩

theorem Clause.Regular.unquoted {c : Clause} (h : c.Regular)
    (wf : ∀ e ∈ c.exprs, e.WellFormed) : c.Unquoted .takeDrop := by
  have counted (name : String) (hname : Quoted.Unquoted name) {count : Binary64}
      (hcount : ∃ n, count.safeInteger? = some n) :
      Quoted.Unquoted (name ++ "(" ++ count.text ++ ")") := by
    obtain ⟨n, _, htext⟩ := toInt?_of_safe hcount
    rw [htext]
    simp only [Quoted.unquoted_append]
    exact ⟨⟨⟨hname, by decide⟩, Quoted.unquoted_of_isWord (isWord_intText n)⟩, by decide⟩
  refine ⟨fun e he => (h.exprs e he).unquoted (wf e he), ?_⟩
  cases c with
  | limit count => exact List.forall_mem_singleton.mpr (counted "take" (by decide) h.parts)
  | offset count => exact List.forall_mem_singleton.mpr (counted "drop" (by decide) h.parts)
  | join other kind condition =>
    exact List.forall_mem_singleton.mpr (Quoted.unquoted_of_isWord h.parts.1.isWord)
  | _ => exact fun t ht => absurd ht List.not_mem_nil

theorem Pipeline.Built.unquoted {p : Pipeline} (built : p.Built) :
    Unquoted p.source.text ∧ ∀ c ∈ p.clauses, c.Unquoted .takeDrop := by
  obtain ⟨hsource, hclauses⟩ := built.regular
  refine ⟨Quoted.unquoted_of_isWord hsource.isWord, fun c hc => ?_⟩
  exact (hclauses c hc).unquoted (built.wellFormed c hc)

/-! ## 4. Delimited string values -/

/-- What the parts of a text tell of it. -/
structure Arrow.Delimited (d : Arrow) (source : TableName) (clauses : List Clause) (text : String)
    (parts : List Part) : Prop where
  /-- The text is written from the parts. -/
  text_eq : text = Quoted.text parts
  /-- Their values are the string values of the pipeline. -/
  values_eq : Quoted.values parts = clauses.flatMap (Clause.strings d.orderStyle)
  /-- A value is scanned exactly where it stands. -/
  scanned : ∀ before s after, parts = before ++ .value s :: after →
    ∃ rest, text = Quoted.text before ++ rest ∧
      Quoted.scan rest.toList = some (s.toList, (Quoted.text after).toList)
  /-- With other string values, the text has these in the same places and is the same outside. -/
  kept : ∀ f, d.render source (clauses.map (Clause.rewrite (Expr.restring f))) = .ok (fill f parts)
  /-- The parts are read from the front of the text unless one outside of values is a quote. -/
  read_iff : Quoted.parts? text.toList = some parts ↔ .plain Quoted.quote ∉ parts

/-- **Every text is written from parts that delimit its string values.** -/
theorem Arrow.render_delimited {d : Arrow} (standard : d.functions = .standard)
    {source : TableName} {clauses : List Clause} {text : String}
    (h : d.render source clauses = .ok text) :
    ∃ parts, d.Delimited source clauses text parts ∧
      (Unquoted source.text → (∀ c ∈ clauses, c.Unquoted d.pagination) →
        .plain Quoted.quote ∉ parts) := by
  -- the identity changes no string value, so the text is one of those that the parts give
  have hsame : clauses.map (Clause.rewrite (Expr.restring id)) = clauses := by
    rw [List.map_congr_left fun c _ => c.rewrite_same Expr.restring_id, List.map_id']
  cases render_uniform standard source clauses with
  | error failure hall =>
    have hfailed := hall id
    rw [hsame, h] at hfailed
    cases hfailed
  | ok parts hparts hall =>
    have htext : text = Quoted.text parts := by
      have hwritten := hall id
      rw [hsame, h, Quoted.fill_id] at hwritten
      exact Except.ok.inj hwritten
    subst htext
    refine ⟨parts, ⟨rfl, hparts.values_eq, ?_, hall, Quoted.parts?_text_iff⟩, ?_⟩
    · intro before s after hsplit
      rw [hsplit]
      exact ⟨_, Quoted.text_append, Quoted.scan_text s after⟩
    · exact fun hsource hclauses => hparts.unquoted ⟨hsource, hclauses⟩

/-- **String values are delimited.** A literal of a string is scanned exactly, whatever follows it.
    So every text that is written with the standard calls has its string values in quotes of their
    own and tells nothing of them elsewhere, and the text of a pipeline that was built on made
    tables is read into these values and what stands around them. -/
theorem strings_delimited :
    (∀ (d : Arrow) (s : String), ∃ text, d.fragment (.literal (.string s)) = .ok (some text) ∧
      ∀ rest : String, Quoted.scan (text ++ rest).toList = some (s.toList, rest.toList)) ∧
    (∀ (d : Arrow) (source : TableName) (clauses : List Clause) (text : String),
      d.functions = .standard → d.render source clauses = .ok text →
      ∃ parts, d.Delimited source clauses text parts) ∧
    ∀ (style : OrderStyle) (p : Pipeline) (text : String), p.Built →
      (p.render ({ orderStyle := style } : Arrow).renderer).result = .ok text →
      ∃ parts, ({ orderStyle := style } : Arrow).Delimited p.source p.clauses text parts ∧
        Quoted.parts? text.toList = some parts := by
  refine ⟨fun d s => ⟨Quoted.write s, rfl, fun rest => ?_⟩, ?_, ?_⟩
  · rw [Quoted.write, String.toList_append, String.toList_ofList]
    exact Quoted.scan_writeChars s.toList rest.toList
  · intro d source clauses text standard h
    obtain ⟨parts, hdelimited, _⟩ := Arrow.render_delimited standard h
    exact ⟨parts, hdelimited⟩
  · intro style p text built h
    rw [Arrow.render_result] at h
    obtain ⟨parts, hdelimited, hunquoted⟩ := Arrow.render_delimited rfl h
    obtain ⟨hsource, hclauses⟩ := built.unquoted
    exact ⟨parts, hdelimited, hdelimited.read_iff.mpr (hunquoted hsource hclauses)⟩

/-- A name with quotes, escapes and what looks like a further line is read back as the only string
    value, and any other name is written in its place with the same text around it. -/
theorem strings_delimited_people :
    let name := "O\x27Neil\\\x27))\n->take(1"
    let d : Arrow := { orderStyle := .term }
    ∃ p text parts, Accepts .ofPeople [filterByName name, joinTeams] p ∧ p.Built ∧
      (p.render d.renderer).result = .ok text ∧
      Quoted.parts? text.toList = some parts ∧ Quoted.values parts = [name] ∧
      ∀ other, ∃ q more, Accepts .ofPeople [filterByName other, joinTeams] q ∧
        (q.render d.renderer).result = .ok (fill (fun _ => other) parts) ∧
        d.Delimited q.source q.clauses (fill (fun _ => other) parts) more := by
  intro name d
  have accepted (name : String) : Accepts .ofPeople [filterByName name, joinTeams] _ :=
    .step (.single rfl) rfl
  have condition : ∀ e ∈ [Expr.binary (.comparison .equal) (.column "name")
      (.literal (.string name))], e.WellFormed :=
    List.forall_mem_singleton.mpr (.binary .column (.literal (.plain (.text name) rfl)))
  have built := Pipeline.Built.of_people (accepted name) (by decide) (by decide)
    (List.forall_mem_cons.mpr ⟨condition, List.forall_mem_singleton.mpr
      (List.forall_mem_singleton.mpr (.binary .column .column))⟩)
  obtain ⟨_, written, read⟩ := strings_delimited
  obtain ⟨parts, told, hread⟩ := read .term _ _ built rfl
  refine ⟨_, _, parts, accepted name, built, rfl, hread, told.values_eq, fun other => ?_⟩
  have hother := told.kept fun _ => other
  obtain ⟨more, hmore⟩ := written d _ _ _ rfl hother
  refine ⟨_, more, accepted other, ?_, hmore⟩
  rw [Arrow.render_result]
  exact hother

end QueryPipeline
