import QueryPipeline.Dialect.Arrow
import QueryPipeline.Proofs.Stored

/-!
# What the arrow dialect covers

Which pipelines the dialect can write. Operators, lists, conditionals and literals that were
accepted all have a written form; what the dialect may lack is a `distinct`, and a renderer for a
function that is called.

* `Expr.calls` are the calls in an expression in the order in which they are reached;
* `Clause.gaps` is what the dialect lacks for a clause, in the same order (`clauseText_decided`);
* **`render_gaps`**: a pipeline is written iff no clause has a gap, and otherwise the first gap is
  refused and attributed to its clause.
-/

namespace QueryPipeline

/-! ## 1. Calls -/

namespace Expr

mutual

/-- The functions that an expression calls: each call before the ones in its arguments, operands
    from left to right. -/
def calls : Expr → List FunctionName
  | literal _ | column _ | valueList _ | foreign _ _ => []
  | unary _ operand => operand.calls
  | binary _ left right => left.calls ++ right.calls
  | call function args => function :: callsAll args
  | named _ inner => inner.calls
  | conditional test yes no => test.calls ++ (yes.calls ++ no.calls)
  | ordering _ term => term.calls
  | grouping keys selections none => callsAll keys ++ callsAll selections
  | grouping keys selections (some having) =>
    callsAll keys ++ (callsAll selections ++ having.calls)
  | joining condition => condition.calls

/-- The functions that a list of expressions calls. -/
def callsAll : List Expr → List FunctionName
  | [] => []
  | e :: rest => e.calls ++ callsAll rest

end

theorem callsAll_eq (es : List Expr) : callsAll es = es.flatMap calls := by
  induction es with
  | nil => rfl
  | cons e rest ih => rw [callsAll, ih, List.flatMap_cons]

end Expr

/-- The calls that are written for an ordering term: none where only its direction is written. -/
def OrderStyle.compiledCalls : OrderStyle → OrderTerm → List FunctionName
  | direction, _ => []
  | term, t => t.term.calls

/-- The calls that are written for a clause. -/
def Clause.compiledCalls (style : OrderStyle) : Clause → List FunctionName
  | extend columns => columns.flatMap Expr.calls
  | filter predicate => predicate.calls
  | groupBy _ selections having =>
    selections.flatMap Expr.calls ++ having.toList.flatMap Expr.calls
  | orderBy terms => terms.flatMap style.compiledCalls
  | join _ _ condition => condition.calls
  | _ => []

/-! ## 2. Gaps -/

namespace Arrow

variable (d : Arrow)

/-- The called functions for which the dialect has no renderer. -/
def missing (calls : List FunctionName) : List String :=
  (calls.filter fun f => (d.functions f).isNone).map FunctionName.text

/-- The failure of a gap. -/
def gapFailure (subject : String) : Failure := .because (.unsupported subject name)

/-- What the dialect lacks for a clause, in the order in which it is met. -/
def gaps : Clause → List String
  | .distinct _ => [ClauseKind.distinct.name]
  | c => d.missing (c.compiledCalls d.orderStyle)

variable {d}

@[simp] theorem missing_append (fs gs : List FunctionName) :
    d.missing (fs ++ gs) = d.missing fs ++ d.missing gs := by
  simp [missing]

theorem missing_eq_nil {fs : List FunctionName} :
    d.missing fs = [] ↔ ∀ f ∈ fs, d.functions f ≠ none := by
  simp [missing]

end Arrow

/-! ## 3. Expressions -/

/-- Every operator that has rules is written. -/
theorem BinaryOp.written?_of_known {op : BinaryOp} (h : op.Known) (l r : String) :
    ∃ text, op.written? l r = some text := by
  cases op with
  | other text => exact absurd h (Vocabulary.other_unknown _ text)
  | arithmetic op => cases op <;> exact ⟨_, rfl⟩
  | _ => exact ⟨_, rfl⟩

namespace Arrow

variable {d : Arrow}

/-- The texts of a list are decided by the calls in it once those of its members are. -/
theorem fragments_decided {es : List Expr}
    (h : ∀ e ∈ es, DecidedBy gapFailure (fun _ => True) (d.missing e.calls) (d.fragment e)) :
    DecidedBy gapFailure (fun _ => True) (d.missing (es.flatMap Expr.calls)) (d.fragments es) := by
  induction es with
  | nil => exact ⟨[], rfl, trivial⟩
  | cons e rest ih =>
    rw [fragments, List.flatMap_cons, missing_append]
    refine (h e List.mem_cons_self).bind fun _ text _ => ?_
    refine (ih fun e he => h e (List.mem_cons_of_mem _ he)).bind_ok fun _ texts _ => ?_
    exact ⟨_, rfl, trivial⟩

/-- **The text of a checked expression is decided by the calls in it.** -/
theorem fragment_decided {s : Schema} {e : Expr} (h : e.Checked s) :
    DecidedBy gapFailure (fun _ => True) (d.missing e.calls) (d.fragment e) := by
  induction h with
  | literal => exact ⟨_, rfl, trivial⟩
  | column _ => exact ⟨_, rfl, trivial⟩
  | unary _ ih => exact ih.bind_ok fun _ text _ => ⟨_, rfl, trivial⟩
  | @membership op left items hop _ ih =>
    rw [fragment, Expr.calls, Expr.calls, List.append_nil]
    refine ih.bind_ok fun _ leftText _ => ?_
    obtain ⟨text, htext⟩ := BinaryOp.written?_of_known hop leftText.inline
      (Fragment.inline (some (bracketed (", ".intercalate (items.map Literal.written)))))
    refine ⟨some text, ?_, trivial⟩
    simp only [fragment, Outcome.ok_bind, htext, Outcome.pure_eq]
  | @binary op left right hop _ _ ihl ihr =>
    rw [fragment, Expr.calls, missing_append]
    refine ihl.bind fun _ leftText _ => ihr.bind_ok fun _ rightText _ => ?_
    obtain ⟨text, htext⟩ := BinaryOp.written?_of_known hop leftText.inline rightText.inline
    exact ⟨some text, by rw [htext]; rfl, trivial⟩
  | @call function args _ _ _ ih =>
    rw [fragment, Expr.calls, Expr.callsAll_eq]
    cases hf : d.functions function with
    | none =>
      rw [missing, List.filter_cons_of_pos (by simp [hf])]
      rfl
    | some renderer =>
      have hmissing : d.missing (function :: args.flatMap Expr.calls) =
          d.missing (args.flatMap Expr.calls) := by
        rw [missing, List.filter_cons_of_neg (by simp [hf]), missing]
      rw [hmissing]
      exact (fragments_decided ih).bind_ok fun _ texts _ => ⟨_, rfl, trivial⟩
  | named _ ih => exact ih.bind_ok fun _ text _ => ⟨_, rfl, trivial⟩
  | conditional _ _ _ iht ihy ihn =>
    rw [fragment, Expr.calls, missing_append, missing_append]
    refine iht.bind fun _ testText _ => ihy.bind fun _ yesText _ => ?_
    exact ihn.bind_ok fun _ noText _ => ⟨_, rfl, trivial⟩

/-! ## 4. Clauses -/

/-- The text of an expression inside of a longer one. -/
theorem inlineText_decided {S : Schema → Prop} {e : Expr} (h : e.TypedIn S) :
    DecidedBy gapFailure (fun _ => True) (d.missing e.calls) (d.inlineText e) := by
  obtain ⟨s, _, h⟩ := h.checked
  exact (fragment_decided h).bind_ok fun _ text _ => ⟨_, rfl, trivial⟩

theorem listText_decided {S : Schema → Prop} {es : List Expr} (h : ∀ e ∈ es, e.TypedIn S) :
    DecidedBy gapFailure (fun _ => True) (d.missing (es.flatMap Expr.calls)) (d.listText es) := by
  refine (fragments_decided fun e he => ?_).bind_ok fun _ texts _ => ⟨_, rfl, trivial⟩
  obtain ⟨s, _, h⟩ := (h e he).checked
  exact fragment_decided h

/-- A list of columns has no calls. -/
theorem columnsText_decided {S : Schema → Prop} {es : List Expr}
    (h : ∀ e ∈ es, (∃ n, e = .column n) ∧ e.TypedIn S) :
    DecidedBy gapFailure (fun _ => True) [] (d.listText es) := by
  have hcalls : es.flatMap Expr.calls = [] := by
    rw [List.flatMap_eq_nil_iff]
    intro e he
    obtain ⟨⟨n, rfl⟩, _⟩ := h e he
    rfl
  have := listText_decided (d := d) fun e he => (h e he).2
  rwa [hcalls] at this

theorem termText_decided {S : Schema → Prop} {t : OrderTerm} (h : t.term.TypedIn S) :
    DecidedBy gapFailure (fun _ => True) (d.missing (d.orderStyle.compiledCalls t))
      (d.termText t) := by
  rw [termText]
  cases d.orderStyle with
  | direction => exact ⟨_, rfl, trivial⟩
  | term => exact (inlineText_decided h).bind_ok fun _ text _ => ⟨_, rfl, trivial⟩

theorem termTexts_decided {S : Schema → Prop} {terms : List OrderTerm}
    (h : ∀ t ∈ terms, t.term.TypedIn S) :
    DecidedBy gapFailure (fun _ => True) (d.missing (terms.flatMap d.orderStyle.compiledCalls))
      (d.termTexts terms) := by
  induction terms with
  | nil => exact ⟨[], rfl, trivial⟩
  | cons t rest ih =>
    rw [termTexts, List.flatMap_cons, missing_append]
    refine (termText_decided (h t List.mem_cons_self)).bind fun _ text _ => ?_
    refine (ih fun t ht => h t (List.mem_cons_of_mem _ ht)).bind_ok fun _ texts _ => ?_
    exact ⟨_, rfl, trivial⟩

theorem havingText_decided {S : Schema → Prop} {having : Option Expr}
    (h : ∀ e ∈ having, e.TypedIn S) :
    DecidedBy gapFailure (fun _ => True) (d.missing (having.toList.flatMap Expr.calls))
      (d.havingText having) := by
  cases having with
  | none => exact ⟨"", rfl, trivial⟩
  | some e =>
    rw [Option.toList_some, List.flatMap_singleton]
    exact (inlineText_decided (h e rfl)).bind_ok fun _ text _ => ⟨_, rfl, trivial⟩

theorem groupingText_decided {S : Schema → Prop} {keys selections : List Expr}
    {having : Option Expr} (hkeys : ∀ e ∈ keys, (∃ n, e = .column n) ∧ e.TypedIn S)
    (hselections : ∀ e ∈ selections, e.TypedIn S) (hhaving : ∀ e ∈ having, e.TypedIn S) :
    DecidedBy gapFailure (fun _ => True)
      (d.missing (selections.flatMap Expr.calls) ++
        d.missing (having.toList.flatMap Expr.calls))
      (d.groupingText keys selections having) := by
  refine (columnsText_decided hkeys).bind fun _ keysText _ => ?_
  refine (listText_decided hselections).bind fun _ selectionsText _ => ?_
  exact (havingText_decided hhaving).bind_ok fun _ text _ => ⟨_, rfl, trivial⟩

/-- **The text of a typed clause is decided by its gaps.** -/
theorem clauseText_decided {S : Schema → Prop} {c : Clause} (h : c.TypedIn S) :
    DecidedBy gapFailure (fun _ => True) (d.gaps c) (d.clauseText c) := by
  cases c with
  | select columns => exact (columnsText_decided h).bind_ok fun _ text _ => ⟨_, rfl, trivial⟩
  | extend columns => exact (listText_decided h).bind_ok fun _ text _ => ⟨_, rfl, trivial⟩
  | rename columns =>
    have hcalls : columns.flatMap Expr.calls = [] := by
      rw [List.flatMap_eq_nil_iff]
      intro e he
      obtain ⟨⟨pair, rfl⟩, _⟩ := h e he
      rfl
    have htext := listText_decided (d := d) fun e he => (h e he).2
    rw [hcalls] at htext
    exact htext.bind_ok fun _ text _ => ⟨_, rfl, trivial⟩
  | filter predicate => exact (inlineText_decided h).bind_ok fun _ text _ => ⟨_, rfl, trivial⟩
  | groupBy keys selections having =>
    obtain ⟨hkeys, hselections, hhaving⟩ := h
    show DecidedBy _ _ (d.missing (_ ++ _)) _
    rw [missing_append]
    exact (groupingText_decided hkeys hselections hhaving).bind_ok fun _ text _ => ⟨_, rfl, trivial⟩
  | orderBy terms => exact (termTexts_decided h).bind_ok fun _ texts _ => ⟨_, rfl, trivial⟩
  | limit count => exact ⟨_, rfl, trivial⟩
  | offset count => exact ⟨_, rfl, trivial⟩
  | distinct columns => rfl
  | join other kind condition =>
    exact (inlineText_decided h).bind_ok fun _ text _ => ⟨_, rfl, trivial⟩
  | foreign kind source => exact absurd h id

/-! ## 5. Pipelines -/

/-- The failure of a gap in a clause of the given kind. -/
def clauseFailure (gap : String × String) : Failure :=
  .refused ⟨.unsupported gap.1 name, some gap.2⟩

/-- The gaps of several clauses, each with the kind of its clause. -/
def clauseGaps (d : Arrow) (clauses : List Clause) : List (String × String) :=
  clauses.flatMap fun c => (d.gaps c).map fun subject => (subject, c.kindName)

theorem renderSuffix_decided {S : Schema → Prop} {c : Clause} (h : c.TypedIn S) :
    DecidedBy clauseFailure (fun _ => True) ((d.gaps c).map fun subject => (subject, c.kindName))
      (d.renderSuffix c) :=
  DecidedBy.map_iff.mpr ((clauseText_decided h).mapError _)

theorem suffixTexts_decided {S : Schema → Prop} {clauses : List Clause}
    (h : ∀ c ∈ clauses, c.TypedIn S) :
    DecidedBy clauseFailure (fun _ => True) (d.clauseGaps clauses)
      (suffixTexts d.renderSuffix clauses) := by
  induction clauses with
  | nil => exact ⟨"", rfl, trivial⟩
  | cons c rest ih =>
    rw [clauseGaps, List.flatMap_cons, suffixTexts]
    refine (renderSuffix_decided (h c List.mem_cons_self)).bind fun _ text _ => ?_
    refine (ih fun c hc => h c (List.mem_cons_of_mem _ hc)).bind_ok fun _ more _ => ?_
    exact ⟨_, rfl, trivial⟩

/-- What is logged does not change the result. -/
theorem render_result (d : Arrow) (p : Pipeline) :
    (p.render d.renderer).result = d.render p.source p.clauses := by
  have hrender : d.renderer.render p.source p.clauses = d.render p.source p.clauses := rfl
  unfold Pipeline.render Renderer.renderLogged
  rw [hrender]
  cases d.render p.source p.clauses <;> rfl

/-- **The text of a pipeline is decided by the gaps of its clauses, in order.** -/
theorem render_decided {S : Schema → Prop} {p : Pipeline} (h : ∀ c ∈ p.clauses, c.TypedIn S) :
    DecidedBy clauseFailure (fun _ => True) (d.clauseGaps p.clauses)
      (p.render d.renderer).result := by
  rw [render_result]
  exact (suffixTexts_decided h).bind_ok fun _ text _ => ⟨_, rfl, trivial⟩

theorem clauseGaps_eq_nil {clauses : List Clause} :
    d.clauseGaps clauses = [] ↔ ∀ c ∈ clauses, d.gaps c = [] := by
  simp [clauseGaps]

/-- The first gap is the first one of the first clause that has any. -/
theorem clauseGaps_eq_cons {clauses : List Clause} {gap : String × String}
    {rest : List (String × String)} (h : d.clauseGaps clauses = gap :: rest) :
    ∃ before c after more, clauses = before ++ c :: after ∧ (∀ b ∈ before, d.gaps b = []) ∧
      d.gaps c = gap.1 :: more ∧ gap.2 = c.kindName := by
  induction clauses with
  | nil => simp [clauseGaps] at h
  | cons c after ih =>
    rw [clauseGaps, List.flatMap_cons] at h
    cases hc : d.gaps c with
    | nil =>
      rw [hc] at h
      obtain ⟨before, c', after', more, rfl, hbefore, hgap, hkind⟩ := ih h
      refine ⟨c :: before, c', after', more, rfl, ?_, hgap, hkind⟩
      intro b hb
      rcases List.mem_cons.mp hb with rfl | hb
      · exact hc
      · exact hbefore b hb
    | cons subject more =>
      rw [hc] at h
      obtain rfl : (subject, c.kindName) = gap := (List.cons.inj h).1
      exact ⟨[], c, after, more, rfl, fun b hb => absurd hb List.not_mem_nil, hc, rfl⟩

/-- A clause has a gap iff it keeps distinct rows or calls a function without a renderer. -/
theorem gaps_ne_nil {c : Clause} :
    d.gaps c ≠ [] ↔ c.kind? = some .distinct ∨
      ∃ f ∈ c.compiledCalls d.orderStyle, d.functions f = none := by
  cases c with
  | distinct columns => simp [gaps, Clause.kind?]
  | _ => simp [gaps, Clause.kind?, missing_eq_nil]

end Arrow

/-! ## 6. Standard renderers -/

/-- The standard strategy has a renderer for each function that has rules. -/
theorem FunctionStrategy.standard_of_known {f : FunctionName} (h : f.Known) :
    ∃ renderer, standard f = some renderer := by
  cases f with
  | other text => exact absurd h (Vocabulary.other_unknown _ text)
  | _ => exact ⟨_, rfl⟩

/-- **A checked expression calls functions that have rules.** -/
theorem Expr.Checked.calls_known {s : Schema} {e : Expr} (h : e.Checked s) :
    ∀ f ∈ e.calls, f.Known := by
  induction h with
  | literal => exact fun f hf => absurd hf List.not_mem_nil
  | column _ => exact fun f hf => absurd hf List.not_mem_nil
  | unary _ ih => exact ih
  | membership _ _ ih =>
    intro f hf
    rw [calls, calls, List.append_nil] at hf
    exact ih f hf
  | binary _ _ _ ihl ihr =>
    intro f hf
    rcases List.mem_append.mp hf with hf | hf
    · exact ihl f hf
    · exact ihr f hf
  | call hknown _ _ ih =>
    intro f hf
    rw [calls, callsAll_eq] at hf
    rcases List.mem_cons.mp hf with rfl | hf
    · exact hknown
    · obtain ⟨e, he, hf⟩ := List.mem_flatMap.mp hf
      exact ih e he f hf
  | named _ ih => exact ih
  | conditional _ _ _ iht ihy ihn =>
    intro f hf
    simp only [calls, List.mem_append] at hf
    rcases hf with hf | hf | hf
    · exact iht f hf
    · exact ihy f hf
    · exact ihn f hf

theorem Clause.compiledCalls_known {S : Schema → Prop} {style : OrderStyle} {c : Clause}
    (h : c.TypedIn S) : ∀ f ∈ c.compiledCalls style, f.Known := by
  have known {e : Expr} (he : e.TypedIn S) : ∀ f ∈ e.calls, f.Known := by
    obtain ⟨s, _, he⟩ := he.checked
    exact he.calls_known
  intro f hf
  cases c with
  | extend columns =>
    obtain ⟨e, he, hf⟩ := List.mem_flatMap.mp hf
    exact known (h e he) f hf
  | filter predicate => exact known h f hf
  | groupBy keys selections having =>
    rcases List.mem_append.mp hf with hf | hf
    · obtain ⟨e, he, hf⟩ := List.mem_flatMap.mp hf
      exact known (h.2.1 e he) f hf
    · obtain ⟨e, he, hf⟩ := List.mem_flatMap.mp hf
      exact known (h.2.2 e (Option.mem_toList.mp he)) f hf
  | orderBy terms =>
    obtain ⟨t, ht, hf⟩ := List.mem_flatMap.mp hf
    cases style with
    | direction => exact absurd hf List.not_mem_nil
    | term => exact known (h t ht) f hf
  | join other kind condition => exact known h f hf
  | _ => exact absurd hf List.not_mem_nil

/-! ## 7. The account of failures -/

/-- **A pipeline is written unless a clause has a gap.** A pipeline that starts at a made table
    fails to be written iff it keeps distinct rows somewhere or a call that is written has no
    renderer. Then the first gap of the first clause that has one is refused and attributed to that
    clause. With the standard renderers only distinct rows are left to fail. -/
theorem render_gaps {t : Table} (made : t.Made) (listening : Bool) :
    ∃ base, Pipeline.ofTable t listening = .ok base ∧ ∀ given p, Accepts base given p →
      ∀ d : Arrow,
        ((∃ failure, (p.render d.renderer).result = .error failure) ↔
          (∃ c ∈ p.clauses, c.kind? = some .distinct) ∨
            ∃ c ∈ p.clauses, ∃ f ∈ c.compiledCalls d.orderStyle, d.functions f = none) ∧
        (∀ failure, (p.render d.renderer).result = .error failure →
          ∃ before c after subject more, p.clauses = before ++ c :: after ∧
            (∀ b ∈ before, d.gaps b = []) ∧ d.gaps c = subject :: more ∧
            failure = .refused ⟨.unsupported subject Arrow.name, some c.kindName⟩) ∧
        (d.functions = .standard →
          ((∃ failure, (p.render d.renderer).result = .error failure) ↔
            ∃ c ∈ p.clauses, c.kind? = some .distinct)) := by
  refine ⟨_, Pipeline.ofTable_wellNamed made.wellNamed listening, fun given p h d => ?_⟩
  have typed := h.typed rfl
  have hdecided := Arrow.render_decided (d := d) typed
  have hfails : (∃ failure, (p.render d.renderer).result = .error failure) ↔
      (∃ c ∈ p.clauses, c.kind? = some .distinct) ∨
        ∃ c ∈ p.clauses, ∃ f ∈ c.compiledCalls d.orderStyle, d.functions f = none := by
    have hgaps : (∃ failure, (p.render d.renderer).result = .error failure) ↔
        ∃ c ∈ p.clauses, d.gaps c ≠ [] := by
      cases hall : d.clauseGaps p.clauses with
      | nil =>
        rw [hall] at hdecided
        obtain ⟨text, htext, _⟩ := hdecided
        have hnone := Arrow.clauseGaps_eq_nil.mp hall
        simp only [htext, reduceCtorEq, exists_false, false_iff, not_exists, not_and, ne_eq,
          not_not]
        exact hnone
      | cons gap rest =>
        rw [hall] at hdecided
        obtain ⟨before, c, after, more, hclauses, _, hc, _⟩ := Arrow.clauseGaps_eq_cons hall
        refine iff_of_true ⟨_, hdecided⟩ ⟨c, by simp [hclauses], by simp [hc]⟩
    rw [hgaps]
    simp only [Arrow.gaps_ne_nil, and_or_left, exists_or]
  refine ⟨hfails, fun failure hfailure => ?_, fun hstandard => ?_⟩
  · cases hall : d.clauseGaps p.clauses with
    | nil =>
      rw [hall] at hdecided
      obtain ⟨text, htext, _⟩ := hdecided
      rw [htext] at hfailure
      cases hfailure
    | cons gap rest =>
      rw [hall] at hdecided
      obtain ⟨before, c, after, more, hclauses, hbefore, hc, hkind⟩ :=
        Arrow.clauseGaps_eq_cons hall
      have hfirst : failure = Arrow.clauseFailure gap :=
        Except.error.inj (hfailure.symm.trans hdecided)
      refine ⟨before, c, after, gap.1, more, hclauses, hbefore, hc, ?_⟩
      rw [hfirst, Arrow.clauseFailure, hkind]
  · rw [hfails]
    refine or_iff_left ?_
    intro hmissing
    obtain ⟨c, hc, f, hf, hnone⟩ := hmissing
    obtain ⟨renderer, hrenderer⟩ :=
      FunctionStrategy.standard_of_known (Clause.compiledCalls_known (typed c hc) f hf)
    rw [hstandard, hrenderer] at hnone
    cases hnone

/-- An ordering by a call. -/
def orderByParity : ClauseRequest :=
  .orderBy [.node (.ordering .desc
    (.call .modulo [.column "age", .literal (.integer ⟨0x4000000000000000⟩)]))]

/-- A dialect without a renderer for the call. -/
def Arrow.withoutModulo (style : OrderStyle) : Arrow where
  orderStyle := style
  functions f := if f = .modulo then none else FunctionStrategy.standard f

/-- The call is a gap where terms are written, and otherwise the distinct rows after it are. -/
theorem render_gaps_by_style :
    Table.people.Made ∧ Pipeline.ofTable .people true = .ok .ofPeople ∧
      ∃ p, Accepts .ofPeople [orderByParity, .distinct []] p ∧
        (∃ failure, (p.render ({} : Arrow).renderer).result = .error failure) ∧
        (∃ before c after subject more, p.clauses = before ++ c :: after ∧
          (∀ b ∈ before, (Arrow.withoutModulo .direction).gaps b = []) ∧
          (Arrow.withoutModulo .direction).gaps c = subject :: more ∧
          Failure.refused ⟨.unsupported "Distinct" Arrow.name, some "Distinct"⟩ =
            .refused ⟨.unsupported subject Arrow.name, some c.kindName⟩) ∧
        ∃ before c after subject more, p.clauses = before ++ c :: after ∧
          (∀ b ∈ before, (Arrow.withoutModulo .term).gaps b = []) ∧
          (Arrow.withoutModulo .term).gaps c = subject :: more ∧
          Failure.refused ⟨.unsupported "modulo" Arrow.name, some "OrderBy"⟩ =
            .refused ⟨.unsupported subject Arrow.name, some c.kindName⟩ := by
  obtain ⟨base, hbase, hgaps⟩ := render_gaps Table.people_made true
  obtain rfl : Pipeline.ofPeople = base := Except.ok.inj hbase
  have haccepts : Accepts .ofPeople [orderByParity, .distinct []] _ :=
    .step (.single rfl) rfl
  have hfails := hgaps _ _ haccepts
  refine ⟨Table.people_made, rfl, _, haccepts, ?_, ?_, ?_⟩
  · exact ((hfails {}).2.2 rfl).mpr
      ⟨.distinct [], by simp [Pipeline.clauses, Pipeline.extended], rfl⟩
  · exact (hfails (.withoutModulo .direction)).2.1 _ rfl
  · exact (hfails (.withoutModulo .term)).2.1 _ rfl

end QueryPipeline
