import QueryPipeline.Proofs.Coverage
import QueryPipeline.Proofs.Nodes
import QueryPipeline.Proofs.Rewriting

/-!
# Operators without rules

An expression can hold an operator that names none of the known ones. Which places notice?

* typing notices such an operator on two operands at every depth (`binaryOps_known_of_infer`), and
  takes one on a single operand for a null check (`Expr.asNullCheck`, `typedAlike_asNullCheck`);
* the dialect refuses an operator on two operands unless its text is reserved, which its table of
  tokens answers by accident (`BinaryOp.Written`), and writes whatever stands on one operand;
* **`operators_guarded`** is the exact account of both.
-/

namespace QueryPipeline

/-! ## 1. Typing -/

namespace Expr

/-- The operator of a node on two operands. -/
def binaryOp? : Expr → Option BinaryOp
  | binary op _ _ => some op
  | _ => none

/-- A null check in place of any operator on one operand but `NOT`. -/
def asNullCheck : Expr → Expr
  | unary op operand => unary (if op = .not then .not else .isNull) operand
  | e => e

theorem typedAlike_asNullCheck (e : Expr) : TypedAlike e e.asNullCheck := by
  cases e with
  | unary op operand =>
    refine ⟨fun s mode => ?_, rfl, fun _ _ => rfl⟩
    by_cases h : op = .not
    · rw [asNullCheck, if_pos h, h]
    · simp [asNullCheck, infer, h]
  | _ => exact .refl _

/-- **Every operator on two operands in a typed expression has rules.** -/
theorem binaryOps_known_of_infer {s : Schema} {mode : Mode} {e : Expr} {type : ColumnType}
    (h : e.infer s mode = .ok type) : ∀ n ∈ e.nodes, ∀ op ∈ n.binaryOp?, op.Known := by
  induction e using induct_children generalizing mode type with
  | step e ih =>
    refine forall_nodes.mpr ⟨fun op hop => ?_, fun c hc => ?_⟩
    · cases e with
      | binary own left right =>
        obtain rfl : own = op := Option.some.inj hop
        rw [infer] at h
        by_cases hmember : own.isMembership = true
        · exact BinaryOp.known_of_isMembership hmember
        · rw [if_neg hmember] at h
          obtain ⟨leftType, _, h⟩ := Outcome.bind_eq_ok.mp h
          obtain ⟨rightType, _, h⟩ := Outcome.bind_eq_ok.mp h
          exact BinaryOp.known_of_resultType h
      | _ => exact absurd hop (by simp [binaryOp?])
    · rcases infer_child h hc with ⟨below, hbelow⟩ | ⟨items, rfl⟩
      · exact ih c hc hbelow
      · -- a list of literals holds no operators
        intro n hn op hop
        rcases List.mem_cons.mp hn with rfl | hn
        · exact absurd hop (by simp [binaryOp?])
        · obtain ⟨value, _, rfl⟩ := List.mem_map.mp hn
          exact absurd hop (by simp [binaryOp?])

end Expr

/-! ## 2. Writing -/

/-- The dialect has a text for the operator: it has rules, or its text is reserved. -/
def BinaryOp.Written (op : BinaryOp) : Prop := op.Known ∨ op.text ∈ reservedTokens.map Prod.fst

instance (op : BinaryOp) : Decidable op.Written := inferInstanceAs (Decidable (_ ∨ _))

theorem BinaryOp.written?_of_written {op : BinaryOp} (h : op.Written) (l r : String) :
    ∃ text, op.written? l r = some text := by
  cases op with
  | other text =>
    have hmem : text ∈ reservedTokens.map Prod.fst :=
      h.resolve_left (vocabulary.other_unknown text)
    cases hlookup : reservedTokens.lookup text with
    | none =>
      obtain ⟨entry, hentry, rfl⟩ := List.mem_map.mp hmem
      have hne := List.lookup_eq_none_iff.mp hlookup entry hentry
      simp at hne
    | some token =>
      refine ⟨"(" ++ l ++ " " ++ token ++ " " ++ r ++ ")", ?_⟩
      simp only [written?, token?, hlookup, Option.map_some]
  | _ =>
    refine written?_of_known ?_ l r
    exact vocabulary.known_iff.mpr nofun

theorem BinaryOp.written?_of_not_written {op : BinaryOp} (h : ¬ op.Written) (l r : String) :
    op.written? l r = none := by
  cases op with
  | other text =>
    have hmem : text ∉ reservedTokens.map Prod.fst := fun hmem => h (Or.inr hmem)
    have hlookup : reservedTokens.lookup text = none := by
      refine List.lookup_eq_none_iff.mpr fun entry hentry => ?_
      have hne : entry.1 ≠ text := fun e => hmem (List.mem_map.mpr ⟨entry, hentry, e⟩)
      simpa using Ne.symm hne
    simp only [written?, token?, hlookup, Option.map_none]
  | _ =>
    refine absurd (Or.inl ?_) h
    exact vocabulary.known_iff.mpr nofun

namespace Arrow

variable {d : Arrow}

/-- What the dialect lacks for a node, whatever stands below it: a text for an operator on two
    operands, a renderer for a call, and any text for parts of clauses. -/
def lacks? (d : Arrow) : Expr → Option String
  | .binary op _ _ => if op.Written then none else some op.text
  | .call function _ => if (d.functions function).isSome then none else some function.text
  | .grouping _ _ _ => some NodeKind.grouping.name
  | .joining _ => some NodeKind.joining.name
  | _ => none

/-- Something that the dialect lacks for a node of the expression. -/
def Lacks (d : Arrow) (e : Expr) (subject : String) : Prop :=
  ∃ n ∈ e.nodes, d.lacks? n = some subject

theorem lacks_iff {e : Expr} {subject : String} :
    d.Lacks e subject ↔ d.lacks? e = some subject ∨ ∃ c ∈ e.children, d.Lacks c subject := by
  simp only [Lacks, Expr.mem_nodes (e := e), or_and_right, exists_or, exists_eq_left]
  refine or_congr_right ⟨?_, ?_⟩
  · rintro ⟨n, ⟨c, hc, hn⟩, hsubject⟩
    exact ⟨c, hc, n, hn, hsubject⟩
  · rintro ⟨c, hc, n, hn, hsubject⟩
    exact ⟨n, ⟨c, hc, hn⟩, hsubject⟩

/-- The texts of a list fail for what the dialect lacks for a member. -/
theorem fragments_settled {es : List Expr}
    (h : ∀ e ∈ es, SettledBy gapFailure (d.Lacks e) (d.fragment e)) :
    SettledBy gapFailure (fun subject => ∃ e ∈ es, d.Lacks e subject) (d.fragments es) := by
  induction es with
  | nil => exact .ok [] (by simp)
  | cons e rest ih =>
    have htail := ih fun e he => h e (List.mem_cons_of_mem _ he)
    refine ((h e List.mem_cons_self).bind fun text => htail.bind_ok).congr fun subject => ?_
    simp

/-- An operator between the texts of its operands fails unless it is one that is written. -/
theorem written_settled (op : BinaryOp) (left right : String) :
    SettledBy gapFailure (fun subject => ¬ op.Written ∧ op.text = subject)
      (match op.written? left right with
        | some text => .ok (some text)
        | none => unsupported op.text : Outcome Fragment) := by
  by_cases hop : op.Written
  · obtain ⟨text, htext⟩ := BinaryOp.written?_of_written hop left right
    rw [htext]
    exact .ok _ fun _ h => h.1 hop
  · rw [BinaryOp.written?_of_not_written hop]
    exact Or.inr ⟨op.text, ⟨hop, rfl⟩, rfl⟩

/-- **The text of an expression fails for what the dialect lacks for a node of it**, and for
    nothing else. -/
theorem fragment_settled {e : Expr} (known : ∀ n ∈ e.nodes, n.kind? ≠ none) :
    SettledBy gapFailure (d.Lacks e) (d.fragment e) := by
  induction e with
  | literal value => exact .ok _ fun _ h => by simpa [lacks?, Expr.children] using lacks_iff.mp h
  | column name => exact .ok _ fun _ h => by simpa [lacks?, Expr.children] using lacks_iff.mp h
  | valueList items =>
    refine .ok _ fun _ h => ?_
    obtain ⟨n, hn, hsubject⟩ := h
    rcases List.mem_cons.mp hn with rfl | hn
    · cases hsubject
    · obtain ⟨value, _, rfl⟩ := List.mem_map.mp hn
      cases hsubject
  | unary op operand ih =>
    have hoperand := ih ((Expr.forall_nodes.mp known).2 operand (by simp [Expr.children]))
    exact hoperand.bind_ok.congr fun subject =>
      lacks_iff.trans (by simp [lacks?, Expr.children])
  | binary op left right ihl ihr =>
    have hleft := ihl ((Expr.forall_nodes.mp known).2 left (by simp [Expr.children]))
    have hright := ihr ((Expr.forall_nodes.mp known).2 right (by simp [Expr.children]))
    -- the operator comes last: its operands are written before its token is looked up
    have hop := hleft.bind fun leftText => hright.bind fun rightText =>
      written_settled op leftText.inline rightText.inline
    refine hop.congr fun subject => lacks_iff.trans ?_
    simp only [lacks?, Expr.children, List.mem_cons, List.not_mem_nil, or_false, exists_eq_or_imp,
      exists_eq_left, Option.ite_none_left_eq_some, Option.some.injEq]
    tauto
  | call function args ih =>
    have hargs := fragments_settled fun e he => ih e he ((Expr.forall_nodes.mp known).2 e he)
    rw [fragment]
    cases hrenderer : d.functions function with
    | none =>
      refine Or.inr ⟨function.text, lacks_iff.mpr (Or.inl ?_), rfl⟩
      simp [lacks?, hrenderer]
    | some renderer =>
      exact hargs.bind_ok.congr fun subject =>
        lacks_iff.trans (by simp [lacks?, Expr.children, hrenderer])
  | named name inner ih =>
    have hinner := ih ((Expr.forall_nodes.mp known).2 inner (by simp [Expr.children]))
    exact hinner.bind_ok.congr fun subject =>
      lacks_iff.trans (by simp [lacks?, Expr.children])
  | conditional test yes no iht ihy ihn =>
    have below := (Expr.forall_nodes.mp known).2
    have htest := iht (below test (by simp [Expr.children]))
    have hyes := ihy (below yes (by simp [Expr.children]))
    have hno := ihn (below no (by simp [Expr.children]))
    exact (htest.bind fun _ => hyes.bind fun _ => hno.bind_ok).congr fun subject =>
      lacks_iff.trans (by simp [lacks?, Expr.children])
  | ordering direction term ih =>
    have hterm := ih ((Expr.forall_nodes.mp known).2 term (by simp [Expr.children]))
    exact hterm.bind_ok.congr fun subject =>
      lacks_iff.trans (by simp [lacks?, Expr.children])
  | grouping keys selections having =>
    exact Or.inr ⟨NodeKind.grouping.name, lacks_iff.mpr (Or.inl rfl), rfl⟩
  | joining condition =>
    exact Or.inr ⟨NodeKind.joining.name, lacks_iff.mpr (Or.inl rfl), rfl⟩
  | foreign kind source => exact absurd rfl (known _ (Expr.self_mem_nodes _))

/-- **A filter is refused iff the dialect lacks something for a node of its predicate**, and the
    refusal is attributed to the filter. -/
theorem renderSuffix_filter_settled {e : Expr} (known : ∀ n ∈ e.nodes, n.kind? ≠ none) :
    SettledBy (fun subject => clauseFailure (subject, ClauseKind.filter.name)) (d.Lacks e)
      (d.renderSuffix (.filter e)) := by
  have hclause : SettledBy gapFailure (d.Lacks e) (d.clauseText (.filter e)) :=
    (fragment_settled known).bind_ok.bind_ok
  exact hclause.mapError _

end Arrow

/-! ## 3. Which operators are refused -/

/-- **Unknown operators are refused on two operands only.** In a typed expression every operator on
    two operands has rules, while one on a single operand that is not `NOT` is typed as a null check
    whatever it is. A filter over nodes of known kinds is written iff its dialect lacks nothing for
    any node; an operator on two operands is lacking unless it has rules or its text is reserved,
    and one on a single operand never is. -/
theorem operators_guarded (s : Schema) (mode : Mode) (d : Arrow) (e : Expr) :
    (∀ type, e.infer s mode = .ok type → ∀ n ∈ e.nodes, ∀ op ∈ n.binaryOp?, op.Known) ∧
    (e.rewrite Expr.asNullCheck).infer s mode = e.infer s mode ∧
    ((∀ n ∈ e.nodes, n.kind? ≠ none) →
      ((∃ text, d.renderSuffix (.filter e) = .ok text) ↔ ∀ n ∈ e.nodes, d.lacks? n = none) ∧
      ∀ failure, d.renderSuffix (.filter e) = .error failure →
        ∃ n ∈ e.nodes, ∃ subject, d.lacks? n = some subject ∧
          failure = .refused ⟨.unsupported subject Arrow.name, some ClauseKind.filter.name⟩) := by
  refine ⟨fun type => Expr.binaryOps_known_of_infer, ?_,
    fun known => ⟨?_, fun failure hfailure => ?_⟩⟩
  · exact (Expr.rewrite_typedAlike Expr.typedAlike_asNullCheck e).infer s mode
  · rw [(Arrow.renderSuffix_filter_settled known).exists_ok]
    simp only [Arrow.Lacks, not_exists, not_and, Option.eq_none_iff_forall_ne_some]
    exact ⟨fun h n hn subject => h subject n hn, fun h subject n hn => h n hn subject⟩
  · obtain ⟨subject, ⟨n, hn, hsubject⟩, rfl⟩ :=
      (Arrow.renderSuffix_filter_settled known).of_error hfailure
    exact ⟨n, hn, subject, hsubject, rfl⟩

/-- An operator without rules on one operand, compared with a truth value. -/
def comparedNegation : Expr :=
  .binary (.comparison .equal) (.unary (.other "NEG") (.column "age")) (.literal (.boolean true))

/-- An operator without rules on two operands, above one on a single operand. -/
def raisedNegation : Expr :=
  .binary (.other "^") (.unary (.other "NEG") (.column "age")) (.literal (.long 2))

/-- The comparison is typed, as if the operator below it were a null check; the other expression is
    refused for its operator on two operands. -/
theorem operators_guarded_negation :
    (comparedNegation.infer Pipeline.ofPeople.schema {} = .ok .boolean ∧
      ∀ n ∈ comparedNegation.nodes, ∀ op ∈ n.binaryOp?, op.Known) ∧
    (comparedNegation.rewrite Expr.asNullCheck).infer Pipeline.ofPeople.schema {} = .ok .boolean ∧
    (∃ text, ({} : Arrow).renderSuffix (.filter comparedNegation) = .ok text) ∧
    ∃ n ∈ raisedNegation.nodes, ∃ subject, ({} : Arrow).lacks? n = some subject ∧
      Failure.refused ⟨.unsupported "^" Arrow.name, some "Filter"⟩ =
        .refused ⟨.unsupported subject Arrow.name, some ClauseKind.filter.name⟩ := by
  obtain ⟨hknown, halike, hwritten⟩ :=
    operators_guarded Pipeline.ofPeople.schema {} {} comparedNegation
  obtain ⟨_, _, hrefused⟩ := operators_guarded Pipeline.ofPeople.schema {} {} raisedNegation
  have htyped : comparedNegation.infer Pipeline.ofPeople.schema {} = .ok .boolean := rfl
  refine ⟨⟨htyped, hknown _ htyped⟩, halike.trans htyped, ?_, ?_⟩
  · exact (hwritten (by decide)).1.mpr (by decide)
  · exact (hrefused (by decide)).2 _ rfl

/-- An operator that is none is typed and written, without a text of its own; and a reserved text
    between two operands is written with what the table of tokens answers for it. -/
theorem unknown_operator_accepted :
    ¬ (UnaryOp.other "NEG").Known ∧
      (Expr.unary (.other "NEG") (.column "age")).infer Pipeline.ofPeople.schema {} = .ok .boolean ∧
      ({} : Arrow).renderSuffix (.filter (.unary (.other "NEG") (.column "age"))) =
        .ok "\n->filter(undefined)" ∧
    ¬ (BinaryOp.other "constructor").Known ∧
      ({} : Arrow).renderSuffix
          (.filter (.binary (.other "constructor") (.column "age") (.column "age"))) =
        .ok "\n->filter((age function Object() \x7b [native code] \x7d age))" :=
  ⟨by decide, rfl, rfl, by decide, rfl⟩

end QueryPipeline
