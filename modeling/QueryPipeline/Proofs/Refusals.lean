import Mathlib.Data.List.Duplicate
import QueryPipeline.Proofs.AliasNames
import QueryPipeline.Proofs.Selections

/-!
# Refused checks

What the checks of requests are refused for. Each lemma takes for a property of causes what makes it
hold of the causes that its check gives, so that the property can speak of a whole request, and says
that whatever the check is refused for has this property (`RefusedFor`).

* `Expr.ruleSubject?` is what a node is called when it is refused for its type, and `Expr.Mistyped`
  says of an expression that it is refused for a type, and that the rule of one of its nodes is
  called like this;
* **`Expr.infer_refused`**: typing is refused for a mentioned column that is missing, or for the
  rule of one of the nodes;
* `Expr.NoPredicate` says why an expression is no predicate (`requirePredicate_refused`);
* the other lemmas go through the checks of columns, names, pairs, selections, terms and counts.
-/

namespace QueryPipeline

variable {s : Schema} {P : Cause → Prop} {α : Type}

/-! ## 1. Rules of typing -/

theorem mistyped_refused {subject : String} {fault : TypeFault}
    (h : P (.typeMismatch subject fault)) : RefusedFor P (mistyped subject fault : Outcome α) :=
  .refuse h

theorem Schema.get_refused {name : String}
    (unknown : name ∉ s.names → P (.unknownColumn name)) : RefusedFor P (s.get name) := by
  by_cases h : s.has name = true
  · obtain ⟨c, hc⟩ := has_iff_get.mp h
    rw [hc]
    exact .ok c
  · unfold get
    cases s.find? name with
    | some c => exact .ok c
    | none => exact .refuse (unknown fun hname => h (has_iff.mpr hname))

theorem requireBoolean_refused {subject role : String} {type : ColumnType}
    (other : type ≠ .boolean → P (.typeMismatch subject (.notBoolean role type))) :
    RefusedFor P (requireBoolean subject role type) :=
  .ite (fun _ => .ok ()) fun h => mistyped_refused (other h)

theorem membershipType_refused {op : BinaryOp} {left : ColumnType} {items : List Literal}
    (own : ∀ fault, P (.typeMismatch op.text fault)) :
    RefusedFor P (membershipType op left items) := by
  induction items with
  | nil => exact .ok _
  | cons item rest ih => exact .ite (fun _ => ih) fun _ => mistyped_refused (own _)

theorem BinaryOp.membershipIn_refused {op : BinaryOp} {left : ColumnType} {e : Expr}
    (own : ∀ fault, P (.typeMismatch op.text fault)) : RefusedFor P (op.membershipIn left e) := by
  unfold membershipIn
  split
  · exact mistyped_refused (own _)
  · exact membershipType_refused own
  · exact mistyped_refused (own _)

/-- The rule of an operator is refused under the name of the operator. -/
theorem BinaryOp.resultType_refused {op : BinaryOp} {operand : Expr} {left right : ColumnType}
    (own : ∀ fault, P (.typeMismatch op.text fault)) :
    RefusedFor P (op.resultType operand left right) := by
  cases op with
  | logical op =>
    refine (requireBoolean_refused fun _ => own _).bind fun _ _ => ?_
    exact (requireBoolean_refused fun _ => own _).bind fun _ _ => .ok _
  | comparison op =>
    cases op with
    | like =>
      exact .ite (fun _ => mistyped_refused (own _)) fun _ =>
        .ite (fun _ => mistyped_refused (own _)) fun _ => .ok _
    | _ => exact .ite (fun _ => .ok _) fun _ => mistyped_refused (own _)
  | arithmetic op =>
    refine .ite (fun _ => mistyped_refused (own _)) fun _ => ?_
    cases op with
    | remainder => exact .ite (fun _ => mistyped_refused (own _)) fun _ => .ok _
    | _ => exact .ok _
  | bitwise op => exact .ite (fun _ => mistyped_refused (own _)) fun _ => .ok _
  | other text => exact mistyped_refused (own _)

theorem branchType_refused {yes no : ColumnType} (own : ∀ fault, P (.typeMismatch "if" fault)) :
    RefusedFor P (branchType yes no) :=
  .ite (fun _ => .ok _) fun _ => .ite (fun _ => .ok _) fun _ =>
    .ite (fun _ => .ok _) fun _ => mistyped_refused (own _)

namespace FunctionName

variable {f : FunctionName}

theorem checkCall_refused {mode : Mode} {count : Nat}
    (own : ∀ fault, P (.typeMismatch f.text fault)) : RefusedFor P (f.checkCall mode count) := by
  refine requireSignature_refused.bind fun _ _ => ?_
  exact .ite (fun _ => mistyped_refused (own _)) fun _ =>
    .ite (fun _ => mistyped_refused (own _)) fun _ =>
      .ite (fun _ => mistyped_refused (own _)) fun _ => .ok _

theorem callType_refused {args : List ColumnType} (own : ∀ fault, P (.typeMismatch f.text fault)) :
    RefusedFor P (f.callType args) := by
  unfold callType
  cases f.resultType args with
  | ok type => exact .ok type
  | error fault => exact mistyped_refused (own fault)

end FunctionName

/-! ## 2. Typing -/

namespace Expr

variable {mode : Mode} {e : Expr}

/-- What a node is called when its own rule refuses it: its operator, its function or its kind. -/
def ruleSubject? : Expr → Option String
  | unary op _ => some op.text
  | binary op _ _ => some op.text
  | call function _ => some function.text
  | conditional _ _ _ => some "if"
  | valueList _ => some NodeKind.valueList.name
  | ordering _ _ => some NodeKind.ordering.name
  | grouping _ _ _ => some NodeKind.grouping.name
  | joining _ => some NodeKind.joining.name
  | literal _ | column _ | named _ _ | foreign _ _ => none

/-- Typing the expression is refused for the given fault of the given subject. -/
def Misfits (s : Schema) (mode : Mode) (subject : String) (fault : TypeFault) (e : Expr) : Prop :=
  ∃ refusal, e.infer s mode = .error (.refused refusal) ∧
    refusal.cause = .typeMismatch subject fault

/-- Typing the expression is refused for a fault, and so is typing one of its nodes, to which the
    subject belongs. -/
structure Mistyped (s : Schema) (mode : Mode) (subject : String) (fault : TypeFault) (e : Expr) :
    Prop where
  refused : e.Misfits s mode subject fault
  origin : ∃ n ∈ e.nodes, n.ruleSubject? = some subject ∧ ∃ inner, n.Misfits s inner subject fault

/-- A name changes nothing about the expression under it. -/
theorem Mistyped.named {subject : String} {fault : TypeFault} (h : e.Mistyped s mode subject fault)
    (name : String) : (Expr.named name e).Mistyped s mode subject fault := by
  obtain ⟨n, hn, horigin⟩ := h.origin
  exact ⟨h.refused, n, mem_nodes.mpr (Or.inr ⟨e, List.mem_cons_self, hn⟩), horigin⟩

/-- The causes that typing an expression can give: a mentioned column that is missing, or the fault
    of one of the nodes. -/
inductive TypingCause (s : Schema) (e : Expr) : Cause → Prop
  | unknown {n : String} (mentioned : n ∈ e.references) (missing : n ∉ s.names) :
      TypingCause s e (.unknownColumn n)
  | mistyped {n : Expr} {mode : Mode} {subject : String} {fault : TypeFault} (node : n ∈ e.nodes)
      (named : n.ruleSubject? = some subject) (refused : n.Misfits s mode subject fault) :
      TypingCause s e (.typeMismatch subject fault)

theorem TypingCause.of_child {c : Expr} {cause : Cause} (h : c.TypingCause s cause)
    (hc : c ∈ e.children) : e.TypingCause s cause := by
  cases h with
  | unknown mentioned missing => exact .unknown (references_child hc _ mentioned) missing
  | mistyped node named refused =>
    exact .mistyped (mem_nodes.mpr (Or.inr ⟨c, hc, node⟩)) named refused

/-- A list is refused for what a member is refused for. -/
theorem inferAll_refused {es : List Expr} (h : ∀ e ∈ es, RefusedFor P (e.infer s mode)) :
    RefusedFor P (inferAll s mode es) := by
  induction es with
  | nil => exact .ok []
  | cons e rest ih =>
    have hrest := ih fun e he => h e (List.mem_cons_of_mem _ he)
    exact (h e List.mem_cons_self).bind fun _ _ => hrest.bind fun _ _ => .ok _

/-- **A node is refused** for what the nodes below it are refused for, for the column that it is, or
    by its own rule. -/
theorem infer_refused_of_children
    (below : ∀ c ∈ e.children, ∀ mode, RefusedFor P (c.infer s mode))
    (reference : ∀ n, e = column n → n ∉ s.names → P (.unknownColumn n))
    (own : ∀ subject, e.ruleSubject? = some subject → ∀ fault, P (.typeMismatch subject fault)) :
    RefusedFor P (e.infer s mode) := by
  cases e with
  | literal value => exact .ok _
  | column name => exact (Schema.get_refused (reference name rfl)).bind fun _ _ => .ok _
  | unary op operand =>
    refine (below operand (by simp [children]) _).bind fun type _ => ?_
    refine .ite (fun _ => ?_) fun _ => .ok _
    exact (requireBoolean_refused fun _ => own _ rfl _).bind fun _ _ => .ok _
  | binary op left right =>
    have hleft := below left (by simp [children]) mode
    have hright := below right (by simp [children]) mode
    rw [infer]
    refine .ite (fun _ => ?_) fun _ => ?_
    · exact hleft.bind fun _ _ => BinaryOp.membershipIn_refused (own _ rfl)
    · exact hleft.bind fun _ _ => hright.bind fun _ _ => BinaryOp.resultType_refused (own _ rfl)
  | call function args =>
    refine (FunctionName.checkCall_refused (own _ rfl)).bind fun _ _ => ?_
    refine (inferAll_refused fun c hc => below c hc _).bind fun _ _ => ?_
    exact FunctionName.callType_refused (own _ rfl)
  | named name inner => exact below inner (by simp [children]) mode
  | conditional test yes no =>
    refine (below test (by simp [children]) _).bind fun _ _ => ?_
    refine (requireBoolean_refused fun _ => own _ rfl _).bind fun _ _ => ?_
    refine (below yes (by simp [children]) _).bind fun _ _ => ?_
    refine (below no (by simp [children]) _).bind fun _ _ => branchType_refused (own _ rfl)
  | foreign kind source => exact .defect _
  | _ => exact mistyped_refused (own _ rfl _)

/-- **Typing is refused for a mentioned column that is missing, or for the rule of a node.** -/
theorem infer_refused : RefusedFor (e.TypingCause s) (e.infer s mode) := by
  induction e using induct_children generalizing mode with
  | step e ih =>
    -- a fault of the own rule is one that the whole node is refused for
    have hcauses : RefusedFor (fun cause => e.TypingCause s cause ∨
        ∃ subject fault, cause = .typeMismatch subject fault ∧ e.ruleSubject? = some subject)
        (e.infer s mode) := by
      refine infer_refused_of_children (fun c hc mode => ?_) (fun n he hn => ?_)
        fun subject hown fault => Or.inr ⟨subject, fault, rfl, hown⟩
      · exact (ih c hc).mono fun cause h => Or.inl (h.of_child hc)
      · exact Or.inl (.unknown (mem_references.mpr (Or.inl he)) hn)
    refine hcauses.and_refusal.mono fun cause h => ?_
    obtain ⟨hbelow | ⟨subject, fault, rfl, hown⟩, hrefused⟩ := h
    · exact hbelow
    · exact .mistyped (self_mem_nodes e) hown hrefused

theorem infer_refusedFor (unknown : ∀ n ∈ e.references, n ∉ s.names → P (.unknownColumn n))
    (untyped : ∀ subject fault, e.Mistyped s mode subject fault → P (.typeMismatch subject fault)) :
    RefusedFor P (e.infer s mode) := by
  refine infer_refused.and_refusal.mono fun cause h => ?_
  obtain ⟨hcause, hrefused⟩ := h
  cases hcause with
  | unknown mentioned missing => exact unknown _ mentioned missing
  | mistyped node named refused => exact untyped _ _ ⟨hrefused, _, node, named, _, refused⟩

/-- Why an expression is no predicate: its type is another one, or it has none. -/
inductive NoPredicate (s : Schema) (mode : Mode) (subject role : String) (e : Expr) :
    String → TypeFault → Prop
  | other {type : ColumnType} (typed : e.infer s mode = .ok type) (h : type ≠ .boolean) :
      NoPredicate s mode subject role e subject (.notBoolean role type)
  | untyped {inner : String} {fault : TypeFault} (h : e.Mistyped s mode inner fault) :
      NoPredicate s mode subject role e inner fault

end Expr

theorem requirePredicate_refused {mode : Mode} {subject role : String} {e : Expr}
    (unknown : ∀ n ∈ e.references, n ∉ s.names → P (.unknownColumn n))
    (untyped : ∀ given fault, e.NoPredicate s mode subject role given fault →
      P (.typeMismatch given fault)) :
    RefusedFor P (requirePredicate s mode subject role e) := by
  have htype : RefusedFor P (e.infer s mode) :=
    Expr.infer_refusedFor unknown fun given fault h => untyped given fault (.untyped h)
  refine htype.bind fun type typed => requireBoolean_refused fun h => ?_
  exact untyped subject _ (.other typed h)

/-! ## 3. Values and columns -/

theorem requireNonEmpty_refused {items : List α} {what : String}
    (empty : items = [] → P (.invalidValue "[]" (.noEntries what))) :
    RefusedFor P (requireNonEmpty items what) := by
  cases items with
  | nil => exact .refuse (empty rfl)
  | cons item rest => exact .ok ()

theorem requireIdentifier_refused {name what : String}
    (misnamed : isIdentifier name = false → P (.invalidValue name (.notAnIdentifier what))) :
    RefusedFor P (requireIdentifier (.text name) what) := by
  by_cases h : isIdentifier name = true
  · rw [requireIdentifier_text_eq_ok.mpr ⟨rfl, h⟩]
    exact .ok name
  · have h : isIdentifier name = false := by simpa using h
    rw [requireIdentifier_misnamed h]
    exact .refuse (misnamed h)

theorem columnReferences_refused {clause : String} {inputs : List ColumnInput}
    (other : ∀ input ∈ inputs, (∀ n, input.toExpr ≠ Expr.column n) →
      P (.typeMismatch input.toExpr.kindName (.notAColumn clause))) :
    RefusedFor P (columnReferences clause inputs) := by
  induction inputs with
  | nil => exact .ok []
  | cons input rest ih =>
    have hfirst : RefusedFor P (columnReference clause input) := by
      unfold columnReference
      split
      · exact .ok _
      · rename_i hother
        exact .refuse (other input List.mem_cons_self hother)
    have hrest := ih fun i hi => other i (List.mem_cons_of_mem _ hi)
    exact hfirst.bind fun _ _ => hrest.bind fun _ _ => .ok _

/-- The first name that occurs again occurs twice, or among the earlier ones. -/
theorem firstRepeated?_eq_some {earlier names : List String} {n : String}
    (h : firstRepeated? earlier names = some n) : n ∈ names ∧ n ∈ earlier ∨ names.Duplicate n := by
  induction names generalizing earlier with
  | nil => cases h
  | cons first rest ih =>
    rw [firstRepeated?] at h
    by_cases hfirst : first ∈ earlier
    · rw [if_pos hfirst] at h
      obtain rfl := Option.some.inj h
      exact Or.inl ⟨List.mem_cons_self, hfirst⟩
    · rw [if_neg hfirst] at h
      rcases ih h with ⟨hrest, hearlier⟩ | htwice
      · rcases List.mem_cons.mp hearlier with rfl | hearlier
        · exact Or.inr (.cons_mem hrest)
        · exact Or.inl ⟨List.mem_cons_of_mem _ hrest, hearlier⟩
      · exact Or.inr (.cons_duplicate htwice)

theorem Schema.ofColumns_refused {columns : List Column}
    (twice : ∀ n, (columnNames columns).Duplicate n → P (.duplicateColumn n)) :
    RefusedFor P (ofColumns columns) := by
  unfold ofColumns
  split
  · exact .ok _
  · rename_i hnodup
    cases hfirst : firstRepeated? [] (columnNames columns) with
    | none => exact absurd (firstRepeated?_eq_none_iff.mp hfirst).1 hnodup
    | some n =>
      rcases firstRepeated?_eq_some hfirst with ⟨_, hearlier⟩ | htwice
      · exact absurd hearlier List.not_mem_nil
      · exact .refuse (twice n htwice)

theorem Schema.project_refused {names : List String}
    (unknown : ∀ n ∈ names, n ∉ s.names → P (.unknownColumn n))
    (twice : ∀ n, names.Duplicate n → P (.duplicateColumn n)) : RefusedFor P (s.project names) := by
  have hget : RefusedFor P (s.getAll names) := by
    clear twice
    induction names with
    | nil => exact .ok []
    | cons n rest ih =>
      have hfirst := get_refused (unknown n List.mem_cons_self)
      have hrest := ih fun m hm => unknown m (List.mem_cons_of_mem _ hm)
      exact hfirst.bind fun _ _ => hrest.bind fun _ _ => .ok _
  refine hget.bind fun columns hcolumns => ofColumns_refused fun n hn => twice n ?_
  rwa [(getAll_eq_ok_iff.mp hcolumns).1] at hn

/-- A name behind the first one that is among the earlier ones once the first has joined them was
    among them before, or is the first one again. -/
theorem taken_later {Q : String → Prop} {first : String} {rest earlier : List String}
    (taken : ∀ n ∈ first :: rest, n ∈ earlier → Q n)
    (twice : ∀ n, (first :: rest).Duplicate n → Q n) :
    ∀ n ∈ rest, n ∈ first :: earlier → Q n := by
  intro n hn hearlier
  rcases List.mem_cons.mp hearlier with rfl | hearlier
  · exact twice _ (.cons_mem hn)
  · exact taken n (List.mem_cons_of_mem _ hn) hearlier

theorem computedColumns_refused {earlier : List String} {inputs : List ColumnInput}
    (unnamed : ∀ input ∈ inputs, (∀ name inner, input ≠ .node (.named name inner)) →
      P (.typeMismatch input.kindName .notAliased))
    (untyped : ∀ input ∈ inputs, ∀ subject fault, input.toExpr.Mistyped s {} subject fault →
      P (.typeMismatch subject fault))
    (unknown : ∀ input ∈ inputs, ∀ n ∈ input.toExpr.references, n ∉ s.names →
      P (.unknownColumn n))
    (misnamed : ∀ n ∈ inputs.filterMap ColumnInput.heading?, isIdentifier n = false →
      P (.invalidValue n (.notAnIdentifier "Alias")))
    (taken : ∀ n ∈ inputs.filterMap ColumnInput.heading?, n ∈ s.names ∨ n ∈ earlier →
      P (.duplicateColumn n))
    (twice : ∀ n, (inputs.filterMap ColumnInput.heading?).Duplicate n → P (.duplicateColumn n)) :
    RefusedFor P (computedColumns s earlier inputs) := by
  induction inputs generalizing earlier with
  | nil => exact .ok []
  | cons input rest ih =>
    have hmem : input ∈ input :: rest := List.mem_cons_self
    have haliased : RefusedFor P (requireAliased input) := by
      unfold requireAliased
      split
      · exact .ok _
      · rename_i hother
        exact .refuse (unnamed input hmem hother)
    rw [computedColumns]
    refine haliased.bind fun a ha => ?_
    obtain rfl := requireAliased_eq_ok.mp ha
    have hheadings : (.node a.toExpr :: rest : List ColumnInput).filterMap ColumnInput.heading? =
        a.name :: rest.filterMap ColumnInput.heading? := rfl
    rw [hheadings] at misnamed taken twice
    have hname : a.name ∈ a.name :: rest.filterMap ColumnInput.heading? := List.mem_cons_self
    refine (requireIdentifier_refused (misnamed a.name hname)).bind fun name hid => ?_
    obtain ⟨rfl, _⟩ := requireIdentifier_text_eq_ok.mp hid
    refine .ite (fun h => .refuse ?_) fun h => ?_
    · have htaken : s.has a.name = true ∨ a.name ∈ earlier := by simpa using h
      exact taken a.name hname (htaken.imp_left Schema.has_iff.mp)
    · have hexpr : RefusedFor P (a.expr.infer s {}) :=
        Expr.infer_refusedFor (unknown _ hmem) fun subject fault h =>
          untyped _ hmem subject fault (h.named a.name)
      refine hexpr.bind fun type _ => RefusedFor.bind (ih ?_ ?_ ?_ ?_ ?_ ?_) fun _ _ => .ok _
      · exact fun i hi => unnamed i (List.mem_cons_of_mem _ hi)
      · exact fun i hi => untyped i (List.mem_cons_of_mem _ hi)
      · exact fun i hi => unknown i (List.mem_cons_of_mem _ hi)
      · exact fun n hn => misnamed n (List.mem_cons_of_mem _ hn)
      · -- a name that an earlier one has is the name of two expressions
        intro n hn htaken
        rcases htaken with hs | hearlier
        · exact taken n (List.mem_cons_of_mem _ hn) (Or.inl hs)
        · exact taken_later (fun m hm h => taken m hm (Or.inr h)) twice n hn hearlier
      · exact fun n hn => twice n (.cons_duplicate hn)

theorem checkPairs_refused {earlier pairs : List (String × String)}
    (unknown : ∀ n ∈ pairs.map Prod.fst, n ∉ s.names → P (.unknownColumn n))
    (misnamed : ∀ n ∈ pairs.map Prod.snd, isIdentifier n = false →
      P (.invalidValue n (.notAnIdentifier "Rename target")))
    (sourceTaken : ∀ n ∈ pairs.map Prod.fst, n ∈ earlier.map Prod.fst → P (.duplicateColumn n))
    (targetTaken : ∀ n ∈ pairs.map Prod.snd, n ∈ earlier.map Prod.snd → P (.duplicateColumn n))
    (sourceTwice : ∀ n, (pairs.map Prod.fst).Duplicate n → P (.duplicateColumn n))
    (targetTwice : ∀ n, (pairs.map Prod.snd).Duplicate n → P (.duplicateColumn n)) :
    RefusedFor P (checkPairs s earlier pairs) := by
  induction pairs generalizing earlier with
  | nil => exact .ok ()
  | cons pair rest ih =>
    obtain ⟨source, target⟩ := pair
    rw [List.map_cons] at unknown misnamed sourceTaken targetTaken sourceTwice targetTwice
    rw [checkPairs]
    refine (Schema.get_refused (unknown source List.mem_cons_self)).bind fun _ _ => ?_
    refine (requireIdentifier_refused (misnamed target List.mem_cons_self)).bind fun name hid => ?_
    obtain ⟨rfl, _⟩ := requireIdentifier_text_eq_ok.mp hid
    refine .ite (fun h => .refuse (sourceTaken source List.mem_cons_self h)) fun _ => ?_
    refine .ite (fun h => .refuse (targetTaken target List.mem_cons_self h)) fun _ => ?_
    refine ih ?_ ?_ ?_ ?_ ?_ ?_
    · exact fun n hn => unknown n (List.mem_cons_of_mem _ hn)
    · exact fun n hn => misnamed n (List.mem_cons_of_mem _ hn)
    · exact taken_later sourceTaken sourceTwice
    · exact taken_later targetTaken targetTwice
    · exact fun n hn => sourceTwice n (.cons_duplicate hn)
    · exact fun n hn => targetTwice n (.cons_duplicate hn)

theorem checkKeys_refused {keys : List String}
    (unknown : ∀ n ∈ keys, n ∉ s.names → P (.unknownColumn n)) :
    RefusedFor P (checkKeys s keys) := by
  induction keys with
  | nil => exact .ok ()
  | cons key rest ih =>
    refine (Schema.get_refused (unknown key List.mem_cons_self)).bind fun _ _ => ?_
    exact ih fun n hn => unknown n (List.mem_cons_of_mem _ hn)

theorem checkSelectionReferences_refused {keys : List String} {e : Expr}
    (misused : ∀ n ∈ e.looseReferences, n ∉ keys → n ∈ s.names →
      P (.invalidReference n .neitherKeyNorAggregate))
    (unknown : ∀ n ∈ e.looseReferences, n ∉ s.names → P (.unknownColumn n)) :
    RefusedFor P (checkSelectionReferences s keys e) := by
  refine Expr.walk_refused fun n hn => .ite (fun _ => .ok ()) fun hkey => ?_
  have hkey : n ∉ keys := by simpa using hkey
  refine .ite (fun h => .refuse (misused n hn hkey (Schema.has_iff.mp h))) fun h => ?_
  exact .refuse (unknown n hn fun hs => h (Schema.has_iff.mpr hs))

theorem selectionName_refused {position : Nat} {e : Expr}
    (misnamed : ∀ n, e.heading? = some n → isIdentifier n = false →
      P (.invalidValue n (.notAnIdentifier "Alias"))) :
    RefusedFor P (selectionName position e) := by
  cases e with
  | named name inner => exact requireIdentifier_refused (misnamed name rfl)
  | _ => exact .ok _

theorem selectionColumns_refused {keys : List String} {position : Nat} {es : List Expr}
    (misused : ∀ e ∈ es, ∀ n ∈ e.looseReferences, n ∉ keys → n ∈ s.names →
      P (.invalidReference n .neitherKeyNorAggregate))
    (unknown : ∀ e ∈ es, ∀ n ∈ e.references, n ∉ s.names → P (.unknownColumn n))
    (untyped : ∀ e ∈ es, ∀ subject fault, e.Mistyped s .grouped subject fault →
      P (.typeMismatch subject fault))
    (misnamed : ∀ n ∈ es.filterMap Expr.heading?, isIdentifier n = false →
      P (.invalidValue n (.notAnIdentifier "Alias"))) :
    RefusedFor P (selectionColumns s keys position es) := by
  induction es generalizing position with
  | nil => exact .ok []
  | cons e rest ih =>
    have hmem : e ∈ e :: rest := List.mem_cons_self
    have hreferences : RefusedFor P (checkSelectionReferences s keys e) :=
      checkSelectionReferences_refused (misused e hmem)
        fun n hn => unknown e hmem n (e.looseReferences_references n hn)
    have hname : RefusedFor P (selectionName position e) :=
      selectionName_refused fun n hn => misnamed n (List.mem_filterMap.mpr ⟨e, hmem, hn⟩)
    have hrest := @ih (position + 1) (fun e he => misused e (List.mem_cons_of_mem _ he))
      (fun e he => unknown e (List.mem_cons_of_mem _ he))
      (fun e he => untyped e (List.mem_cons_of_mem _ he)) fun n hn => misnamed n (by
        obtain ⟨e, he, hn⟩ := List.mem_filterMap.mp hn
        exact List.mem_filterMap.mpr ⟨e, List.mem_cons_of_mem _ he, hn⟩)
    refine hreferences.bind fun _ _ => ?_
    refine (Expr.infer_refusedFor (unknown e hmem) (untyped e hmem)).bind fun _ _ => ?_
    exact hname.bind fun _ _ => hrest.bind fun _ _ => .ok _

theorem checkHavingReferences_refused {grouped : Schema} {keys : List String} {e : Expr}
    (lost : ∀ n ∈ e.references, n ∉ grouped.names → n ∈ keys →
      P (.invalidReference n .keyNotSelected))
    (misused : ∀ n ∈ e.references, n ∉ grouped.names → n ∉ keys → n ∈ s.names →
      P (.invalidReference n .notGrouped))
    (unknown : ∀ n ∈ e.references, n ∉ grouped.names → n ∉ s.names → P (.unknownColumn n)) :
    RefusedFor P (checkHavingReferences s grouped keys e) := by
  refine Expr.walk_refused fun n hn => .ite (fun _ => .ok ()) fun hlost => ?_
  have hlost : n ∉ grouped.names := fun h => hlost (Schema.has_iff.mpr h)
  refine .ite (fun hkey => .refuse (lost n hn hlost (by simpa using hkey))) fun hkey => ?_
  have hkey : n ∉ keys := by simpa using hkey
  refine .ite (fun hs => .refuse (misused n hn hlost hkey (Schema.has_iff.mp hs))) fun hs => ?_
  exact .refuse (unknown n hn hlost fun h => hs (Schema.has_iff.mpr h))

theorem checkHaving_refused {grouped : Schema} {keys : List String} {having : Option Expr}
    (lost : ∀ e ∈ having, ∀ n ∈ e.references, n ∉ grouped.names → n ∈ keys →
      P (.invalidReference n .keyNotSelected))
    (misused : ∀ e ∈ having, ∀ n ∈ e.references, n ∉ grouped.names → n ∉ keys → n ∈ s.names →
      P (.invalidReference n .notGrouped))
    (unknown : ∀ e ∈ having, ∀ n ∈ e.references, n ∉ grouped.names → n ∉ s.names →
      P (.unknownColumn n))
    (untyped : ∀ e ∈ having, ∀ given fault,
      e.NoPredicate grouped .grouped "having" "predicate" given fault →
      P (.typeMismatch given fault)) :
    RefusedFor P (checkHaving s grouped keys having) := by
  cases having with
  | none => exact .ok ()
  | some e =>
    have hreferences : RefusedFor P (checkHavingReferences s grouped keys e) :=
      checkHavingReferences_refused (lost e rfl) (misused e rfl) (unknown e rfl)
    refine hreferences.bind fun _ hchecked => ?_
    refine requirePredicate_refused (fun n hn hmissing => ?_) (untyped e rfl)
    -- every column of the condition was found in the grouping
    have hfound : checkResultReference s grouped keys n = .ok () :=
      Expr.mentions_of_walk hchecked n hn
    exact absurd (Schema.has_iff.mp (checkResultReference_eq_ok.mp hfound)) hmissing

theorem checkTerms_refused {terms : List OrderTerm}
    (unknown : ∀ t ∈ terms, ∀ n ∈ t.term.references, n ∉ s.names → P (.unknownColumn n))
    (untyped : ∀ t ∈ terms, ∀ subject fault, t.term.Mistyped s {} subject fault →
      P (.typeMismatch subject fault)) :
    RefusedFor P (checkTerms s terms) := by
  induction terms with
  | nil => exact .ok ()
  | cons t rest ih =>
    have hmem : t ∈ t :: rest := List.mem_cons_self
    refine (Expr.infer_refusedFor (unknown t hmem) (untyped t hmem)).bind fun _ _ => ?_
    exact ih (fun t ht => unknown t (List.mem_cons_of_mem _ ht)) fun t ht =>
      untyped t (List.mem_cons_of_mem _ ht)

theorem requireCount_refused {count : Binary64} {what : String}
    (invalid : (∀ n, count.safeInteger? = some n → n < 0) →
      P (.invalidValue count.text (.notACount what))) : RefusedFor P (requireCount count what) := by
  unfold requireCount
  cases h : count.safeInteger? with
  | none => exact .refuse (invalid fun n hn => by rw [h] at hn; cases hn)
  | some n =>
    refine .ite (fun _ => .ok ()) fun hneg => .refuse (invalid fun m hm => ?_)
    rw [h] at hm
    obtain rfl := Option.some.inj hm
    omega

theorem requireJoinKind_refused {text : String}
    (unknown : ¬ (JoinKind.ofText text).Known → P (.invalidValue text .unknownJoinKind)) :
    RefusedFor P (requireJoinKind text) := by
  unfold requireJoinKind
  split
  · rename_i other hother
    exact .refuse (unknown (by rw [hother]; exact Vocabulary.other_unknown _ other))
  · exact .ok _

theorem checkCollisions_refused {other : Schema}
    (both : ∀ n ∈ s.names, n ∈ other.names → P (.duplicateColumn n)) :
    RefusedFor P (checkCollisions s other) := by
  unfold checkCollisions
  split
  · exact .ok ()
  · rename_i n hn
    exact .refuse (both n (Schema.has_iff.mp (List.find?_some hn)) (List.mem_of_find?_eq_some hn))

end QueryPipeline
