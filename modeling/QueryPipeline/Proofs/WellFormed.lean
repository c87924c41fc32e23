import QueryPipeline.Proofs.Literals
import QueryPipeline.Proofs.Readings
import QueryPipeline.Proofs.Stored

/-!
# Well-formed nodes

What is promised of the nodes in a request, and what of it reaches the dialect. The checks see to
the operators, the calls and the names of columns; nothing but the promise sees to the operators
on one operand, the directions, the literals and the names of nodes further down.

* `Expr.WellFormed` are the nodes over made literals whose own parts have rules;
* **`Expr.WellFormed.regular`**: well-formed nodes that were checked against a schema of
  identifiers are written faithfully, and so are the clauses that hold them (`resolve_regular`).
-/

namespace QueryPipeline

/-! ## 1. Literals -/

namespace Literal

variable {v : Literal}

/-- A literal whose number, or whose date, is one word. -/
def Worded : Literal → Prop
  | integer value => IsWord value.text
  | date value => IsWord value
  | _ => True

/-- A safe integer is written with its own digits. -/
theorem isWord_text {value : Binary64} {n : Int} (h : value.safeInteger? = some n) :
    IsWord value.text := by
  obtain ⟨hint, hsafe⟩ := Binary64.safeInteger?_eq_some_iff.mp h
  rw [Binary64.text_of_toInt? hint hsafe]
  exact isWord_intText n

theorem worded_of_ofInteger {value : Binary64} (h : ofInteger value = .ok v) : v.Worded := by
  obtain ⟨n, hint, hrange, rfl⟩ := ofInteger_eq_ok.mp h
  have hsafe := isSafeInteger_of_isInt32 hrange
  exact isWord_text (Binary64.safeInteger?_eq_some_iff.mpr ⟨hint, hsafe⟩)

theorem worded_of_ofSafeInteger {value : Binary64} (h : ofSafeInteger value = .ok v) :
    v.Worded := by
  obtain ⟨n, _, _, rfl⟩ := ofSafeInteger_eq_ok.mp h
  trivial

theorem worded_of_ofDouble {value : Binary64} (h : ofDouble value = .ok v) : v.Worded := by
  obtain ⟨_, rfl⟩ := ofDouble_eq_ok.mp h
  trivial

theorem worded_of_ofNumber {value : Binary64} (h : ofNumber value = .ok v) : v.Worded := by
  unfold ofNumber at h
  split at h
  · split at h
    · exact worded_of_ofInteger h
    · split at h
      · exact worded_of_ofSafeInteger h
      · exact worded_of_ofDouble h
  · exact worded_of_ofDouble h

/-- A date that was read is kept as it was written. -/
theorem worded_of_ofDateText {value : String} (h : ofDateText value = .ok v) : v.Worded := by
  obtain ⟨d, hread, _, rfl⟩ := ofDateText_eq_ok.mp h
  exact isWord_of_read? hread

/-- **A made literal is worded.** -/
theorem Made.worded (made : v.Made) : v.Worded := by
  cases made with
  | plain value h =>
    cases value with
    | number value => exact worded_of_ofNumber h
    | wholeNumber n =>
      obtain ⟨_, rfl⟩ := ofLong_eq_ok.mp h
      trivial
    | text value =>
      cases h
      trivial
    | truth value =>
      cases h
      trivial
    | instant value =>
      obtain ⟨t, _, _, rfl⟩ := ofInstant_eq_ok.mp h
      exact isWord_dateText t.date
  | integer value h => exact worded_of_ofInteger h
  | safeInteger value h => exact worded_of_ofSafeInteger h
  | double value h => exact worded_of_ofDouble h
  | dateText value h => exact worded_of_ofDateText h

/-- No word has a percent sign in it, so the marks of a worded date are its own. -/
theorem Worded.regular (h : v.Worded) : v.Regular := by
  cases v with
  | integer value => exact h
  | date value => exact fun hmem => absurd (h.chars '%' hmem) (by decide)
  | _ => trivial

/-- **A made literal is written faithfully.** -/
theorem Made.regular (made : v.Made) : v.Regular := made.worded.regular

end Literal

/-! ## 2. Well-formed nodes -/

/-- A node of a known kind over made literals, with operators on one operand and directions that
    have rules, and identifiers as names. -/
inductive Expr.WellFormed : Expr → Prop
  | literal {value : Literal} (h : value.Made) : WellFormed (.literal value)
  | column {name : String} : WellFormed (.column name)
  | unary {op : UnaryOp} {operand : Expr} (h : op.Known) (hoperand : WellFormed operand) :
      WellFormed (.unary op operand)
  | binary {op : BinaryOp} {left right : Expr} (hleft : WellFormed left)
      (hright : WellFormed right) : WellFormed (.binary op left right)
  | valueList {items : List Literal} (h : ∀ v ∈ items, v.Made) : WellFormed (.valueList items)
  | call {function : FunctionName} {args : List Expr} (hargs : ∀ e ∈ args, WellFormed e) :
      WellFormed (.call function args)
  | named {name : String} {inner : Expr} (h : isIdentifier name = true)
      (hinner : WellFormed inner) : WellFormed (.named name inner)
  | conditional {test yes no : Expr} (htest : WellFormed test) (hyes : WellFormed yes)
      (hno : WellFormed no) : WellFormed (.conditional test yes no)
  | ordering {direction : Direction} {term : Expr} (h : direction.Known)
      (hterm : WellFormed term) : WellFormed (.ordering direction term)
  | grouping {keys selections : List Expr} {having : Option Expr}
      (hkeys : ∀ e ∈ keys, WellFormed e) (hselections : ∀ e ∈ selections, WellFormed e)
      (hhaving : ∀ e ∈ having, WellFormed e) : WellFormed (.grouping keys selections having)
  | joining {condition : Expr} (hcondition : WellFormed condition) :
      WellFormed (.joining condition)

variable {s : Schema}

/-- **A well-formed node that is checked is written faithfully.** -/
theorem Expr.WellFormed.regular (hs : s.Identified) {e : Expr} (wf : e.WellFormed)
    (h : e.Checked s) : e.Regular := by
  induction h with
  | literal =>
    cases wf with
    | literal made => exact .literal made.regular
  | column hc => exact .column (hs _ (Schema.has_iff.mp (Schema.has_iff_get.mpr hc)))
  | unary _ ih =>
    cases wf with
    | unary hop hoperand => exact .unary hop (ih hoperand)
  | @membership op left items hop _ ih =>
    cases wf with
    | binary hleft hright =>
      cases hright with
      | valueList made =>
        have hlist : (Expr.valueList items).Regular := .valueList fun v hv => (made v hv).regular
        exact .binary hop (ih hleft) hlist
  | binary hop _ _ ihl ihr =>
    cases wf with
    | binary hleft hright => exact .binary hop (ihl hleft) (ihr hright)
  | call hknown hcount _ ih =>
    cases wf with
    | call hargs => exact .call hknown hcount fun e he => ih e he (hargs e he)
  | named _ ih =>
    cases wf with
    | named hid hinner => exact .named hid (ih hinner)
  | conditional _ _ _ iht ihy ihn =>
    cases wf with
    | conditional htest hyes hno => exact .conditional (iht htest) (ihy hyes) (ihn hno)

theorem Expr.TypedIn.regular {e : Expr} (typed : e.TypedIn Schema.Identified)
    (wf : e.WellFormed) : e.Regular := by
  obtain ⟨s, hs, h⟩ := typed.checked
  exact wf.regular hs h

/-! ## 3. Regular clauses -/

/-- A place whose two names are identifiers. -/
def TableName.Identified (n : TableName) : Prop :=
  isIdentifier n.database = true ∧ isIdentifier n.table = true

/-- The parts of a clause that are no expressions are written faithfully. -/
def Clause.PlainParts : Clause → Prop
  | limit count | offset count => ∃ n, count.safeInteger? = some n
  | join other kind _ => other.Identified ∧ kind.Known
  | distinct _ | foreign _ _ => False
  | _ => True

/-- A clause that is written faithfully. -/
structure Clause.Regular (c : Clause) : Prop where
  exprs : ∀ e ∈ c.exprs, e.Regular
  parts : c.PlainParts

/-- The expressions of a typed clause are written faithfully if they are well-formed. -/
theorem Clause.TypedIn.exprs_regular {c : Clause} (typed : c.TypedIn Schema.Identified)
    (wf : ∀ e ∈ c.exprs, e.WellFormed) : ∀ e ∈ c.exprs, e.Regular := by
  intro e he
  cases c with
  | select columns => exact (typed e he).2.regular (wf e he)
  | extend columns => exact (typed e he).regular (wf e he)
  | rename columns => exact (typed e he).2.regular (wf e he)
  | distinct columns => exact (typed e he).2.regular (wf e he)
  | filter predicate =>
    obtain rfl := List.mem_singleton.mp he
    exact typed.regular (wf e he)
  | groupBy keys selections having =>
    obtain ⟨hkeys, hselections, hhaving⟩ := typed
    rcases List.mem_append.mp he with he' | he'
    · rcases List.mem_append.mp he' with he' | he'
      · exact (hkeys e he').2.regular (wf e he)
      · exact (hselections e he').regular (wf e he)
    · exact (hhaving e (Option.mem_toList.mp he')).regular (wf e he)
  | orderBy terms =>
    obtain ⟨t, ht, rfl⟩ := List.mem_map.mp he
    cases wf _ he with
    | ordering hdirection hterm => exact .ordering hdirection ((typed t ht).regular hterm)
  | limit count => exact absurd he List.not_mem_nil
  | offset count => exact absurd he List.not_mem_nil
  | join other kind condition =>
    obtain rfl := List.mem_singleton.mp he
    exact typed.regular (wf e he)
  | foreign kind source => exact absurd he List.not_mem_nil

theorem requireCount_safe {count : Binary64} {what : String}
    (h : requireCount count what = .ok ()) : ∃ n, count.safeInteger? = some n := by
  unfold requireCount at h
  cases hcount : count.safeInteger? with
  | none =>
    rw [hcount] at h
    exact absurd h (by simp)
  | some n => exact ⟨n, rfl⟩

/-- What a request resolves to has parts that are written faithfully, unless it keeps distinct
    rows. -/
theorem resolve_plainParts {r : Resolved} {request : ClauseRequest}
    (joined : ∀ other, request.joined? = some other → other.WellNamed)
    (h : s.resolve request = .ok r) (hdistinct : r.clause.kind? ≠ some .distinct) :
    r.clause.PlainParts := by
  cases request with
  | select columns =>
    obtain ⟨_, _, _, _, _, rfl⟩ := resolveSelect_eq_ok.mp h
    trivial
  | extend columns =>
    obtain ⟨_, _, _, _, _, rfl⟩ := resolveExtend_eq_ok.mp h
    trivial
  | rename input =>
    obtain ⟨_, _, _, _, _, rfl⟩ := resolveRename_eq_ok.mp h
    trivial
  | filter predicate =>
    obtain ⟨_, rfl⟩ := resolveFilter_eq_ok.mp h
    trivial
  | groupBy g =>
    obtain ⟨_, _, _, _, _, _, _, _, rfl⟩ := resolveGroupBy_eq_ok.mp h
    trivial
  | orderBy inputs =>
    obtain ⟨_, _, rfl⟩ := resolveOrderBy_eq_ok.mp h
    trivial
  | limit count =>
    obtain ⟨hcount, rfl⟩ := resolveLimit_eq_ok.mp h
    exact requireCount_safe hcount
  | offset count =>
    obtain ⟨hcount, rfl⟩ := resolveOffset_eq_ok.mp h
    exact requireCount_safe hcount
  | distinct columns =>
    obtain ⟨_, _, _, _, rfl⟩ := resolveDistinct_eq_ok.mp h
    exact absurd rfl hdistinct
  | join other kind condition =>
    obtain ⟨_, _, _, hkind, _, _, _, _, rfl⟩ := resolveJoin_eq_ok.mp h
    have named := joined other rfl
    exact ⟨⟨named.database, named.table⟩, (requireJoinKind_eq_ok.mp hkind).2⟩

/-- **What a request resolves to is written faithfully** if its nodes are well-formed and it does
    not keep distinct rows. -/
theorem resolve_regular (hs : s.Identified) {r : Resolved} {request : ClauseRequest}
    (joined : ∀ other, request.joined? = some other → other.WellNamed)
    (h : s.resolve request = .ok r) (wf : ∀ e ∈ r.clause.exprs, e.WellFormed)
    (hdistinct : r.clause.kind? ≠ some .distinct) : r.clause.Regular := by
  have after := resolve_identifiers hs joined h
  have typed : r.clause.TypedIn Schema.Identified := (resolve_typed h).typedIn hs after
  exact ⟨typed.exprs_regular wf, resolve_plainParts joined h hdistinct⟩

/-- **The clauses of a run are written faithfully.** -/
theorem Accepts.regular {p q : Pipeline} {given : List ClauseRequest} (h : Accepts p given q)
    (fresh : p.history = []) (origin : p.origin.Identified)
    (joined : ∀ request ∈ given, ∀ other, request.joined? = some other → other.WellNamed)
    (wf : ∀ c ∈ q.clauses, ∀ e ∈ c.exprs, e.WellFormed)
    (hdistinct : ∀ c ∈ q.clauses, c.kind? ≠ some .distinct) : ∀ c ∈ q.clauses, c.Regular := by
  have step : ∀ s, Schema.Identified s → ∀ request ∈ given, ∀ r, s.resolve request = .ok r →
      r.schema.Identified ∧ ((∀ e ∈ r.clause.exprs, e.WellFormed) →
        r.clause.kind? ≠ some .distinct → r.clause.Regular) := by
    intro s hs request hrequest r hr
    refine ⟨resolve_identifiers hs (joined request hrequest) hr, fun hwf hd => ?_⟩
    exact resolve_regular hs (joined request hrequest) hr hwf hd
  have hclauses := (h.invariant (Q := fun c => (∀ e ∈ c.exprs, e.WellFormed) →
    c.kind? ≠ some .distinct → c.Regular) fresh origin step).2
  exact fun c hc => hclauses c hc (wf c hc) (hdistinct c hc)

end QueryPipeline
