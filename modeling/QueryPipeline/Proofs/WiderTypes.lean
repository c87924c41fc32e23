import Mathlib.Data.List.Forall2
import QueryPipeline.Proofs.Acceptance
import QueryPipeline.Proofs.Nodes

/-!
# Wider types

A type is wider than another one in the orders `integer < long < double` and `date < datetime`.
Whatever is typed stays typed when the types of the columns grow in this way, and its own type
grows with them; only what asks for whole numbers can fail on a double.

* `ColumnType.Widens toDouble` is the relation, with `toDouble` saying whether a type may become
  `double`; each typing rule keeps it (`ColumnType.Widens.widen`, `branchType_widens`,
  `BinaryOp.resultType_widens`, `FunctionName.callType_widens`);
* `Expr.AvoidsIntegral` are the expressions without an operator or call on whole numbers only;
* `Schema.Widens` are schemas of the same names in the same order, each with a wider type;
* **`Expr.infer_widens`** puts the rules together.
-/

namespace QueryPipeline

/-! ## 1. The order of types -/

/-- The second type is the first one or wider, and it is `double` only where the first one is or
    where `toDouble` says that this is allowed. -/
inductive ColumnType.Widens (toDouble : Bool) : ColumnType → ColumnType → Prop
  | refl (t : ColumnType) : Widens toDouble t t
  | integerToLong : Widens toDouble .integer .long
  | integralToDouble {t : ColumnType} (integral : t.isIntegral = true)
      (allowed : toDouble = true) : Widens toDouble t .double
  | dateToDatetime : Widens toDouble .date .datetime

namespace ColumnType

variable {toDouble : Bool} {a b c d : ColumnType}

theorem isNumeric_of_isIntegral (h : a.isIntegral = true) : a.isNumeric = true := by
  cases a with
  | integer => rfl
  | long => rfl
  | _ => cases h

theorem isNumeric_iff : a.isNumeric = true ↔ a.family = .numeric := beq_iff_eq

/-- The ranks of the numeric types tell them apart. -/
theorem rank_injective (ha : a.isNumeric = true) (hb : b.isNumeric = true)
    (h : a.rank = b.rank) : a = b := by
  cases a <;> cases b <;>
    first
    | rfl
    | exact absurd h (by decide)
    | exact absurd ha (by decide)
    | exact absurd hb (by decide)

theorem rank_le_two (a : ColumnType) : a.rank ≤ 2 := by cases a <;> decide

theorem rank_widen (a b : ColumnType) : (a.widen b).rank = max a.rank b.rank := by
  unfold widen
  by_cases h : b.rank ≤ a.rank
  · rw [if_pos h, Nat.max_eq_left h]
  · rw [if_neg h, Nat.max_eq_right (by omega)]

theorem isNumeric_widen (ha : a.isNumeric = true) (hb : b.isNumeric = true) :
    (a.widen b).isNumeric = true := by
  unfold widen
  by_cases h : b.rank ≤ a.rank
  · rw [if_pos h]; exact ha
  · rw [if_neg h]; exact hb

theorem widen_self (a : ColumnType) : a.widen a = a := if_pos (Nat.le_refl _)

namespace Widens

/-- **Wider types are of the same family.** -/
theorem family (h : a.Widens toDouble b) : b.family = a.family := by
  cases h with
  | integralToDouble integral allowed =>
    exact (isNumeric_iff.mp (isNumeric_of_isIntegral integral)).symm
  | _ => rfl

theorem isNumeric (h : a.Widens toDouble b) : b.isNumeric = a.isNumeric := by
  rw [ColumnType.isNumeric, ColumnType.isNumeric, h.family]

theorem equalityComparable (h : a.Widens toDouble b) (h' : c.Widens toDouble d) :
    b.equalityComparable d = a.equalityComparable c := by
  rw [ColumnType.equalityComparable, ColumnType.equalityComparable, h.family, h'.family]

theorem orderComparable (h : a.Widens toDouble b) (h' : c.Widens toDouble d) :
    b.orderComparable d = a.orderComparable c := by
  rw [ColumnType.orderComparable, ColumnType.orderComparable, h.equalityComparable h', h.family]

/-- Nothing but a boolean is wider than a boolean. -/
theorem of_boolean (h : boolean.Widens toDouble b) : b = boolean := by
  cases h with
  | refl => rfl
  | integralToDouble integral allowed => cases integral

theorem of_string (h : string.Widens toDouble b) : b = string := by
  cases h with
  | refl => rfl
  | integralToDouble integral allowed => cases integral

theorem to_boolean (h : a.Widens toDouble boolean) : a = boolean := by
  cases h
  rfl

theorem to_date (h : a.Widens toDouble date) : a = date := by
  cases h
  rfl

theorem of_double (h : a.Widens toDouble b) (ha : a = double) : b = double := by
  subst ha
  cases h <;> rfl

theorem to_double (h : a.Widens toDouble double) : a = double ∨ toDouble = true := by
  cases h with
  | refl => exact Or.inl rfl
  | integralToDouble _ allowed => exact Or.inr allowed

/-- Integers and longs stay integers or longs where nothing becomes a double. -/
theorem isIntegral (h : a.Widens toDouble b) (narrow : toDouble = false)
    (integral : a.isIntegral = true) : b.isIntegral = true := by
  cases h with
  | refl => exact integral
  | integerToLong => rfl
  | integralToDouble _ allowed => rw [narrow] at allowed; cases allowed
  | dateToDatetime => cases integral

/-- **Among numeric types, to widen is to grow in rank.** -/
theorem iff_rank (ha : a.isNumeric = true) (hb : b.isNumeric = true) :
    a.Widens toDouble b ↔
      a.rank ≤ b.rank ∧ (b.rank = 2 → a.rank = 2 ∨ toDouble = true) := by
  constructor
  · intro h
    cases h with
    | refl => exact ⟨Nat.le_refl _, Or.inl⟩
    | integerToLong => exact ⟨by decide, fun h => by cases h⟩
    | integralToDouble integral allowed => exact ⟨a.rank_le_two, fun _ => Or.inr allowed⟩
    | dateToDatetime => cases ha
  · intro h
    obtain ⟨hrank, hdouble⟩ := h
    by_cases hsame : a.rank = b.rank
    · rw [rank_injective ha hb hsame]
      exact .refl _
    · -- the rank has grown: to that of a long, or to that of a double
      cases b with
      | integer => exact absurd hrank (by cases a <;> simp_all [rank])
      | long =>
        cases a with
        | integer => exact .integerToLong
        | long => exact absurd rfl hsame
        | double => exact absurd hrank (by decide)
        | _ => cases ha
      | double =>
        have allowed : toDouble = true := (hdouble rfl).resolve_left hsame
        cases a with
        | integer => exact .integralToDouble rfl allowed
        | long => exact .integralToDouble rfl allowed
        | double => exact .refl _
        | _ => cases ha
      | _ => cases hb

/-- **The wider of two types widens with them.** -/
theorem widen (h : a.Widens toDouble b) (h' : c.Widens toDouble d) (ha : a.isNumeric = true)
    (hc : c.isNumeric = true) : (a.widen c).Widens toDouble (b.widen d) := by
  have hb : b.isNumeric = true := h.isNumeric.trans ha
  have hd : d.isNumeric = true := h'.isNumeric.trans hc
  obtain ⟨hrank, hdouble⟩ := (iff_rank ha hb).mp h
  obtain ⟨hrank', hdouble'⟩ := (iff_rank hc hd).mp h'
  refine (iff_rank (isNumeric_widen ha hc) (isNumeric_widen hb hd)).mpr ?_
  rw [rank_widen, rank_widen]
  have hle := a.rank_le_two
  have hle' := c.rank_le_two
  refine ⟨by omega, fun htwo => ?_⟩
  by_cases hb2 : b.rank = 2
  · rcases hdouble hb2 with ha2 | allowed
    · exact Or.inl (by omega)
    · exact Or.inr allowed
  · rcases hdouble' (by omega) with hc2 | allowed
    · exact Or.inl (by omega)
    · exact Or.inr allowed

end Widens
end ColumnType

/-! ## 2. Rules of the operators -/

variable {toDouble : Bool} {left right left' right' yes no yes' no' type : ColumnType}

/-- A rule for whole numbers only is spared where types may become `double`, so they may not. -/
theorem narrow_of_spared {needsIntegral : Bool}
    (spared : toDouble = true → needsIntegral = false) (h : needsIntegral = true) :
    toDouble = false := by
  cases toDouble with
  | false => rfl
  | true => exact absurd h (by simp [spared rfl])

/-- What an operator asks of the types of its operands, and the type that it gives. -/
def BinaryOp.Gives (op : BinaryOp) (rightOperand : Expr) (left right type : ColumnType) : Prop :=
  match op with
  | .logical _ => left = .boolean ∧ right = .boolean ∧ type = .boolean
  | .comparison .like =>
    left = .string ∧ rightOperand.isStringLiteral = true ∧ type = .boolean
  | .comparison .equal | .comparison .notEqual =>
    left.equalityComparable right = true ∧ type = .boolean
  | .comparison _ => left.orderComparable right = true ∧ type = .boolean
  | .arithmetic .power => left.isNumeric = true ∧ right.isNumeric = true ∧ type = .double
  | .arithmetic .remainder | .bitwise _ =>
    left.isIntegral = true ∧ right.isIntegral = true ∧ type = left.widen right
  | .arithmetic _ =>
    left.isNumeric = true ∧ right.isNumeric = true ∧ type = left.widen right
  | .other _ => False

theorem BinaryOp.resultType_eq_ok {op : BinaryOp} {operand : Expr} :
    op.resultType operand left right = .ok type ↔ op.Gives operand left right type := by
  cases op with
  | logical op =>
    simp only [resultType, Gives, Outcome.check_bind_eq_ok, requireBoolean_eq_ok, Outcome.pure_eq,
      ok_eq_ok_comm]
  | comparison op => cases op <;> simp [resultType, Gives, mistyped, @eq_comm _ type]
  | arithmetic op =>
    cases op with
    | remainder =>
      have := @ColumnType.isNumeric_of_isIntegral left
      have := @ColumnType.isNumeric_of_isIntegral right
      simp only [resultType, Gives, mistyped, ite_refuse_eq_ok, ok_eq_ok_comm]
      grind
    | _ => simp [resultType, Gives, mistyped, @eq_comm _ type, and_assoc]
  | bitwise op => simp [resultType, Gives, mistyped, @eq_comm _ type, and_assoc]
  | other text => simp [resultType, Gives, mistyped]

/-- Operators on whole numbers only. -/
def BinaryOp.needsIntegral : BinaryOp → Bool
  | .arithmetic .remainder | .bitwise _ => true
  | _ => false

/-- **A rule for two operands accepts wider ones**, an operator on whole numbers if none of them
    has become a double, and what it gives is wider. -/
theorem BinaryOp.resultType_widens {op : BinaryOp} {operand : Expr}
    (hleft : left.Widens toDouble left') (hright : right.Widens toDouble right')
    (spared : toDouble = true → op.needsIntegral = false)
    (h : op.resultType operand left right = .ok type) :
    ∃ type', op.resultType operand left' right' = .ok type' ∧ type.Widens toDouble type' := by
  -- whole numbers stay whole numbers, since the operator is spared where they might not
  have integral (hop : op.needsIntegral = true) (h : left.isIntegral = true)
      (h' : right.isIntegral = true) : left'.isIntegral = true ∧ right'.isIntegral = true :=
    have narrow := narrow_of_spared spared hop
    ⟨hleft.isIntegral narrow h, hright.isIntegral narrow h'⟩
  have wide (h : left.isNumeric = true) (h' : right.isNumeric = true) :
      (left'.isNumeric = true ∧ right'.isNumeric = true) ∧
        (left.widen right).Widens toDouble (left'.widen right') :=
    ⟨⟨hleft.isNumeric.trans h, hright.isNumeric.trans h'⟩, hleft.widen hright h h'⟩
  simp only [resultType_eq_ok] at h ⊢
  cases op with
  | logical op =>
    obtain ⟨rfl, rfl, rfl⟩ := h
    exact ⟨.boolean, ⟨hleft.of_boolean, hright.of_boolean, rfl⟩, .refl _⟩
  | comparison op =>
    cases op with
    | like =>
      obtain ⟨rfl, hliteral, rfl⟩ := h
      exact ⟨.boolean, ⟨hleft.of_string, hliteral, rfl⟩, .refl _⟩
    | equal =>
      obtain ⟨hcomparable, rfl⟩ := h
      exact ⟨.boolean, ⟨(hleft.equalityComparable hright).trans hcomparable, rfl⟩, .refl _⟩
    | notEqual =>
      obtain ⟨hcomparable, rfl⟩ := h
      exact ⟨.boolean, ⟨(hleft.equalityComparable hright).trans hcomparable, rfl⟩, .refl _⟩
    | _ =>
      obtain ⟨hcomparable, rfl⟩ := h
      exact ⟨.boolean, ⟨(hleft.orderComparable hright).trans hcomparable, rfl⟩, .refl _⟩
  | arithmetic op =>
    cases op with
    | power =>
      obtain ⟨hl, hr, rfl⟩ := h
      obtain ⟨⟨hl', hr'⟩, _⟩ := wide hl hr
      exact ⟨.double, ⟨hl', hr', rfl⟩, .refl _⟩
    | remainder =>
      obtain ⟨hl, hr, rfl⟩ := h
      obtain ⟨hl', hr'⟩ := integral rfl hl hr
      exact ⟨_, ⟨hl', hr', rfl⟩, hleft.widen hright (ColumnType.isNumeric_of_isIntegral hl)
        (ColumnType.isNumeric_of_isIntegral hr)⟩
    | _ =>
      obtain ⟨hl, hr, rfl⟩ := h
      obtain ⟨⟨hl', hr'⟩, hwiden⟩ := wide hl hr
      exact ⟨_, ⟨hl', hr', rfl⟩, hwiden⟩
  | bitwise op =>
    obtain ⟨hl, hr, rfl⟩ := h
    obtain ⟨hl', hr'⟩ := integral rfl hl hr
    exact ⟨_, ⟨hl', hr', rfl⟩, hleft.widen hright (ColumnType.isNumeric_of_isIntegral hl)
      (ColumnType.isNumeric_of_isIntegral hr)⟩
  | other text => exact absurd h id

/-- A membership test in a list gives a boolean iff each member can be compared. -/
theorem membershipType_eq_ok {op : BinaryOp} {items : List Literal} :
    membershipType op left items = .ok type ↔
      (∀ item ∈ items, left.equalityComparable item.type = true) ∧ type = .boolean := by
  induction items with
  | nil => simp [membershipType, @eq_comm _ type]
  | cons item rest ih =>
    simp only [membershipType, mistyped, ite_else_refuse_eq_ok, ih, List.forall_mem_cons, and_assoc]

/-- A membership test accepts a wider value. -/
theorem BinaryOp.membershipIn_widens {op : BinaryOp} {e : Expr}
    (hleft : left.Widens toDouble left') (h : op.membershipIn left e = .ok type) :
    op.membershipIn left' e = .ok type := by
  obtain ⟨items, rfl⟩ := BinaryOp.membershipIn_list h
  cases items with
  | nil => exact h
  | cons item rest =>
    simp only [membershipIn, membershipType_eq_ok] at h ⊢
    obtain ⟨hitems, htype⟩ := h
    exact ⟨fun i hi => (hleft.equalityComparable (.refl _)).trans (hitems i hi), htype⟩

/-- The branches of a conditional have a common type iff both are numeric, both temporal, or both
    of one other type. -/
theorem branchType_eq_ok :
    branchType yes no = .ok type ↔
      (yes.isNumeric = true ∧ no.isNumeric = true ∧ type = yes.widen no) ∨
        (yes.family = .temporal ∧ no.family = .temporal ∧
          type = if yes = no then yes else .datetime) ∨
        ((yes = .boolean ∨ yes = .string) ∧ yes = no ∧ type = yes) := by
  unfold branchType
  by_cases hsame : yes = no
  · subst hsame
    rw [if_pos rfl, ok_eq_ok_comm, ColumnType.widen_self, if_pos rfl]
    cases yes <;> simp [ColumnType.isNumeric, ColumnType.family]
  · rw [if_neg hsame]
    simp only [mistyped, Bool.and_eq_true, hsame, if_false, false_and, and_false, or_false]
    by_cases hnumeric : yes.isNumeric = true ∧ no.isNumeric = true
    · rw [if_pos hnumeric, ok_eq_ok_comm]
      have htemporal : yes.family ≠ .temporal := by
        rw [ColumnType.isNumeric_iff.mp hnumeric.1]
        decide
      simp [hnumeric, htemporal]
    · rw [if_neg hnumeric, ite_else_refuse_eq_ok, ok_eq_ok_comm]
      have hneither : ¬ (yes.isNumeric = true ∧ no.isNumeric = true ∧ type = yes.widen no) :=
        fun h => hnumeric ⟨h.1, h.2.1⟩
      simp only [hneither, false_or, and_assoc]

/-- The common type of temporal branches widens with them. -/
theorem ColumnType.Widens.temporal (hyes : yes.Widens toDouble yes') (hno : no.Widens toDouble no')
    (hy : yes.family = .temporal) :
    (if yes = no then yes else .datetime).Widens toDouble
      (if yes' = no' then yes' else .datetime) := by
  have widest (t : ColumnType) (ht : t.family = .temporal) : t.Widens toDouble .datetime := by
    cases t with
    | date => exact .dateToDatetime
    | datetime => exact .refl _
    | _ => cases ht
  by_cases hsame' : yes' = no'
  · rw [if_pos hsame']
    by_cases hsame : yes = no
    · rw [if_pos hsame]
      exact hyes
    · -- nothing but a date is narrower than a date, and the two types differ
      rw [if_neg hsame]
      subst hsame'
      have hy' : yes'.family = .temporal := hyes.family.trans hy
      cases yes' with
      | date => exact absurd (hyes.to_date.trans hno.to_date.symm) hsame
      | datetime => exact .refl _
      | _ => cases hy'
  · rw [if_neg hsame']
    by_cases hsame : yes = no
    · rw [if_pos hsame]
      exact widest yes hy
    · rw [if_neg hsame]
      exact .refl _

/-- **The common type of two branches widens with them.** -/
theorem branchType_widens (hyes : yes.Widens toDouble yes') (hno : no.Widens toDouble no')
    (h : branchType yes no = .ok type) :
    ∃ type', branchType yes' no' = .ok type' ∧ type.Widens toDouble type' := by
  simp only [branchType_eq_ok] at h ⊢
  rcases h with ⟨hy, hn, rfl⟩ | ⟨hy, hn, rfl⟩ | ⟨hrigid, rfl, rfl⟩
  · exact ⟨_, Or.inl ⟨hyes.isNumeric.trans hy, hno.isNumeric.trans hn, rfl⟩,
      hyes.widen hno hy hn⟩
  · exact ⟨_, Or.inr (Or.inl ⟨hyes.family.trans hy, hno.family.trans hn, rfl⟩),
      hyes.temporal hno hy⟩
  · have rigid {t : ColumnType} (ht : type.Widens toDouble t) : t = type := by
      rcases hrigid with rfl | rfl
      · exact ht.of_boolean
      · exact ht.of_string
    rw [rigid hyes, rigid hno]
    exact ⟨type, Or.inr (Or.inr ⟨hrigid, rfl, rfl⟩), .refl _⟩

/-! ## 3. Rules of the calls -/

namespace FunctionName

/-- Functions of whole numbers only. -/
def needsIntegral : FunctionName → Bool
  | modulo => true
  | _ => false

variable {f : FunctionName} {args args' : List ColumnType}

/-- The sum of wider numbers is wider. -/
theorem sum_widens (harg : left.Widens toDouble left') :
    (if left = .double then ColumnType.double else .long).Widens toDouble
      (if left' = .double then .double else .long) := by
  by_cases hwide : left' = .double
  · subst hwide
    rw [if_pos rfl]
    rcases harg.to_double with rfl | allowed
    · exact .refl _
    · by_cases hdouble : left = .double
      · rw [if_pos hdouble]
        exact .refl _
      · rw [if_neg hdouble]
        exact .integralToDouble rfl allowed
  · have hdouble : left ≠ .double := fun h => hwide (harg.of_double h)
    rw [if_neg hwide, if_neg hdouble]
    exact .refl _

/-- What an aggregate asks of the type of its argument, and the type that it gives. -/
theorem aggregateType_eq_ok :
    f.aggregateType left = .ok type ↔
      match f with
      | sum => left.isNumeric = true ∧ type = if left = .double then .double else .long
      | avg => left.isNumeric = true ∧ type = .double
      | min | max => left ≠ .boolean ∧ type = left
      | _ => type = .long := by
  cases f with
  | sum => by_cases h : left.isNumeric = true <;> simp [aggregateType, h, @eq_comm _ type]
  | avg => by_cases h : left.isNumeric = true <;> simp [aggregateType, h, @eq_comm _ type]
  | min => by_cases h : left = .boolean <;> simp [aggregateType, h, @eq_comm _ type]
  | max => by_cases h : left = .boolean <;> simp [aggregateType, h, @eq_comm _ type]
  | _ => simp [aggregateType, @eq_comm _ type]

/-- **An aggregate accepts a wider argument**, and what it gives is wider. -/
theorem aggregateType_widens (harg : left.Widens toDouble left')
    (h : f.aggregateType left = .ok type) :
    ∃ type', f.aggregateType left' = .ok type' ∧ type.Widens toDouble type' := by
  have kept (hleft : left ≠ .boolean) : left' ≠ .boolean := by
    intro hboolean
    rw [hboolean] at harg
    exact hleft harg.to_boolean
  simp only [aggregateType_eq_ok] at h ⊢
  cases f with
  | sum =>
    obtain ⟨hnumeric, rfl⟩ := h
    exact ⟨_, ⟨harg.isNumeric.trans hnumeric, rfl⟩, sum_widens harg⟩
  | avg =>
    obtain ⟨hnumeric, rfl⟩ := h
    exact ⟨_, ⟨harg.isNumeric.trans hnumeric, rfl⟩, .refl _⟩
  | min =>
    obtain ⟨hleft, rfl⟩ := h
    exact ⟨left', ⟨kept hleft, rfl⟩, harg⟩
  | max =>
    obtain ⟨hleft, rfl⟩ := h
    exact ⟨left', ⟨kept hleft, rfl⟩, harg⟩
  | _ => exact ⟨.long, rfl, h ▸ .refl _⟩

/-- What a function of two arguments asks of their types, and the type that it gives. -/
theorem scalarType_eq_ok :
    f.scalarType left right = .ok type ↔
      match f with
      | modulo => left.isIntegral = true ∧ right.isIntegral = true ∧ type = left.widen right
      | _ => left.isNumeric = true ∧ right.isNumeric = true ∧ type = .double := by
  cases f with
  | modulo =>
    by_cases hl : left.isIntegral = true <;> by_cases hr : right.isIntegral = true <;>
      simp [scalarType, hl, hr, @eq_comm _ type]
  | _ =>
    by_cases hl : left.isNumeric = true <;> by_cases hr : right.isNumeric = true <;>
      simp [scalarType, hl, hr, @eq_comm _ type]

/-- **A function of two arguments accepts wider ones**, one of whole numbers if none of them has
    become a double, and what it gives is wider. -/
theorem scalarType_widens (hleft : left.Widens toDouble left')
    (hright : right.Widens toDouble right') (spared : toDouble = true → f.needsIntegral = false)
    (h : f.scalarType left right = .ok type) :
    ∃ type', f.scalarType left' right' = .ok type' ∧ type.Widens toDouble type' := by
  simp only [scalarType_eq_ok] at h ⊢
  cases f with
  | modulo =>
    obtain ⟨hl, hr, rfl⟩ := h
    have narrow : toDouble = false := narrow_of_spared spared rfl
    exact ⟨_, ⟨hleft.isIntegral narrow hl, hright.isIntegral narrow hr, rfl⟩,
      hleft.widen hright (ColumnType.isNumeric_of_isIntegral hl)
        (ColumnType.isNumeric_of_isIntegral hr)⟩
  | _ =>
    obtain ⟨hl, hr, rfl⟩ := h
    exact ⟨.double, ⟨hleft.isNumeric.trans hl, hright.isNumeric.trans hr, rfl⟩, .refl _⟩

/-- A call has a type iff its rule gives one for its first argument, or for its first two. -/
theorem callType_eq_ok :
    f.callType args = .ok type ↔
      (f.arity? = some 1 ∧ ∃ arg rest, args = arg :: rest ∧ f.aggregateType arg = .ok type) ∨
        (f.arity? = some 2 ∧ ∃ left right rest, args = left :: right :: rest ∧
          f.scalarType left right = .ok type) := by
  have hcall : f.callType args = .ok type ↔ f.resultType args = .ok type := by
    unfold callType
    cases f.resultType args <;> simp [mistyped]
  rw [hcall]
  cases f with
  | other text => simp [resultType, arity?]
  | modulo => rcases args with _ | ⟨left, _ | ⟨right, rest⟩⟩ <;> simp [resultType, arity?]
  | power => rcases args with _ | ⟨left, _ | ⟨right, rest⟩⟩ <;> simp [resultType, arity?]
  | _ => cases args <;> simp [resultType, arity?]

/-- **A call accepts wider arguments**, a function of whole numbers if none of them has become a
    double, and what it gives is wider. -/
theorem callType_widens (hargs : List.Forall₂ (ColumnType.Widens toDouble) args args')
    (spared : toDouble = true → f.needsIntegral = false) (h : f.callType args = .ok type) :
    ∃ type', f.callType args' = .ok type' ∧ type.Widens toDouble type' := by
  rcases callType_eq_ok.mp h with ⟨hone, arg, rest, rfl, hrule⟩ |
      ⟨htwo, left, right, rest, rfl, hrule⟩
  · obtain ⟨arg', rest', harg, _, rfl⟩ := List.forall₂_cons_left_iff.mp hargs
    obtain ⟨type', htype', hwider⟩ := aggregateType_widens harg hrule
    exact ⟨type', callType_eq_ok.mpr (Or.inl ⟨hone, arg', rest', rfl, htype'⟩), hwider⟩
  · obtain ⟨left', more', hleft, hmore, rfl⟩ := List.forall₂_cons_left_iff.mp hargs
    obtain ⟨right', rest', hright, _, rfl⟩ := List.forall₂_cons_left_iff.mp hmore
    obtain ⟨type', htype', hwider⟩ := scalarType_widens hleft hright spared hrule
    exact ⟨type', callType_eq_ok.mpr (Or.inr ⟨htwo, left', right', rest', rfl, htype'⟩), hwider⟩

end FunctionName

/-! ## 4. Expressions -/

namespace Expr

/-- Nodes that take whole numbers only: remainders and the operators on bits. -/
def needsIntegral : Expr → Bool
  | binary op _ _ => op.needsIntegral
  | call function _ => function.needsIntegral
  | _ => false

/-- No node of the expression takes whole numbers only. -/
def AvoidsIntegral (e : Expr) : Prop := ∀ n ∈ e.nodes, n.needsIntegral = false

instance (e : Expr) : Decidable e.AvoidsIntegral :=
  inferInstanceAs (Decidable (∀ n ∈ e.nodes, n.needsIntegral = false))

/-- An expression avoids whole numbers iff its node and the expressions below it do. -/
theorem avoidsIntegral_iff {e : Expr} :
    e.AvoidsIntegral ↔ e.needsIntegral = false ∧ ∀ c ∈ e.children, c.AvoidsIntegral :=
  forall_nodes

/-- An expression without whole numbers, if types may become `double`. -/
def Spared (toDouble : Bool) (e : Expr) : Prop := toDouble = true → e.AvoidsIntegral

theorem Spared.self {e : Expr} (h : e.Spared toDouble) :
    toDouble = true → e.needsIntegral = false :=
  fun allowed => (avoidsIntegral_iff.mp (h allowed)).1

theorem Spared.child {e c : Expr} (h : e.Spared toDouble) (hc : c ∈ e.children) :
    c.Spared toDouble :=
  fun allowed => (avoidsIntegral_iff.mp (h allowed)).2 c hc

end Expr

/-! ## 5. Schemas -/

/-- The second column has the name of the first one and its type or a wider one. -/
structure Column.Widens (toDouble : Bool) (c c' : Column) : Prop where
  name : c'.name = c.name
  type : c.type.Widens toDouble c'.type

/-- The second schema has the columns of the first one, in order, with wider types. -/
def Schema.Widens (toDouble : Bool) (s s' : Schema) : Prop :=
  List.Forall₂ (Column.Widens toDouble) s.columns s'.columns

variable {s s' : Schema}

theorem columnNames_widens {cs cs' : List Column}
    (h : List.Forall₂ (Column.Widens toDouble) cs cs') : columnNames cs' = columnNames cs := by
  induction h with
  | nil => rfl
  | cons head _ ih => rw [columnNames, List.map_cons, head.name, ← columnNames, ih]; rfl

theorem Schema.Widens.names (h : s.Widens toDouble s') : s'.names = s.names := columnNames_widens h

/-- **A column that is looked up is found in the wider schema**, with a wider type. -/
theorem Schema.Widens.get (h : s.Widens toDouble s') {name : String} {c : Column}
    (hc : s.get name = .ok c) : ∃ c', s'.get name = .ok c' ∧ c.Widens toDouble c' := by
  simp only [Schema.get_eq_ok, Schema.find?] at hc ⊢
  have found {cs cs' : List Column} (h : List.Forall₂ (Column.Widens toDouble) cs cs')
      (hc : cs.find? (fun c => c.name == name) = some c) :
      ∃ c', cs'.find? (fun c => c.name == name) = some c' ∧ c.Widens toDouble c' := by
    induction h with
    | nil => cases hc
    | @cons first first' rest rest' head _ ih =>
      by_cases hname : first.name = name
      · rw [List.find?_cons_of_pos (by simpa using hname)] at hc
        obtain rfl := Option.some.inj hc
        exact ⟨first', List.find?_cons_of_pos (by simpa [head.name] using hname), head⟩
      · rw [List.find?_cons_of_neg (by simpa using hname)] at hc
        rw [List.find?_cons_of_neg (by simpa [head.name] using hname)]
        exact ih hc
  exact found h hc

/-! ## 6. Expressions on wider schemas -/

namespace Expr

/-- Where an expression has a type on the first schema, it has a wider one on the second. -/
def Grows (toDouble : Bool) (s s' : Schema) (e : Expr) : Prop :=
  ∀ ⦃mode : Mode⦄ ⦃type : ColumnType⦄, e.infer s mode = .ok type →
    ∃ type', e.infer s' mode = .ok type' ∧ type.Widens toDouble type'

/-- The types of a list grow once those of its members do. -/
theorem inferAll_widens {mode : Mode} {es : List Expr} {types : List ColumnType}
    (h : ∀ e ∈ es, e.Grows toDouble s s') (htypes : inferAll s mode es = .ok types) :
    ∃ types', inferAll s' mode es = .ok types' ∧
      List.Forall₂ (ColumnType.Widens toDouble) types types' := by
  induction es generalizing types with
  | nil =>
    cases htypes
    exact ⟨[], rfl, .nil⟩
  | cons e rest ih =>
    obtain ⟨he, hrest⟩ := List.forall_mem_cons.mp h
    obtain ⟨type, htype, htypes⟩ := Outcome.bind_eq_ok.mp htypes
    obtain ⟨more, hmore, htypes⟩ := Outcome.bind_eq_ok.mp htypes
    obtain rfl := Except.ok.inj htypes
    obtain ⟨type', htype', hwider⟩ := he htype
    obtain ⟨more', hmore', hwiders⟩ := ih hrest hmore
    refine ⟨type' :: more', ?_, .cons hwider hwiders⟩
    rw [inferAll, htype', Outcome.ok_bind, hmore']
    rfl

theorem grows_column (hs : s.Widens toDouble s') (name : String) :
    (column name).Grows toDouble s s' := by
  intro mode type h
  obtain ⟨c, hc, h⟩ := Outcome.bind_eq_ok.mp h
  obtain rfl := Except.ok.inj h
  obtain ⟨c', hc', hwider⟩ := hs.get hc
  exact ⟨c'.type, by rw [infer, hc']; rfl, hwider.type⟩

theorem grows_unary {operand : Expr} (op : UnaryOp) (ih : operand.Grows toDouble s s') :
    (unary op operand).Grows toDouble s s' := by
  intro mode type h
  obtain ⟨inner, hinner, h⟩ := Outcome.bind_eq_ok.mp h
  obtain ⟨inner', hinner', hwider⟩ := ih hinner
  refine ⟨type, ?_, .refl _⟩
  rw [infer, hinner', Outcome.ok_bind]
  by_cases hop : op = .not
  · rw [if_pos hop] at h ⊢
    obtain ⟨hboolean, h⟩ := Outcome.check_bind_eq_ok.mp h
    rw [requireBoolean_eq_ok] at hboolean
    subst hboolean
    rw [hwider.of_boolean]
    exact h
  · rw [if_neg hop] at h ⊢
    exact h

theorem grows_binary {op : BinaryOp} {left right : Expr}
    (spared : toDouble = true → op.needsIntegral = false) (ihl : left.Grows toDouble s s')
    (ihr : right.Grows toDouble s s') : (binary op left right).Grows toDouble s s' := by
  intro mode type h
  rw [infer] at h ⊢
  by_cases hmember : op.isMembership = true
  · rw [if_pos hmember] at h ⊢
    obtain ⟨leftType, hleft, h⟩ := Outcome.bind_eq_ok.mp h
    obtain ⟨leftType', hleft', hl⟩ := ihl hleft
    refine ⟨type, ?_, .refl _⟩
    rw [hleft', Outcome.ok_bind]
    exact BinaryOp.membershipIn_widens hl h
  · rw [if_neg hmember] at h ⊢
    obtain ⟨leftType, hleft, h⟩ := Outcome.bind_eq_ok.mp h
    obtain ⟨rightType, hright, h⟩ := Outcome.bind_eq_ok.mp h
    obtain ⟨leftType', hleft', hl⟩ := ihl hleft
    obtain ⟨rightType', hright', hr⟩ := ihr hright
    rw [hleft', Outcome.ok_bind, hright', Outcome.ok_bind]
    exact BinaryOp.resultType_widens hl hr spared h

theorem grows_call {function : FunctionName} {args : List Expr}
    (spared : toDouble = true → function.needsIntegral = false)
    (ih : ∀ e ∈ args, e.Grows toDouble s s') : (call function args).Grows toDouble s s' := by
  intro mode type h
  obtain ⟨_, hcheck, h⟩ := Outcome.bind_eq_ok.mp h
  obtain ⟨types, htypes, h⟩ := Outcome.bind_eq_ok.mp h
  obtain ⟨types', htypes', hwiders⟩ := inferAll_widens ih htypes
  rw [infer, hcheck, Outcome.ok_bind, htypes', Outcome.ok_bind]
  exact FunctionName.callType_widens hwiders spared h

theorem grows_conditional {test yes no : Expr} (iht : test.Grows toDouble s s')
    (ihy : yes.Grows toDouble s s') (ihn : no.Grows toDouble s s') :
    (conditional test yes no).Grows toDouble s s' := by
  intro mode type h
  obtain ⟨testType, htest, h⟩ := Outcome.bind_eq_ok.mp h
  obtain ⟨hboolean, h⟩ := Outcome.check_bind_eq_ok.mp h
  obtain ⟨yesType, hyes, h⟩ := Outcome.bind_eq_ok.mp h
  obtain ⟨noType, hno, hbranch⟩ := Outcome.bind_eq_ok.mp h
  obtain ⟨testType', htest', ht⟩ := iht htest
  obtain ⟨yesType', hyes', hy⟩ := ihy hyes
  obtain ⟨noType', hno', hn⟩ := ihn hno
  rw [requireBoolean_eq_ok] at hboolean
  subst hboolean
  rw [infer, htest', ht.of_boolean, Outcome.ok_bind, hyes', hno']
  exact branchType_widens hy hn hbranch

/-- **What is typed stays typed on a wider schema**, with a wider type: always if nothing becomes a
    double, and otherwise for an expression without whole numbers. -/
theorem infer_widens (hs : s.Widens toDouble s') {e : Expr} (spared : e.Spared toDouble) :
    e.Grows toDouble s s' := by
  induction e with
  | literal value => exact fun _ type h => ⟨type, h, .refl _⟩
  | column name => exact grows_column hs name
  | unary op operand ih => exact grows_unary op (ih (spared.child (by simp [children])))
  | binary op left right ihl ihr =>
    have hleft := ihl (spared.child (by simp [children]))
    have hright := ihr (spared.child (by simp [children]))
    exact grows_binary spared.self hleft hright
  | call function args ih =>
    exact grows_call spared.self fun e he => ih e he (spared.child he)
  | named name inner ih =>
    have hinner := ih (spared.child (by simp [children]))
    exact fun _ _ h => hinner h
  | conditional test yes no iht ihy ihn =>
    have htest := iht (spared.child (by simp [children]))
    have hyes := ihy (spared.child (by simp [children]))
    have hno := ihn (spared.child (by simp [children]))
    exact grows_conditional htest hyes hno
  | valueList items =>
    intro _ _ h
    cases h
  | ordering direction term ih =>
    intro _ _ h
    cases h
  | grouping keys selections having =>
    intro _ _ h
    cases h
  | joining condition ih =>
    intro _ _ h
    cases h
  | foreign kind source =>
    intro _ _ h
    cases h

end Expr
end QueryPipeline
