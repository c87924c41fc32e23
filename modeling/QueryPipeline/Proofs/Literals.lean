import QueryPipeline.Expr.Literal
import QueryPipeline.Proofs.Calendar
import QueryPipeline.Proofs.Outcome

/-!
# Made literals

When a constructor gives a literal, and which one: one lemma for each constructor. The literals
that are made in one of these ways, or by lifting a plain value, are `Literal.Made`.
-/

namespace QueryPipeline

/-- A literal that a constructor gave, or the lifting of a plain value. -/
inductive Literal.Made (v : Literal) : Prop
  | plain (value : PlainValue) (h : Literal.ofPlain value = .ok v)
  | integer (value : Binary64) (h : Literal.ofInteger value = .ok v)
  | safeInteger (value : Binary64) (h : Literal.ofSafeInteger value = .ok v)
  | double (value : Binary64) (h : Literal.ofDouble value = .ok v)
  | dateText (value : String) (h : Literal.ofDateText value = .ok v)

namespace Literal

variable {v : Literal}

theorem ofInteger_eq_ok {value : Binary64} :
    ofInteger value = .ok v ↔
      ∃ n, value.toInt? = some n ∧ isInt32 n = true ∧ v = integer value := by
  unfold ofInteger
  cases value.toInt? with
  | none => simp
  | some n => by_cases h : isInt32 n = true <;> simp [h, @eq_comm _ v]

theorem ofLong_eq_ok {n : Int} : ofLong n = .ok v ↔ isInt64 n = true ∧ v = long n := by
  unfold ofLong
  by_cases h : isInt64 n = true <;> simp [h, @eq_comm _ v]

theorem isSafeInteger_of_isInt32 {n : Int} (h : isInt32 n = true) : isSafeInteger n = true := by
  simp only [isInt32, Bool.and_eq_true, decide_eq_true_eq] at h
  simp only [isSafeInteger, Bool.and_eq_true, decide_eq_true_eq]
  omega

theorem isInt64_of_isSafeInteger {n : Int} (h : isSafeInteger n = true) : isInt64 n = true := by
  simp only [isSafeInteger, Bool.and_eq_true, decide_eq_true_eq] at h
  simp only [isInt64, Bool.and_eq_true, decide_eq_true_eq]
  omega

/-- A safe integer fits into 64 bits, so that it is never refused for its size. -/
theorem ofSafeInteger_eq_ok {value : Binary64} :
    ofSafeInteger value = .ok v ↔
      ∃ n, value.toInt? = some n ∧ isSafeInteger n = true ∧ v = long n := by
  unfold ofSafeInteger
  cases value.toInt? with
  | none => simp
  | some n =>
    by_cases h : isSafeInteger n = true
    · simp [h, ofLong_eq_ok, isInt64_of_isSafeInteger h]
    · simp [h]

theorem ofDouble_eq_ok {value : Binary64} :
    ofDouble value = .ok v ↔ value.isFinite = true ∧ v = double value := by
  unfold ofDouble
  by_cases h : value.isFinite = true <;> simp [h, @eq_comm _ v]

theorem ofDateText_eq_ok {value : String} :
    ofDateText value = .ok v ↔
      ∃ d, Date.read? value = some d ∧ d.isValid = true ∧ v = date value := by
  unfold ofDateText
  cases Date.read? value with
  | none => simp
  | some d =>
    simp only [Date.countedOn_eq_iff]
    by_cases h : d.isValid = true <;> simp [h, @eq_comm _ v]

theorem ofInstant_eq_ok {value : Option Instant} :
    ofInstant value = .ok v ↔
      ∃ t, value = some t ∧ (0 ≤ t.date.year ∧ t.date.year ≤ 9999) ∧ v = date t.date.text := by
  unfold ofInstant
  cases value with
  | none => simp
  | some t => by_cases h : 0 ≤ t.date.year ∧ t.date.year ≤ 9999 <;> simp [h, @eq_comm _ v]

end Literal
end QueryPipeline
