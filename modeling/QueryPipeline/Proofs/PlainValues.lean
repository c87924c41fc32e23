import QueryPipeline.Dialect.Arrow
import QueryPipeline.Proofs.DateLiterals

/-!
# Lifting plain values

A plain value becomes the narrowest literal that holds it. The tests that choose the type of a
number are those of the constructors that they lead to, so that these never refuse it.

* `Binary64.toInt?_eq_some_iff`: a double is taken for a whole number iff it denotes it;
* `PlainValue.Unfit` are the values that no literal holds, and `PlainValue.Lifts` relates every
  other one to the literal that holds it (`PlainValue.exists_lifts_iff`);
* `Literal.ofPlain_eq_ok_iff`: that literal is the one that is made;
* `PlainValue.Lifts.whole` and `PlainValue.Lifts.plain`: whole numbers are written in bare digits
  and doubles with a fraction, and both denote what the text of the value denotes;
* **`plain_values_lifted`** puts them together.
-/

namespace QueryPipeline

/-! ## 1. Whole numbers -/

namespace Binary64

variable {v : Binary64} {m n : Nat} {q z : Int}

/-- A magnitude is taken for the whole number that it is. -/
theorem wholeMagnitude?_eq_some_iff :
    wholeMagnitude? m q = some n ↔ (m : ℚ) * 2 ^ q = n := by
  cases q with
  | ofNat e =>
    have hpow : (m : ℚ) * 2 ^ (Int.ofNat e) = (m * 2 ^ e : Nat) := by
      push_cast
      rfl
    rw [hpow, Nat.cast_inj]
    exact Option.some_inj
  | negSucc e =>
    have hunit : (2 : ℚ) ^ (e + 1) ≠ 0 := pow_ne_zero _ two_ne_zero
    have hpow : (m : ℚ) * 2 ^ (Int.negSucc e) = n ↔ m = n * 2 ^ (e + 1) := by
      rw [zpow_negSucc, mul_inv_eq_iff_eq_mul₀ hunit]
      exact_mod_cast Iff.rfl
    rw [hpow, wholeMagnitude?]
    constructor
    · intro h
      split at h
      · rename_i hmod
        rw [← Option.some.inj h]
        exact (Nat.div_mul_cancel (Nat.dvd_of_mod_eq_zero hmod)).symm
      · cases h
    · rintro rfl
      rw [Nat.pow_eq, if_pos (Nat.mul_mod_left _ _), Nat.mul_div_cancel _ (Nat.two_pow_pos _)]

/-- The sign of a whole number is that of its double. -/
theorem toInt?_of_wholeMagnitude? {negative : Bool} (h : v.shape = .finite negative m q)
    (hn : wholeMagnitude? m q = some n) : v.toInt? = some (if negative then -(n : Int) else n) := by
  simp only [toInt?, h, hn]
  rfl

/-- **A double is taken for a whole number iff it denotes it.** -/
theorem toInt?_eq_some_iff : v.toInt? = some z ↔ v.value? = some (z : ℚ) := by
  cases hshape : v.shape with
  | nan => simp [toInt?, value?, hshape]
  | infinite negative => simp [toInt?, value?, hshape]
  | finite negative m q =>
    have hnonneg : (0 : ℚ) ≤ m * 2 ^ q :=
      mul_nonneg (Nat.cast_nonneg m) (zpow_nonneg zero_le_two q)
    simp only [value?, hshape, Option.some.injEq]
    constructor
    · intro h
      obtain ⟨n, hn, rfl⟩ := wholeMagnitude?_of_toInt? hshape h
      rw [wholeMagnitude?_eq_some_iff.mp hn]
      cases negative <;> simp
    · intro h
      have hn : wholeMagnitude? m q = some z.natAbs := by
        rw [wholeMagnitude?_eq_some_iff, Nat.cast_natAbs, Int.cast_abs, ← h]
        cases negative <;> simp [abs_of_nonneg hnonneg]
      rw [toInt?_of_wholeMagnitude? hshape hn, Option.some.injEq]
      have hsign : if negative then (z : ℚ) ≤ 0 else (0 : ℚ) ≤ z := by
        rw [← h]
        cases negative <;> simp [hnonneg]
      cases negative with
      | false =>
        have hz : 0 ≤ z := by exact_mod_cast hsign
        simp only [Bool.false_eq_true, if_false]
        omega
      | true =>
        have hz : z ≤ 0 := by exact_mod_cast hsign
        simp only [if_true]
        omega

theorem isFinite_iff : v.isFinite = true ↔ ∃ x, v.value? = some x := by
  unfold isFinite value?
  cases v.shape <;> simp

end Binary64

/-- Digits, perhaps behind a minus sign. -/
def IsWholeDecimal (s : String) : Prop :=
  ∃ sign digits, s.toList = sign ++ digits ∧ (sign = [] ∨ sign = ['-']) ∧ digits ≠ [] ∧
    ∀ c ∈ digits, c.isDigit = true

theorem isWholeDecimal_intText (n : Int) : IsWholeDecimal (intText n) := by
  have hne (n : Nat) : digitChars (digits n) ≠ [] :=
    fun h => digits_ne_nil n (List.map_eq_nil_iff.mp h)
  cases n with
  | ofNat n => exact ⟨[], _, String.toList_ofList, Or.inl rfl, hne n, isDigit_digitChars _⟩
  | negSucc n =>
    refine ⟨['-'], _, ?_, Or.inr rfl, hne (n + 1), isDigit_digitChars _⟩
    simp [intText, natText]

/-- **The text of a whole number denotes it.** -/
theorem decimalValue?_intText (n : Int) : decimalValue? (intText n) = some (n : ℚ) := by
  have htext (n : Nat) : natText n = String.ofList (Binary64.wholeNumeral n).text := by
    rw [natText, Numeral.text_eq]
    exact congrArg String.ofList (List.append_nil _).symm
  cases n with
  | ofNat n =>
    rw [intText, htext, decimalValue?_text (digits_ne_nil n), Binary64.wholeNumeral_value]
    rfl
  | negSucc n =>
    rw [intText, htext, decimalValue?_neg_text (digits_ne_nil (n + 1)), Binary64.wholeNumeral_value,
      Int.cast_negSucc]

/-! ## 2. The literal of a value -/

/-- The number that a plain value is. -/
def PlainValue.value? : PlainValue → Option ℚ
  | number v => v.value?
  | wholeNumber n => some n
  | _ => none

/-- The text of a plain value that is a number. -/
def PlainValue.numberText? : PlainValue → Option String
  | number v => some v.text
  | wholeNumber n => some (intText n)
  | _ => none

/-- The number that a literal holds. -/
def Literal.value? : Literal → Option ℚ
  | integer v => v.value?
  | long n => some n
  | double v => v.value?
  | _ => none

/-- A value that no literal holds: what is not a number or an infinity, a whole number of more than
    64 bits, and what is no instant or lies on a day outside of the years 0 to 9999. -/
def PlainValue.Unfit : PlainValue → Prop
  | number v => v.shape = .nan ∨ ∃ negative, v.shape = .infinite negative
  | wholeNumber n => n < -2 ^ 63 ∨ 2 ^ 63 - 1 < n
  | text _ | truth _ => False
  | instant none => True
  | instant (some t) => ∃ d, t.LiesOn d ∧ (d.year < 0 ∨ 9999 < d.year)

/-- The literal that holds a value: of the numbers, the whole ones of 32 bits are integers, the
    other ones up to `2 ^ 53 - 1` longs and all that are left doubles. -/
inductive PlainValue.Lifts : PlainValue → Literal → Prop
  | integer {v : Binary64} {n : Int} (value : v.value? = some (n : ℚ))
      (range : -2 ^ 31 ≤ n ∧ n ≤ 2 ^ 31 - 1) : Lifts (number v) (.integer v)
  | long {v : Binary64} {n : Int} (value : v.value? = some (n : ℚ)) (range : |n| ≤ 2 ^ 53 - 1)
      (other : ¬ (-2 ^ 31 ≤ n ∧ n ≤ 2 ^ 31 - 1)) : Lifts (number v) (.long n)
  | double {v : Binary64} {x : ℚ} (value : v.value? = some x)
      (other : ¬ ∃ n : Int, x = n ∧ |n| ≤ 2 ^ 53 - 1) : Lifts (number v) (.double v)
  | wholeNumber {n : Int} (range : -2 ^ 63 ≤ n ∧ n ≤ 2 ^ 63 - 1) : Lifts (wholeNumber n) (.long n)
  | text {s : String} : Lifts (text s) (.string s)
  | truth {b : Bool} : Lifts (truth b) (.boolean b)
  | instant {t : Instant} {d : Date} (day : t.LiesOn d) (years : 0 ≤ d.year ∧ d.year ≤ 9999) :
      Lifts (instant (some t)) (.date d.text)

section Ranges

variable {n : Int}

theorem isInt32_iff : isInt32 n = true ↔ -2 ^ 31 ≤ n ∧ n ≤ 2 ^ 31 - 1 := by
  simp [isInt32]

theorem isInt64_iff : isInt64 n = true ↔ -2 ^ 63 ≤ n ∧ n ≤ 2 ^ 63 - 1 := by
  simp [isInt64]

theorem isSafeInteger_iff : isSafeInteger n = true ↔ |n| ≤ 2 ^ 53 - 1 := by
  simp [isSafeInteger, abs_le]

end Ranges

namespace Literal

variable {v : Literal}

/-- The type of a number is chosen by the tests that its constructor makes. -/
theorem ofNumber_eq_ok {value : Binary64} :
    ofNumber value = .ok v ↔
      (∃ n, value.toInt? = some n ∧ isInt32 n = true ∧ v = integer value) ∨
      (∃ n, value.toInt? = some n ∧ isSafeInteger n = true ∧ isInt32 n = false ∧ v = long n) ∨
      value.isFinite = true ∧ (∀ n, value.toInt? = some n → isSafeInteger n = false) ∧
        v = double value := by
  unfold ofNumber
  cases hint : value.toInt? with
  | none => simp [ofDouble_eq_ok]
  | some n =>
    cases h32 : isInt32 n with
    | true =>
      have hsafe := isSafeInteger_of_isInt32 h32
      simp [h32, hsafe, hint, ofInteger_eq_ok]
    | false =>
      cases hsafe : isSafeInteger n with
      | true => simp [h32, hsafe, hint, ofSafeInteger_eq_ok]
      | false => simp [h32, hsafe, ofDouble_eq_ok]

/-- **The literal that is made of a number is the one that holds it.** -/
theorem ofNumber_eq_ok_iff {value : Binary64} :
    ofNumber value = .ok v ↔ (PlainValue.number value).Lifts v := by
  simp only [ofNumber_eq_ok, Binary64.toInt?_eq_some_iff, Binary64.isFinite_iff, isInt32_iff,
    isSafeInteger_iff, Bool.eq_false_iff, ne_eq]
  constructor
  · rintro (⟨n, hn, hrange, rfl⟩ | ⟨n, hn, hsafe, hrange, rfl⟩ | ⟨⟨x, hx⟩, hother, rfl⟩)
    · exact .integer hn hrange
    · exact .long hn hsafe hrange
    · refine .double hx ?_
      rintro ⟨n, rfl, hsafe⟩
      exact hother n hx hsafe
  · intro h
    cases h with
    | integer hn hrange => exact Or.inl ⟨_, hn, hrange, rfl⟩
    | long hn hsafe hrange => exact Or.inr (Or.inl ⟨_, hn, hsafe, hrange, rfl⟩)
    | double hx hother =>
      refine Or.inr (Or.inr ⟨⟨_, hx⟩, fun n hn hsafe => ?_, rfl⟩)
      exact hother ⟨n, Option.some.inj (hx.symm.trans hn), hsafe⟩

/-- **The literal that is made of a value is the one that holds it.** -/
theorem ofPlain_eq_ok_iff {p : PlainValue} : ofPlain p = .ok v ↔ p.Lifts v := by
  cases p with
  | number value => exact ofNumber_eq_ok_iff
  | wholeNumber n =>
    refine Iff.trans ofLong_eq_ok ⟨?_, ?_⟩
    · rintro ⟨hrange, rfl⟩
      exact .wholeNumber (isInt64_iff.mp hrange)
    · rintro ⟨⟩
      exact ⟨isInt64_iff.mpr ‹_›, rfl⟩
  | text s =>
    refine ⟨?_, ?_⟩
    · rintro ⟨⟩
      exact .text
    · rintro ⟨⟩
      rfl
  | truth b =>
    refine ⟨?_, ?_⟩
    · rintro ⟨⟩
      exact .truth
    · rintro ⟨⟩
      rfl
  | instant moment =>
    refine Iff.trans ofInstant_iff ⟨?_, ?_⟩
    · rintro ⟨t, d, rfl, hday, hyears, rfl⟩
      exact .instant hday hyears
    · rintro ⟨⟩
      exact ⟨_, _, rfl, ‹_›, ‹_›, rfl⟩

theorem ofNumber_checksValues (value : Binary64) : ChecksValues (ofNumber value) := by
  unfold ofNumber
  cases hint : value.toInt? with
  | none => exact .ite (.ok _) (.refuse _ _)
  | some n =>
    refine .ite ?_ (.ite ?_ (.ite (.ok _) (.refuse _ _)))
    · rw [ofInteger, hint]
      exact .ite (.ok _) (.refuse _ _)
    · rw [ofSafeInteger, hint]
      exact .ite (.ite (.ok _) (.refuse _ _)) (.refuse _ _)

/-- A value of which no literal is made is refused as a value. -/
theorem ofPlain_checksValues (p : PlainValue) : ChecksValues (ofPlain p) := by
  cases p with
  | number value => exact ofNumber_checksValues value
  | wholeNumber n => exact .ite (.ok _) (.refuse _ _)
  | text s => exact .ok _
  | truth b => exact .ok _
  | instant moment =>
    cases moment with
    | none => exact .refuse _ _
    | some t => exact .ite (.ok _) (.refuse _ _)

end Literal

namespace PlainValue

variable {p : PlainValue} {v : Literal}

theorem unfit_number_iff (value : Binary64) :
    Unfit (number value) ↔ ¬ ∃ x, value.value? = some x := by
  rw [← Binary64.isFinite_iff]
  unfold Unfit Binary64.isFinite
  cases hshape : value.shape <;> simp [hshape]

/-- Every finite number has a literal, by the ranges that it lies in. -/
theorem exists_lifts_number (value : Binary64) :
    (∃ v, (number value).Lifts v) ↔ ∃ x, value.value? = some x := by
  refine ⟨fun h => ?_, fun h => ?_⟩
  · obtain ⟨_, h⟩ := h
    cases h with
    | integer hn _ => exact ⟨_, hn⟩
    | long hn _ _ => exact ⟨_, hn⟩
    | double hx _ => exact ⟨_, hx⟩
  · obtain ⟨x, hx⟩ := h
    by_cases hwhole : ∃ n : Int, x = n ∧ |n| ≤ 2 ^ 53 - 1
    · obtain ⟨n, rfl, hsafe⟩ := hwhole
      by_cases hrange : -2 ^ 31 ≤ n ∧ n ≤ 2 ^ 31 - 1
      · exact ⟨_, .integer hx hrange⟩
      · exact ⟨_, .long hx hsafe hrange⟩
    · exact ⟨_, .double hx hwhole⟩

theorem unfit_wholeNumber_iff (n : Int) :
    Unfit (wholeNumber n) ↔ ¬ (-2 ^ 63 ≤ n ∧ n ≤ 2 ^ 63 - 1) := by
  unfold Unfit
  omega

theorem exists_lifts_wholeNumber (n : Int) :
    (∃ v, (wholeNumber n).Lifts v) ↔ -2 ^ 63 ≤ n ∧ n ≤ 2 ^ 63 - 1 := by
  refine ⟨fun h => ?_, fun h => ⟨_, .wholeNumber h⟩⟩
  obtain ⟨_, h⟩ := h
  cases h with
  | wholeNumber range => exact range

theorem unfit_instant_iff (t : Instant) :
    Unfit (instant (some t)) ↔ ¬ (0 ≤ t.date.year ∧ t.date.year ≤ 9999) := by
  simp only [Unfit, Instant.liesOn_iff, exists_eq_left]
  omega

theorem exists_lifts_instant (t : Instant) :
    (∃ v, (instant (some t)).Lifts v) ↔ 0 ≤ t.date.year ∧ t.date.year ≤ 9999 := by
  refine ⟨fun h => ?_, fun h => ⟨_, .instant (Instant.liesOn_iff.mpr rfl) h⟩⟩
  obtain ⟨_, h⟩ := h
  cases h with
  | instant day years => exact Instant.liesOn_iff.mp day ▸ years

/-- **Every value has a literal that holds it unless it is unfit.** -/
theorem exists_lifts_iff : (∃ v, p.Lifts v) ↔ ¬ p.Unfit := by
  cases p with
  | number value => rw [exists_lifts_number, unfit_number_iff, not_not]
  | wholeNumber n => rw [exists_lifts_wholeNumber, unfit_wholeNumber_iff, not_not]
  | text s => exact iff_of_true ⟨_, .text⟩ id
  | truth b => exact iff_of_true ⟨_, .truth⟩ id
  | instant moment =>
    cases moment with
    | none => exact iff_of_false (fun h => by cases h.choose_spec) (not_not.mpr trivial)
    | some t => rw [exists_lifts_instant, unfit_instant_iff, not_not]

/-! ## 3. The text of a literal -/

variable {shown : String}

/-- The literal holds the number that the value is. -/
theorem Lifts.value?_eq (h : p.Lifts v) : v.value? = p.value? := by
  cases h with
  | long hn _ _ => exact hn.symm
  | _ => rfl

/-- **An integer or a long is written as a whole number**, and so is the value that it holds. -/
theorem Lifts.whole (h : p.Lifts v) (htype : v.type = .integer ∨ v.type = .long) :
    ∃ n : Int, p.value? = some (n : ℚ) ∧ v.written = intText n ∧
      p.numberText? = some (intText n) := by
  have safe {value : Binary64} {n : Int} (hn : value.value? = some (n : ℚ))
      (hsafe : isSafeInteger n = true) : value.text = intText n :=
    Binary64.text_of_toInt? (Binary64.toInt?_eq_some_iff.mpr hn) hsafe
  cases h with
  | integer hn hrange =>
    have htext := safe hn (Literal.isSafeInteger_of_isInt32 (isInt32_iff.mpr hrange))
    exact ⟨_, hn, htext, congrArg some htext⟩
  | long hn hsafe _ => exact ⟨_, hn, rfl, congrArg some (safe hn (isSafeInteger_iff.mpr hsafe))⟩
  | wholeNumber _ => exact ⟨_, rfl, rfl, rfl⟩
  | _ => simp [Literal.type] at htype

/-- **A double is written as a plain decimal** which denotes the number of the text of the value. -/
theorem Lifts.plain (h : p.Lifts v) (htype : v.type = .double) :
    IsPlainDecimal v.written ∧
      ∃ shown y, p.numberText? = some shown ∧ decimalValue? v.written = some y ∧
        decimalValue? shown = some y := by
  cases h with
  | double hx _ =>
    obtain ⟨negative, m, q, hshape⟩ :=
      Binary64.shape_of_isFinite (Binary64.isFinite_iff.mpr ⟨_, hx⟩)
    obtain ⟨y, hshown, hplain⟩ := Binary64.plainText_denotes hshape
    refine ⟨?_, _, y, rfl, hplain, hshown⟩
    rw [Literal.written, Binary64.plainText_of_shape hshape]
    exact (Binary64.magnitudeNumeral_canonical _ m q).isPlainDecimal (Binary64.signText_cases _)
  | _ => simp [Literal.type] at htype

/-- The literals of numbers are integers, longs and doubles. -/
theorem Lifts.type_cases (h : p.Lifts v) (hshown : p.numberText? = some shown) :
    (v.type = .integer ∨ v.type = .long) ∨ v.type = .double := by
  cases h with
  | integer _ _ => exact Or.inl (Or.inl rfl)
  | long _ _ _ => exact Or.inl (Or.inr rfl)
  | double _ _ => exact Or.inr rfl
  | wholeNumber _ => exact Or.inl (Or.inr rfl)
  | _ => cases hshown

/-- **The text of a literal and that of the value denote the same number.** -/
theorem Lifts.written_denotes (h : p.Lifts v) (hshown : p.numberText? = some shown) :
    ∃ y, decimalValue? v.written = some y ∧ decimalValue? shown = some y := by
  rcases h.type_cases hshown with hwhole | hdouble
  · obtain ⟨n, _, hwritten, htext⟩ := h.whole hwhole
    obtain rfl := Option.some.inj (hshown.symm.trans htext)
    rw [hwritten]
    exact ⟨n, decimalValue?_intText n, decimalValue?_intText n⟩
  · obtain ⟨_, _, y, htext, hwritten, hdenoted⟩ := h.plain hdouble
    obtain rfl := Option.some.inj (hshown.symm.trans htext)
    exact ⟨y, hwritten, hdenoted⟩

end PlainValue

/-! ## 4. Lifted values -/

theorem Arrow.inlineText_literal (d : Arrow) (v : Literal) :
    d.inlineText (.literal v) = .ok v.written := rfl

/-- **Lifting a plain value keeps it.** A value is refused iff no literal holds it, and is refused
    as a value. Every other one gives the literal that holds it, which is the same number. The text
    of a literal of a number, read as a decimal, denotes what the text of the value denotes; it is
    a whole number in bare digits, and exactly the value, for an integer or a long, and has a
    fraction for a double. -/
theorem plain_values_lifted (p : PlainValue) :
    ((∃ subject fault, Literal.ofPlain p = refuse (.invalidValue subject fault)) ↔ p.Unfit) ∧
    (¬ p.Unfit → ∃ v, Literal.ofPlain p = .ok v) ∧
    ∀ v, (Literal.ofPlain p = .ok v ↔ p.Lifts v) ∧
      (Literal.ofPlain p = .ok v → v.value? = p.value? ∧
        ∀ d : Arrow, ∃ text, d.inlineText (.literal v) = .ok text ∧
          (∀ shown, p.numberText? = some shown →
            ∃ y, decimalValue? text = some y ∧ decimalValue? shown = some y) ∧
          (v.type = .integer ∨ v.type = .long →
            IsWholeDecimal text ∧ decimalValue? text = p.value?) ∧
          (v.type = .double → IsPlainDecimal text)) := by
  have accepted : (∃ v, Literal.ofPlain p = .ok v) ↔ ¬ p.Unfit := by
    simp only [Literal.ofPlain_eq_ok_iff, PlainValue.exists_lifts_iff]
  refine ⟨?_, accepted.mpr, fun v => ⟨Literal.ofPlain_eq_ok_iff, fun h => ?_⟩⟩
  · rw [(Literal.ofPlain_checksValues p).refused_iff, accepted, not_not]
  · have hlifts := Literal.ofPlain_eq_ok_iff.mp h
    refine ⟨hlifts.value?_eq, fun d => ⟨v.written, d.inlineText_literal v,
      fun shown => hlifts.written_denotes, fun htype => ?_,
      fun htype => (hlifts.plain htype).1⟩⟩
    obtain ⟨n, hvalue, hwritten, _⟩ := hlifts.whole htype
    rw [hwritten, hvalue]
    exact ⟨isWholeDecimal_intText n, decimalValue?_intText n⟩

/-- Literals at the boundaries: the negative zero, the first number beyond 32 bits, the first one
    beyond the safe integers, which is written with a fraction, and the whole numbers at the lower
    end of 64 bits and below it. -/
theorem plain_values_lifted_boundaries :
    (Literal.ofPlain (.number ⟨0x8000000000000000⟩) = .ok (.integer ⟨0x8000000000000000⟩) ∧
      IsWholeDecimal "0" ∧ decimalValue? "0" = Binary64.value? ⟨0x8000000000000000⟩) ∧
    (Literal.ofPlain (.number ⟨0x41E0000000000000⟩) = .ok (.long 2147483648) ∧
      (Literal.long 2147483648).value? = Binary64.value? ⟨0x41E0000000000000⟩) ∧
    (Literal.ofPlain (.number ⟨0x4340000000000000⟩) = .ok (.double ⟨0x4340000000000000⟩) ∧
      IsPlainDecimal "9007199254740992.0" ∧
      ∃ y, decimalValue? "9007199254740992.0" = some y ∧
        decimalValue? "9007199254740992" = some y) ∧
    Literal.ofPlain (.wholeNumber (-9223372036854775808)) = .ok (.long (-9223372036854775808)) ∧
    ∃ subject fault, Literal.ofPlain (.wholeNumber (-9223372036854775809)) =
      refuse (.invalidValue subject fault) := by
  have hzero : Literal.ofPlain (.number ⟨0x8000000000000000⟩) =
      .ok (.integer ⟨0x8000000000000000⟩) := by
    decide +kernel
  have hlong : Literal.ofPlain (.number ⟨0x41E0000000000000⟩) = .ok (.long 2147483648) := by
    decide +kernel
  have hdouble : Literal.ofPlain (.number ⟨0x4340000000000000⟩) =
      .ok (.double ⟨0x4340000000000000⟩) := by
    decide +kernel
  have hzeroWritten : (Literal.integer ⟨0x8000000000000000⟩).written = "0" := by decide +kernel
  have hdoubleWritten : (Literal.double ⟨0x4340000000000000⟩).written = "9007199254740992.0" := by
    decide +kernel
  have hshown : Binary64.text ⟨0x4340000000000000⟩ = "9007199254740992" := by decide +kernel
  obtain ⟨zero, hrendered, _, hwhole, _⟩ := (((plain_values_lifted _).2.2 _).2 hzero).2 {}
  have hzeroText := Except.ok.inj (hrendered.symm.trans (Arrow.inlineText_literal _ _))
  rw [hzeroWritten] at hzeroText
  rw [hzeroText] at hwhole
  obtain ⟨large, hrendered, hdenotes, _, hplain⟩ :=
    (((plain_values_lifted _).2.2 _).2 hdouble).2 {}
  have hlargeText := Except.ok.inj (hrendered.symm.trans (Arrow.inlineText_literal _ _))
  rw [hdoubleWritten] at hlargeText
  have hdenoted := hdenotes _ rfl
  rw [hlargeText, hshown] at hdenoted
  rw [hlargeText] at hplain
  refine ⟨⟨hzero, hwhole (Or.inl rfl)⟩, ⟨hlong, (((plain_values_lifted _).2.2 _).2 hlong).1⟩,
    ⟨hdouble, hplain rfl, hdenoted⟩, ?_, ?_⟩
  · exact ((plain_values_lifted _).2.2 _).1.mpr (.wholeNumber (by decide))
  · exact (plain_values_lifted _).1.mpr (Or.inl (by decide))

end QueryPipeline
