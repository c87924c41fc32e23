import Mathlib.Data.String.Basic
import QueryPipeline.Proofs.Calendar
import QueryPipeline.Proofs.DoubleTexts
import QueryPipeline.Proofs.Literals

/-!
# Date literals

A date literal is made of a text or of an instant, and holds the text of a day of the calendar in
the years 0 to 9999.

* `digitChars_append_lt`: digits of one width are ordered like their numbers, so that texts of dates
  are ordered in the same way as the dates that are written in them (`Date.text_lt_iff`);
* `Date.writtenIn_text`: a day of the calendar in the years 0 to 9999 is written in its text;
* `Instant.LiesOn` relates an instant to the day of the calendar on which it lies, and
  `Instant.liesOn_iff` says that it is the one that is computed;
* **`date_literals`**: which texts and which instants are accepted, and what the literal holds.
-/

namespace QueryPipeline

/-! ## 1. Digits of a fixed width -/

theorem digitsValue_cons (d : Digit) (ds : List Digit) :
    digitsValue (d :: ds) = d.val * 10 ^ ds.length + digitsValue ds := by
  have hfirst : digitsValue [d] = d.val := by simp [digitsValue, digitsValueFrom]
  rw [← List.singleton_append, digitsValue_append, hfirst]

theorem digitsValue_lt (ds : List Digit) : digitsValue ds < 10 ^ ds.length := by
  induction ds with
  | nil => decide
  | cons d ds ih =>
    have hdigit : (d.val + 1) * 10 ^ ds.length ≤ 10 * 10 ^ ds.length :=
      Nat.mul_le_mul_right _ d.isLt
    rw [digitsValue_cons, List.length_cons, pow_succ']
    rw [Nat.add_mul] at hdigit
    omega

theorem length_padded {width n : Nat} (h : n < 10 ^ width) (hwidth : 0 < width) :
    (padded width n).length = width := by
  have hlength : (digits n).length ≤ width := by
    rcases Nat.eq_zero_or_pos n with rfl | hn
    · exact hwidth
    · exact length_digits_le h hn
  simp only [padded, List.length_append, length_zeros]
  omega

theorem digitsValue_padded (width n : Nat) : digitsValue (padded width n) = n := by
  simp only [padded, digitsValue_zeros_append, digitsValue_digits]

theorem Digit.char_inj (d e : Digit) : d.char = e.char ↔ d = e :=
  ⟨d.char_injective e, congrArg char⟩

theorem Digit.char_lt_iff (d e : Digit) : d.char < e.char ↔ d < e := by
  revert d e
  decide

/-- **Digits of one width are ordered like their numbers**, and what follows them decides between
    equal ones. -/
theorem digitChars_append_lt {ds es : List Digit} (h : ds.length = es.length)
    (rest more : List Char) :
    digitChars ds ++ rest < digitChars es ++ more ↔
      digitsValue ds < digitsValue es ∨ digitsValue ds = digitsValue es ∧ rest < more := by
  induction ds generalizing es with
  | nil =>
    obtain rfl := List.length_eq_zero_iff.mp h.symm
    simp [digitChars]
  | cons d ds ih =>
    obtain ⟨e, es, rfl⟩ := List.exists_cons_of_length_eq_add_one h.symm
    have hlength : ds.length = es.length := Nat.succ.inj h
    have hlow := digitsValue_lt ds
    have hlow' := digitsValue_lt es
    have hfirst : digitChars (d :: ds) ++ rest < digitChars (e :: es) ++ more ↔
        d < e ∨ d = e ∧ digitChars ds ++ rest < digitChars es ++ more := by
      rw [← Digit.char_lt_iff, ← Digit.char_inj]
      exact List.cons_lt_cons_iff
    rw [hfirst, ih hlength, digitsValue_cons, digitsValue_cons, hlength]
    rw [hlength] at hlow
    generalize 10 ^ es.length = unit at hlow hlow'
    rcases Nat.lt_trichotomy d.val e.val with hd | hd | hd
    · have hgap : (d.val + 1) * unit ≤ e.val * unit := Nat.mul_le_mul_right _ hd
      rw [Nat.add_mul] at hgap
      exact iff_of_true (Or.inl hd) (Or.inl (by omega))
    · obtain rfl := Fin.ext hd
      simp
    · have hgap : (e.val + 1) * unit ≤ d.val * unit := Nat.mul_le_mul_right _ hd
      rw [Nat.add_mul] at hgap
      refine iff_of_false ?_ (by omega)
      rintro (hlt | ⟨rfl, _⟩)
      · exact Nat.lt_asymm hd hlt
      · exact Nat.lt_irrefl _ hd

/-! ## 2. Texts of dates -/

namespace Date

variable {d e : Date} {s t : String}

/-- **Texts of dates are ordered in the same way as the dates.** -/
theorem text_lt_iff (hs : d.WrittenIn s) (ht : e.WrittenIn t) : s < t ↔ d.Before e := by
  obtain ⟨year, month, day, hyear, hmonth, hday, hs, rfl⟩ := hs
  obtain ⟨year', month', day', hyear', hmonth', hday', ht, rfl⟩ := ht
  have hdays : digitChars day < digitChars day' ↔ digitsValue day < digitsValue day' := by
    have h := digitChars_append_lt (hday.trans hday'.symm) [] []
    simpa using h
  have hhyphen (cs ds : List Char) : '-' :: cs < '-' :: ds ↔ cs < ds := by
    simp
  rw [String.lt_iff_toList_lt, hs, ht, digitChars_append_lt (hyear.trans hyear'.symm), hhyphen,
    digitChars_append_lt (hmonth.trans hmonth'.symm), hhyphen, hdays]
  simp only [Before, Nat.cast_lt, Nat.cast_inj]

theorem monthLength_le (leap : Bool) (month : Nat) : monthLength leap month ≤ 31 := by
  cases month with
  | zero => exact Nat.zero_le _
  | succ month =>
    have hall : ∀ leap : Bool, ∀ n ∈ monthLengths leap, n ≤ 31 := by decide
    rw [monthLength, List.getD_eq_getElem?_getD]
    cases hlength : (monthLengths leap)[month]? with
    | none => exact Nat.zero_le _
    | some n => exact hall leap n (List.mem_of_getElem? hlength)

/-- **A day of the calendar in the years 0 to 9999 is written in its text.** -/
theorem writtenIn_text (hvalid : d.isValid = true) (hyear : 0 ≤ d.year ∧ d.year ≤ 9999) :
    d.WrittenIn d.text := by
  obtain ⟨hmonth, _, hday⟩ := isValid_iff.mp hvalid
  have hlast := hday.trans (monthLength_le _ _)
  refine ⟨padded 4 d.year.toNat, padded 2 d.month, padded 2 d.day,
    length_padded (by omega) (by decide), length_padded (by omega) (by decide),
    length_padded (by omega) (by decide), by simp [text], ?_⟩
  rw [digitsValue_padded, digitsValue_padded, digitsValue_padded, Int.toNat_of_nonneg hyear.1]

end Date

/-! ## 3. Instants -/

/-- An instant lies on the day of the calendar whose number is that of the whole days since the
    epoch; an instant before the epoch has begun a day as well. -/
def Instant.LiesOn (t : Instant) (d : Date) : Prop :=
  d.isValid = true ∧ d.dayNumber = t.millis / 86400000

/-- **An instant lies on one day**, the one that is computed for it. -/
theorem Instant.liesOn_iff {t : Instant} {d : Date} : t.LiesOn d ↔ d = t.date := by
  obtain ⟨hvalid, hnumber⟩ := Date.ofDayNumber_spec t.dayNumber
  constructor
  · rintro ⟨h, hd⟩
    exact Date.dayNumber_injective h hvalid (hd.trans hnumber.symm)
  · rintro rfl
    exact ⟨hvalid, hnumber⟩

/-! ## 4. Literals -/

namespace Literal

variable {v : Literal}

/-- **A text gives a date literal iff a day of the calendar is written in it.** -/
theorem ofDateText_iff {s : String} :
    ofDateText s = .ok v ↔ (∃ d : Date, d.WrittenIn s ∧ d.isValid = true) ∧ v = date s := by
  simp only [ofDateText_eq_ok, Date.read?_eq_some_iff]
  exact ⟨fun ⟨d, hd, hvalid, hv⟩ => ⟨⟨d, hd, hvalid⟩, hv⟩,
    fun ⟨⟨d, hd, hvalid⟩, hv⟩ => ⟨d, hd, hvalid, hv⟩⟩

/-- **An instant gives a date literal iff its day lies in the years 0 to 9999**, and the literal
    holds the text of that day. -/
theorem ofInstant_iff {moment : Option Instant} :
    ofInstant moment = .ok v ↔
      ∃ t d, moment = some t ∧ t.LiesOn d ∧ (0 ≤ d.year ∧ d.year ≤ 9999) ∧ v = date d.text := by
  simp only [ofInstant_eq_ok, Instant.liesOn_iff]
  constructor
  · rintro ⟨t, rfl, hyear, rfl⟩
    exact ⟨t, t.date, rfl, rfl, hyear, rfl⟩
  · rintro ⟨t, d, rfl, rfl, hyear, rfl⟩
    exact ⟨t, rfl, hyear, rfl⟩

end Literal

/-- **Date literals are the days of the calendar in the years 0 to 9999.** Numbers are counted from
    1970-01-01, one for each day. A text is accepted iff a day of the calendar is written in it, and
    is kept as it is. An instant is accepted iff it is one and the day on which it lies is in those
    years; the literal holds a text that is accepted as well and in which that day is written. The
    texts of instants are ordered in the same way as the days on which these lie, and so never in
    another way than the instants. -/
theorem date_literals :
    (Date.dayNumber ⟨1970, 1, 1⟩ = 0 ∧
      ∀ d : Date, d.isValid = true → d.next.dayNumber = d.dayNumber + 1) ∧
    (∀ s v, Literal.ofDateText s = .ok v ↔
      (∃ d : Date, d.WrittenIn s ∧ d.isValid = true) ∧ v = .date s) ∧
    (∀ moment, (∃ v, Literal.ofInstant moment = .ok v) ↔
      ∃ t d, moment = some t ∧ t.LiesOn d ∧ 0 ≤ d.year ∧ d.year ≤ 9999) ∧
    (∀ t v, Literal.ofInstant (some t) = .ok v →
      ∃ d s, t.LiesOn d ∧ d.WrittenIn s ∧ v = .date s ∧ Literal.ofDateText s = .ok v) ∧
    ∀ t t' s s', Literal.ofInstant (some t) = .ok (.date s) →
      Literal.ofInstant (some t') = .ok (.date s') →
      (s < s' ↔ t.dayNumber < t'.dayNumber) ∧ (t.millis ≤ t'.millis → s ≤ s') := by
  have written {t : Instant} {v : Literal} (h : Literal.ofInstant (some t) = .ok v) :
      ∃ d, t.LiesOn d ∧ d.WrittenIn d.text ∧ v = .date d.text := by
    obtain ⟨_, d, ⟨⟩, hday, hyear, rfl⟩ := Literal.ofInstant_iff.mp h
    exact ⟨d, hday, d.writtenIn_text hday.1 hyear, rfl⟩
  have order {t t' : Instant} {s s' : String} (h : Literal.ofInstant (some t) = .ok (.date s))
      (h' : Literal.ofInstant (some t') = .ok (.date s')) :
      s < s' ↔ t.dayNumber < t'.dayNumber := by
    obtain ⟨d, hday, hs, ⟨⟩⟩ := written h
    obtain ⟨d', hday', hs', ⟨⟩⟩ := written h'
    rw [Date.text_lt_iff hs hs', ← Date.dayNumber_lt_iff hday.1 hday'.1, hday.2, hday'.2]
    rfl
  refine ⟨⟨Date.dayNumber_epoch, fun d => Date.dayNumber_next⟩, fun s v => Literal.ofDateText_iff,
    fun moment => ?_, fun t v h => ?_, fun t t' s s' h h' => ⟨order h h', fun hle => ?_⟩⟩
  · simp only [Literal.ofInstant_iff]
    constructor
    · rintro ⟨_, t, d, ht, hday, hyear, _⟩
      exact ⟨t, d, ht, hday, hyear⟩
    · rintro ⟨t, d, ht, hday, hyear⟩
      exact ⟨_, t, d, ht, hday, hyear, rfl⟩
  · obtain ⟨d, hday, hs, rfl⟩ := written h
    exact ⟨d, d.text, hday, hs, rfl, Literal.ofDateText_iff.mpr ⟨⟨d, hs, hday.1⟩, rfl⟩⟩
  · have hdays : t.dayNumber ≤ t'.dayNumber := Int.ediv_le_ediv (by decide) hle
    rw [← not_lt, order h' h]
    omega

/-- A leap day of the year 0, the last instant before the epoch, and the day on which a leap year
    of a whole century differs from the other ones. -/
theorem date_literals_leapDays :
    Literal.ofDateText "0000-02-29" = .ok (.date "0000-02-29") ∧
    Literal.ofInstant (some ⟨-1⟩) = .ok (.date "1969-12-31") ∧
      Literal.ofDateText "1969-12-31" = .ok (.date "1969-12-31") ∧
    Literal.ofInstant (some ⟨951782400000⟩) = .ok (.date "2000-02-29") ∧
      (Date.next ⟨2000, 2, 28⟩ = ⟨2000, 2, 29⟩ ∧
        Date.dayNumber ⟨2000, 2, 29⟩ = Date.dayNumber ⟨2000, 2, 28⟩ + 1) ∧
    "1969-12-31" < "2000-02-29" := by
  obtain ⟨⟨_, hnext⟩, htexts, _, hheld, horder⟩ := date_literals
  have hyearZero : (Date.mk 0 2 29).WrittenIn "0000-02-29" :=
    ⟨[0, 0, 0, 0], [0, 2], [2, 9], rfl, rfl, rfl, by decide, rfl⟩
  have hbefore : Literal.ofInstant (some ⟨-1⟩) = .ok (.date "1969-12-31") := by decide
  have hafter : Literal.ofInstant (some ⟨951782400000⟩) = .ok (.date "2000-02-29") := by decide
  obtain ⟨_, _, _, _, ⟨⟩, hbefore'⟩ := hheld _ _ hbefore
  exact ⟨(htexts _ _).mpr ⟨⟨_, hyearZero, by decide⟩, rfl⟩, hbefore, hbefore', hafter,
    ⟨by decide, hnext ⟨2000, 2, 28⟩ (by decide)⟩, (horder _ _ _ _ hbefore hafter).1.mpr (by decide)⟩

end QueryPipeline
