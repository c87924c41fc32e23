import QueryPipeline.Calendar.Date

/-!
# The calendar

The days of the calendar and their numbers, in both directions.

* `Date.yearAndDay_spec` and `Date.monthAndDay_spec` find the year of a day and its month in it, so
  that each number is that of a day of the calendar (**`Date.ofDayNumber_spec`**);
* `Date.dayNumber_lt_iff`: later days have greater numbers, so that no two days share one
  (`Date.dayNumber_injective`), and `Date.dayNumber_next`: the next day has the next number;
* **`Date.countedOn_eq_iff`**: counting on from a triple leads back to it iff it is a day of the
  calendar.
-/

namespace QueryPipeline

/-! ## 1. Years and months -/

/-- The days of a year. -/
def yearLength (leap : Bool) : Nat := if leap then 366 else 365

theorem isLeapYear_iff (year : Int) :
    isLeapYear year = true ↔ year % 4 = 0 ∧ (year % 100 ≠ 0 ∨ year % 400 = 0) := by
  simp [isLeapYear]

theorem daysBeforeYear_succ (past : Int) :
    daysBeforeYear (past + 1) = 365 * past + past / 4 - past / 100 + past / 400 := by
  rw [daysBeforeYear, Int.add_sub_cancel]

/-- **The next year begins where a year ends.** -/
theorem daysBeforeYear_next (year : Int) :
    daysBeforeYear (year + 1) = daysBeforeYear year + yearLength (isLeapYear year) := by
  have hfour : year / 4 = (year - 1) / 4 + if year % 4 = 0 then 1 else 0 := by omega
  have hcentury : year / 100 = (year - 1) / 100 + if year % 100 = 0 then 1 else 0 := by omega
  have hera : year / 400 = (year - 1) / 400 + if year % 400 = 0 then 1 else 0 := by omega
  rw [daysBeforeYear_succ, hfour, hcentury, hera]
  simp only [daysBeforeYear, yearLength, isLeapYear_iff]
  by_cases hleap : year % 4 = 0 ∧ (year % 100 ≠ 0 ∨ year % 400 = 0)
  · rw [if_pos hleap]
    omega
  · rw [if_neg hleap]
    omega

theorem daysBeforeYear_mono {year later : Int} (h : year ≤ later) :
    daysBeforeYear year ≤ daysBeforeYear later := by
  have hfour : (year - 1) / 4 ≤ (later - 1) / 4 := by omega
  have hcentury : (later - 1) / 100 - (year - 1) / 100 ≤ later - year := by omega
  have hera : (year - 1) / 400 ≤ (later - 1) / 400 := by omega
  simp only [daysBeforeYear]
  omega

/-- The months make up the year. -/
theorem foldl_monthLengths (leap : Bool) :
    (monthLengths leap).foldl (· + ·) 0 = yearLength leap := by
  cases leap with
  | true => rfl
  | false => rfl

/-- **A month ends before the later ones begin**, and with the year at the latest. -/
theorem daysBeforeMonth_add_le (leap : Bool) {month : Nat} (h : month ≤ 12) :
    daysBeforeMonth leap month + monthLength leap month ≤ yearLength leap ∧
      ∀ later ≤ 12, month < later →
        daysBeforeMonth leap month + monthLength leap month ≤ daysBeforeMonth leap later := by
  have hall : ∀ leap : Bool, ∀ month < 13,
      daysBeforeMonth leap month + monthLength leap month ≤ yearLength leap ∧
        ∀ later < 13, month < later →
          daysBeforeMonth leap month + monthLength leap month ≤ daysBeforeMonth leap later := by
    decide
  obtain ⟨hyear, hlater⟩ := hall leap month (by omega)
  exact ⟨hyear, fun later hle => hlater later (by omega)⟩

/-- The first month begins with the year, and each other one where the one before it ends. -/
theorem daysBeforeMonth_next (leap : Bool) {month : Nat} (h : 1 ≤ month ∧ month ≤ 12) :
    daysBeforeMonth leap month + monthLength leap month =
      if month < 12 then daysBeforeMonth leap (month + 1) else yearLength leap := by
  have hall : ∀ leap : Bool, ∀ month < 13, 1 ≤ month →
      daysBeforeMonth leap month + monthLength leap month =
        if month < 12 then daysBeforeMonth leap (month + 1) else yearLength leap := by
    decide
  exact hall leap month (by omega) h.1

namespace Date

variable {d e : Date} {n : Int}

theorem isValid_iff :
    d.isValid = true ↔ (1 ≤ d.month ∧ d.month ≤ 12) ∧
      1 ≤ d.day ∧ d.day ≤ monthLength (isLeapYear d.year) d.month := by
  simp [isValid, and_assoc]

/-! ## 2. The day of a number -/

/-- The cycles of 400, 100, 4 and 1 years that are past before a day, and the rest of days. A whole
    year is left only where it is a leap year: the last of its four years, which is not the last of
    a century unless that is the last of its era. -/
theorem exists_cycles (n : Int) :
    ∃ (era : Int) (century four one rest : Nat),
      yearAndDay n = (400 * era + 100 * century + 4 * four + one + 1, rest) ∧
      n = 146097 * era + 36524 * century + 1461 * four + 365 * one + rest ∧
      (century ≤ 3 ∧ four ≤ 24 ∧ one ≤ 3 ∧ rest ≤ 365) ∧
      (rest = 365 → one = 3 ∧ (four = 24 → century = 3)) := by
  refine ⟨_, _, _, _, _, rfl, ?_, ?_, ?_⟩
  · omega
  · omega
  · omega

/-- **The year of a day**: the days before the year and the ones before the day in it make up the
    number, and the year is long enough. -/
theorem yearAndDay_spec (n : Int) :
    daysBeforeYear (yearAndDay n).1 + (yearAndDay n).2 = n ∧
      (yearAndDay n).2 < yearLength (isLeapYear (yearAndDay n).1) := by
  obtain ⟨era, century, four, one, rest, hfound, hn, hcycles, hwhole⟩ := exists_cycles n
  obtain ⟨past, hpast⟩ : ∃ past : Int, past = 400 * era + 100 * century + 4 * four + one :=
    ⟨_, rfl⟩
  have hfours : past / 4 = 100 * era + 25 * century + four := by omega
  have hcenturies : past / 100 = 4 * era + century := by omega
  have heras : past / 400 = era := by omega
  rw [hfound]
  simp only [← hpast, daysBeforeYear_succ, hfours, hcenturies, heras]
  constructor
  · omega
  · simp only [yearLength, isLeapYear_iff]
    split
    · omega
    · omega

/-- **The month of a day of the year**: the months that are past and the day of the month make up
    the days up to the end of that day. The induction is on the months; the days of those that are
    past already are where the sum begins. -/
theorem monthAndDay_spec (month : Nat) (lengths : List Nat) (rest done : Nat)
    (h : done + rest < lengths.foldl (· + ·) done) :
    ∃ (past day length : Nat), monthAndDay month lengths rest = (month + past, day) ∧
      lengths[past]? = some length ∧ (1 ≤ day ∧ day ≤ length) ∧
      (lengths.take past).foldl (· + ·) done + day = done + rest + 1 := by
  induction lengths generalizing month rest done with
  | nil => exact absurd h (by simp)
  | cons length more ih =>
    rw [monthAndDay]
    by_cases hrest : rest < length
    · rw [if_pos hrest]
      exact ⟨0, rest + 1, length, rfl, rfl, ⟨by omega, hrest⟩, rfl⟩
    · rw [if_neg hrest]
      have hmore : done + length + (rest - length) < more.foldl (· + ·) (done + length) := by
        rw [List.foldl_cons] at h
        omega
      obtain ⟨past, day, last, hfound, hlength, hday, hsum⟩ := ih (month + 1) _ _ hmore
      refine ⟨past + 1, day, last, by rw [hfound, Nat.add_right_comm]; rfl, hlength, hday, ?_⟩
      rw [List.take_succ_cons, List.foldl_cons, hsum]
      omega

/-- **Each number is that of a day of the calendar**, the one that is found for it. -/
theorem ofDayNumber_spec (n : Int) :
    (ofDayNumber n).isValid = true ∧ (ofDayNumber n).dayNumber = n := by
  obtain ⟨year, rest, hyear⟩ : ∃ year rest, yearAndDay (n + daysBeforeEpoch) = (year, rest) :=
    ⟨_, _, rfl⟩
  have hspec := yearAndDay_spec (n + daysBeforeEpoch)
  rw [hyear, ← foldl_monthLengths] at hspec
  have hnumber : daysBeforeYear year + rest = n + daysBeforeEpoch := hspec.1
  have hrest : 0 + rest < (monthLengths (isLeapYear year)).foldl (· + ·) 0 := by
    rw [Nat.zero_add]
    exact hspec.2
  obtain ⟨past, day, length, hmonth, hlength, hday, hsum⟩ := monthAndDay_spec 1 _ _ _ hrest
  have hpast : past < 12 := (List.getElem?_eq_some_iff.mp hlength).1
  have hfound : ofDayNumber n = ⟨year, past + 1, day⟩ := by
    simp only [ofDayNumber, hyear, hmonth, Nat.add_comm]
  have hmonths : daysBeforeMonth (isLeapYear year) (past + 1) + day = rest + 1 := by
    rw [daysBeforeMonth, Nat.add_sub_cancel, hsum, Nat.zero_add]
  have hwithin : day ≤ monthLength (isLeapYear year) (past + 1) := by
    rw [monthLength, List.getD_eq_getElem?_getD, hlength]
    exact hday.2
  rw [hfound, isValid_iff]
  refine ⟨⟨⟨Nat.le_add_left 1 past, hpast⟩, hday.1, hwithin⟩, ?_⟩
  simp only [dayNumber]
  omega

/-! ## 3. The order of days -/

/-- The order of days: by year, then by month, then by day. -/
def Before (d e : Date) : Prop :=
  d.year < e.year ∨ d.year = e.year ∧ (d.month < e.month ∨ d.month = e.month ∧ d.day < e.day)

theorem before_or_eq_or_before (d e : Date) : d.Before e ∨ d = e ∨ e.Before d := by
  obtain ⟨year, month, day⟩ := d
  obtain ⟨year', month', day'⟩ := e
  simp only [Before, Date.mk.injEq]
  omega

/-- A later day has a greater number: its month, or its year, begins where the earlier one has
    ended. -/
theorem dayNumber_lt_of_before (hd : d.isValid = true) (he : e.isValid = true)
    (h : d.Before e) : d.dayNumber < e.dayNumber := by
  obtain ⟨⟨_, hmonth⟩, hday, hlength⟩ := isValid_iff.mp hd
  obtain ⟨⟨_, hmonth'⟩, hday', _⟩ := isValid_iff.mp he
  obtain ⟨hyear, hlater⟩ := daysBeforeMonth_add_le (isLeapYear d.year) hmonth
  simp only [dayNumber]
  rcases h with h | ⟨hsame, h | ⟨hmonths, h⟩⟩
  · have hnext := daysBeforeYear_next d.year
    have hmono : daysBeforeYear (d.year + 1) ≤ daysBeforeYear e.year := daysBeforeYear_mono h
    omega
  · have hmonths := hlater e.month hmonth' h
    rw [← hsame]
    omega
  · rw [← hsame, ← hmonths]
    omega

/-- **The order of days is the order of their numbers.** -/
theorem dayNumber_lt_iff (hd : d.isValid = true) (he : e.isValid = true) :
    d.dayNumber < e.dayNumber ↔ d.Before e := by
  refine ⟨fun h => ?_, dayNumber_lt_of_before hd he⟩
  rcases before_or_eq_or_before d e with hbefore | rfl | hafter
  · exact hbefore
  · exact absurd h (by omega)
  · exact absurd (dayNumber_lt_of_before he hd hafter) (by omega)

/-- **No two days of the calendar have one number.** -/
theorem dayNumber_injective (hd : d.isValid = true) (he : e.isValid = true)
    (h : d.dayNumber = e.dayNumber) : d = e := by
  rcases before_or_eq_or_before d e with hbefore | heq | hafter
  · exact absurd (dayNumber_lt_of_before hd he hbefore) (by omega)
  · exact heq
  · exact absurd (dayNumber_lt_of_before he hd hafter) (by omega)

theorem ofDayNumber_dayNumber (h : d.isValid = true) : ofDayNumber d.dayNumber = d :=
  dayNumber_injective (ofDayNumber_spec _).1 h (ofDayNumber_spec _).2

/-! ## 4. Counting -/

/-- The day after a day: the next one of the month, else the first of the next month. -/
def next (d : Date) : Date :=
  if d.day < monthLength (isLeapYear d.year) d.month then ⟨d.year, d.month, d.day + 1⟩
  else if d.month < 12 then ⟨d.year, d.month + 1, 1⟩
  else ⟨d.year + 1, 1, 1⟩

/-- **The next day of the calendar has the next number.** -/
theorem dayNumber_next (h : d.isValid = true) : d.next.dayNumber = d.dayNumber + 1 := by
  obtain ⟨hmonth, hday, hlength⟩ := isValid_iff.mp h
  have hnext := daysBeforeMonth_next (isLeapYear d.year) hmonth
  unfold next
  split
  · simp only [dayNumber]
    omega
  · split
    · rename_i hmore
      rw [if_pos hmore] at hnext
      simp only [dayNumber]
      omega
    · rename_i hlast
      rw [if_neg hlast] at hnext
      have hyear := daysBeforeYear_next d.year
      have hfirst : daysBeforeMonth (isLeapYear (d.year + 1)) 1 = 0 := rfl
      simp only [dayNumber, hfirst]
      omega

/-- The numbers begin with 1970-01-01. -/
theorem dayNumber_epoch : dayNumber ⟨1970, 1, 1⟩ = 0 := by decide

/-- **Counting on from a triple leads back to it iff it is a day of the calendar.** -/
theorem countedOn_eq_iff : d.countedOn = d ↔ d.isValid = true := by
  constructor
  · intro h
    rw [← h]
    exact (ofDayNumber_spec _).1
  · intro h
    obtain ⟨hmonth, _⟩ := isValid_iff.mp h
    have hyears : d.year + ((d.month : Int) - 1) / 12 = d.year := by omega
    have hmonths : (((d.month : Int) - 1) % 12).toNat + 1 = d.month := by omega
    have hnumber : dayNumber ⟨d.year, d.month, 1⟩ + ((d.day : Int) - 1) = d.dayNumber := by
      simp only [dayNumber]
      omega
    simp only [countedOn, hyears, hmonths, hnumber]
    exact ofDayNumber_dayNumber h

end Date
end QueryPipeline
