import QueryPipeline.Number.Digits

/-!
# Calendar dates

Days of the proleptic Gregorian calendar, their numbers, and the text form `YYYY-MM-DD`.

* `Date.dayNumber` counts days from 1970-01-01, and `Date.ofDayNumber` finds the date of a number:
  the year by the cycles of 400, 100, 4 and 1 years, then the month within it;
* `Date.isValid` says which triples are days of the calendar; `Date.countedOn` is the day that any
  triple leads to, where months beyond the year and days beyond the month are counted on;
* `Date.read?` splits a text into three numbers without asking whether they name a day, and
  `Date.text` writes a date of the years 0 to 9999.
-/

namespace QueryPipeline

/-! ## 1. Years and months -/

/-- Every fourth year, but of the years that end a century only every fourth. -/
def isLeapYear (year : Int) : Bool := year % 4 = 0 && (year % 100 ≠ 0 || year % 400 = 0)

/-- The lengths of the twelve months. -/
def monthLengths (leap : Bool) : List Nat :=
  [31, if leap then 29 else 28, 31, 30, 31, 30, 31, 31, 30, 31, 30, 31]

/-- The length of a month; a month outside of the year has no days. -/
def monthLength (leap : Bool) : Nat → Nat
  | 0 => 0
  | month + 1 => (monthLengths leap).getD month 0

/-- The days of a year before the first day of a month. -/
def daysBeforeMonth (leap : Bool) (month : Nat) : Nat :=
  ((monthLengths leap).take (month - 1)).foldl (· + ·) 0

/-- The days from the first day of the year 1 to the first day of a year. -/
def daysBeforeYear (year : Int) : Int :=
  let past := year - 1
  365 * past + past / 4 - past / 100 + past / 400

/-! ## 2. Dates -/

/-- A year, a month counted from 1 and a day of the month counted from 1. -/
structure Date where
  year : Int
  month : Nat
  day : Nat
  deriving DecidableEq, Repr

/-- The days from the first day of the year 1 to 1970-01-01. -/
def daysBeforeEpoch : Int := 719162

namespace Date

/-- Whether a triple names a day of the calendar. -/
def isValid (d : Date) : Bool :=
  1 ≤ d.month && d.month ≤ 12 && 1 ≤ d.day && d.day ≤ monthLength (isLeapYear d.year) d.month

/-- The days from 1970-01-01 to a date. -/
def dayNumber (d : Date) : Int :=
  daysBeforeYear d.year + daysBeforeMonth (isLeapYear d.year) d.month + d.day - 1 - daysBeforeEpoch

/-- The month and day of a day of the year, both counted from 1, given the lengths of the months
    from `month` on and the days that are left. -/
def monthAndDay (month : Nat) : List Nat → Nat → Nat × Nat
  | [], rest => (month, rest + 1)
  | length :: more, rest =>
    if rest < length then (month, rest + 1) else monthAndDay (month + 1) more (rest - length)

/-- The year of a day counted from the first day of the year 1, and the day of that year. The
    cycles of 100 years and of 1 year are cut off at three, since the last day of a cycle of 400
    or of 4 years belongs to its last year. -/
def yearAndDay (n : Int) : Int × Nat :=
  let inEra := (n % 146097).toNat
  let century := min (inEra / 36524) 3
  let inCentury := inEra - 36524 * century
  let inCycle := inCentury % 1461
  let cycleYear := min (inCycle / 365) 3
  (400 * (n / 146097) + 100 * century + 4 * (inCentury / 1461 : Nat) + cycleYear + 1,
    inCycle - 365 * cycleYear)

/-- The date of a day counted from 1970-01-01. -/
def ofDayNumber (n : Int) : Date :=
  let (year, rest) := yearAndDay (n + daysBeforeEpoch)
  let (month, day) := monthAndDay 1 (monthLengths (isLeapYear year)) rest
  ⟨year, month, day⟩

/-- The day that a triple leads to: months before and beyond the twelve are counted on in the years
    around, and days before and beyond the month in the months around. -/
def countedOn (d : Date) : Date :=
  let months : Int := d.month - 1
  let first : Date := ⟨d.year + months / 12, (months % 12).toNat + 1, 1⟩
  ofDayNumber (first.dayNumber + (d.day - 1))

/-! ## 3. Texts -/

/-- Four digits, a hyphen, two digits, a hyphen, two digits. -/
def text (d : Date) : String :=
  String.ofList (digitChars (padded 4 d.year.toNat) ++ '-' :: digitChars (padded 2 d.month) ++
    '-' :: digitChars (padded 2 d.day))

/-- Reads four digits, a hyphen, two digits, a hyphen and two digits, and nothing else. The triple
    need not name a day. -/
def read? (s : String) : Option Date :=
  match s.toList with
  | [y₁, y₂, y₃, y₄, h₁, m₁, m₂, h₂, d₁, d₂] => do
    guard (h₁ = '-' ∧ h₂ = '-')
    let year ← [y₁, y₂, y₃, y₄].mapM Digit.ofChar?
    let month ← [m₁, m₂].mapM Digit.ofChar?
    let day ← [d₁, d₂].mapM Digit.ofChar?
    some ⟨digitsValue year, digitsValue month, digitsValue day⟩
  | _ => none

end Date
end QueryPipeline
