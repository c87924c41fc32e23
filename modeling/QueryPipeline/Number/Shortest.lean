import QueryPipeline.Number.Binary64
import QueryPipeline.Number.Numeral

/-!
# Shortest decimals

The decimal text of a double: the fewest digits that read back to the same double, and of those
the decimal nearest to its exact value.

* the reals that read back to `m * 2 ^ q` form an interval around it (`Span`), whose ends belong
  to it when `m` is even;
* on the grid of the multiples of a power of ten only the two neighbours of the value can be
  nearest, so each grid is settled by two tests (`Span.onGrid?`);
* grids are tried from coarse to fine; seventeen digits always suffice;
* a safe integer is the only whole number that reads back to its double, so it is written with
  its own digits and no search is needed (`Binary64.text_of_toInt?`).
-/

namespace QueryPipeline

/-! ## 1. The interval of a double -/

/-- A value and the ends of the interval that reads back to it, as multiples of
    `unitNum / unitDen`. -/
structure Span where
  low : Nat
  value : Nat
  high : Nat
  closed : Bool
  unitNum : Nat
  unitDen : Nat
  deriving DecidableEq, Repr

namespace Span

/-- The interval of `m * 2 ^ q`, counted in quarters of the gap `2 ^ q`. Below the start of a
    binade the gap is half as wide. -/
def ofMagnitude (m : Nat) (q : Int) (binadeStart : Bool) : Span :=
  let unit : Nat × Nat := match q - 2 with
    | .ofNat e => (Nat.pow 2 e, 1)
    | .negSucc e => (1, Nat.pow 2 (e + 1))
  { low := if binadeStart then 4 * m - 1 else 4 * m - 2
    value := 4 * m
    high := 4 * m + 2
    closed := m % 2 == 0
    unitNum := unit.1
    unitDen := unit.2 }

/-- A decimal: a number of steps of the grid `10 ^ place`. -/
structure GridPoint where
  steps : Nat
  place : Int
  deriving DecidableEq, Repr

/-- The factors that compare steps of the grid `10 ^ place` with multiples of the unit. -/
def scale (s : Span) : Int → Nat × Nat
  | .ofNat p => (s.unitNum, s.unitDen * Nat.pow 10 p)
  | .negSucc p => (s.unitNum * Nat.pow 10 (p + 1), s.unitDen)

/-- Whether `steps` steps of the grid lie in the interval. -/
def covers (s : Span) (place : Int) (steps : Nat) : Bool :=
  let f := s.scale place
  let x := steps * f.2
  if s.closed then s.low * f.1 ≤ x && x ≤ s.high * f.1
  else s.low * f.1 < x && x < s.high * f.1

/-- The grid point that reads back, if one does; of two the nearer, of two equally near ones the
    even one. -/
def onGrid? (s : Span) (place : Int) : Option GridPoint :=
  let f := s.scale place
  let below := s.value * f.1 / f.2
  match s.covers place below, s.covers place (below + 1) with
  | false, false => none
  | true, false => some ⟨below, place⟩
  | false, true => some ⟨below + 1, place⟩
  | true, true =>
    let twice := 2 * (s.value * f.1)
    let middle := (2 * below + 1) * f.2
    if twice < middle then some ⟨below, place⟩
    else if middle < twice then some ⟨below + 1, place⟩
    else if below % 2 = 0 then some ⟨below, place⟩
    else some ⟨below + 1, place⟩

/-- The place of the point of the value: the least `k` with `value < 10 ^ k`. -/
def point (s : Span) : Int :=
  let n := s.value * s.unitNum
  if s.unitDen ≤ n then (digits (n / s.unitDen)).length
  else 1 - ((digits ((s.unitDen - 1) / n)).length : Int)

/-- The coarsest grid point that reads back, on the grids of one to seventeen digits. -/
def shortest? (s : Span) : Option GridPoint :=
  let k := s.point
  (List.range 17).findSome? fun (i : Nat) => s.onGrid? (k - 1 - (i : Int))

end Span

/-! ## 2. Texts -/

/-- A list of digits without the zeros at its end. -/
def dropTrailingZeros (ds : List Digit) : List Digit :=
  (ds.reverse.dropWhile (· == .zero)).reverse

/-- The numeral of a positive magnitude. The fallback, the exact value rounded down to a whole
    number, is never taken: seventeen digits tell any two doubles apart. -/
def Span.numeral (s : Span) : Numeral :=
  match s.shortest? with
  | some p =>
    let ds := digits p.steps
    Numeral.ofDecimal (dropTrailingZeros ds) (ds.length + p.place)
  | none => ⟨digits (s.value * s.unitNum / s.unitDen), [], none⟩

namespace Binary64

/-- The numeral of the magnitude `m * 2 ^ q`. -/
def magnitudeNumeral (v : Binary64) (m : Nat) (q : Int) : Numeral :=
  if m = 0 then Numeral.zero else (Span.ofMagnitude m q v.isBinadeStart).numeral

/-- The sign that a double is written with; zero has none. -/
def signText (v : Binary64) : String := if v.isNegative then "-" else ""

/-- A double with the fewest digits that read back to it. -/
def shortestText (v : Binary64) : String :=
  match v.shape with
  | .nan => "NaN"
  | .infinite _ => v.signText ++ "Infinity"
  | .finite _ m q => v.signText ++ String.ofList (v.magnitudeNumeral m q).text

/-- The safe integer that a double denotes, if it denotes one. -/
def safeInteger? (v : Binary64) : Option Int := v.toInt?.filter isSafeInteger

/-- A double as it is shown: a safe integer in decimal, any other number with the fewest digits
    that read back to it. -/
def text (v : Binary64) : String :=
  match v.safeInteger? with
  | some n => intText n
  | none => v.shortestText

/-- A double as a plain decimal with at least one digit after the point. -/
def plainText (v : Binary64) : String :=
  match v.shape with
  | .nan => "NaN.0"
  | .infinite _ => v.signText ++ "Infinity.0"
  | .finite _ m q => v.signText ++ String.ofList (v.magnitudeNumeral m q).plainText

theorem safeInteger?_eq_some_iff {v : Binary64} {n : Int} :
    v.safeInteger? = some n ↔ v.toInt? = some n ∧ isSafeInteger n = true := by
  rw [safeInteger?, Option.filter_eq_some_iff]

theorem text_of_toInt? {v : Binary64} {n : Int} (h : v.toInt? = some n)
    (safe : isSafeInteger n = true) : v.text = intText n := by
  rw [text, safeInteger?_eq_some_iff.mpr ⟨h, safe⟩]

end Binary64
end QueryPipeline
