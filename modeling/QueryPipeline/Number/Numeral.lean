import QueryPipeline.Number.Digits

/-!
# Numerals

A numeral is a non-negative decimal as it is written: digits before the point, digits after it and
perhaps an exponent of ten. Two texts are made from it.

* `Numeral.text` writes it as it stands: `12`, `0.5`, `1.5e+21`, `1e-7`;
* `Numeral.plainText` writes the same number without an exponent and with at least one digit after
  the point: `12.0`, `0.5`, `1500000000000000000000.0`, `0.0000001`;
* `Numeral.ofDecimal` chooses the form of a number given by its significant digits and the place of
  its point: positional while the point stands near the digits, with an exponent elsewhere.
-/

namespace QueryPipeline

/-! ## 1. Written numbers -/

/-- A decimal as it is written. -/
structure Numeral where
  whole : List Digit
  fraction : List Digit
  exponent : Option Int
  deriving DecidableEq, Repr

namespace Numeral

/-- An exponent of ten with its sign, which is always written. -/
def exponentText (e : Int) : List Char :=
  'e' :: (if e < 0 then '-' else '+') :: digitChars (digits e.natAbs)

/-- Digits before and after a point; a point stands only before a digit. -/
def positionalText (whole fraction : List Digit) : List Char :=
  match fraction with
  | [] => digitChars whole
  | _ => digitChars whole ++ '.' :: digitChars fraction

/-- The numeral as it stands. -/
def text (n : Numeral) : List Char :=
  positionalText n.whole n.fraction ++
    match n.exponent with
    | none => []
    | some e => exponentText e

/-! ## 2. Plain decimals -/

/-- Digits around a point that stands after the first `point` of them, where places outside of
    them hold zeros and each side of the point has at least one digit. -/
def pointAt (ds : List Digit) : Int → List Digit × List Digit
  | .ofNat 0 => ([.zero], ds)
  | .negSucc n => ([.zero], zeros (n + 1) ++ ds)
  | .ofNat (n + 1) =>
    if ds.length ≤ n + 1 then (ds ++ zeros (n + 1 - ds.length), [.zero])
    else (ds.take (n + 1), ds.drop (n + 1))

/-- The digits on the two sides of the point once the exponent has moved it. -/
def plain (n : Numeral) : List Digit × List Digit :=
  match n.exponent with
  | none => (n.whole, if n.fraction.isEmpty then [.zero] else n.fraction)
  | some e => pointAt (n.whole ++ n.fraction) (n.whole.length + e)

/-- The number without an exponent and with at least one digit after the point. -/
def plainText (n : Numeral) : List Char :=
  digitChars n.plain.1 ++ '.' :: digitChars n.plain.2

/-! ## 3. Choice of the form -/

/-- The form of the number `0.d₁d₂… * 10 ^ point`: positional for a point from six places before
    the digits up to the twenty-first place, else one digit before the point and an exponent. -/
def ofDecimal (ds : List Digit) (point : Int) : Numeral :=
  if 0 < point ∧ point ≤ 21 then
    if ds.length ≤ point.toNat then ⟨ds ++ zeros (point.toNat - ds.length), [], none⟩
    else ⟨ds.take point.toNat, ds.drop point.toNat, none⟩
  else if -6 < point ∧ point ≤ 0 then
    ⟨[.zero], zeros point.natAbs ++ ds, none⟩
  else
    ⟨ds.take 1, ds.drop 1, some (point - 1)⟩

/-- The numeral of zero. -/
def zero : Numeral := ⟨[.zero], [], none⟩

end Numeral
end QueryPipeline
