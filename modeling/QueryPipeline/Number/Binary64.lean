import QueryPipeline.Number.Digits

/-!
# Double-precision numbers

A double is kept as the 64 bits of its IEEE-754 encoding, and everything else about it is exact
arithmetic on those bits: no operation of this module rounds.

* `Binary64.shape` splits the bits into sign, significand and binary exponent;
* `Binary64.toInt?` is the whole number that a double denotes, if it denotes one;
* `isSafeInteger` and `isInt32` are the ranges in which numbers count as `long` and `integer`.
-/

namespace QueryPipeline

/-! ## 1. Encoding -/

/-- A double-precision number, as the bits of its encoding. -/
structure Binary64 where
  bits : UInt64
  deriving DecidableEq, Repr

namespace Binary64

/-- What a double denotes: nothing, an infinity, or `± significand * 2 ^ exponent`. -/
inductive Shape
  | nan
  | infinite (negative : Bool)
  | finite (negative : Bool) (significand : Nat) (exponent : Int)
  deriving DecidableEq, Repr

/-- The sign bit. -/
def signBit (v : Binary64) : Bool := v.bits.toNat / Nat.pow 2 63 % 2 == 1

/-- The eleven bits of the exponent field. -/
def exponentField (v : Binary64) : Nat := v.bits.toNat / Nat.pow 2 52 % 2048

/-- The fifty-two bits of the fraction field. -/
def fractionField (v : Binary64) : Nat := v.bits.toNat % Nat.pow 2 52

/-- Reads the three fields. The exponent field zero stands for the subnormal numbers, which have
    no hidden bit; the highest one stands for the infinities and for what is not a number. -/
def shape (v : Binary64) : Shape :=
  if v.exponentField = 2047 then
    if v.fractionField = 0 then .infinite v.signBit else .nan
  else if v.exponentField = 0 then
    .finite v.signBit v.fractionField (-1074)
  else
    .finite v.signBit (Nat.pow 2 52 + v.fractionField) (v.exponentField - 1075)

/-- Whether the gap to the next smaller magnitude is half of the gap to the next larger one: the
    case of a power of two above the least normal number. -/
def isBinadeStart (v : Binary64) : Bool := v.fractionField = 0 && v.exponentField > 1

/-! ## 2. Whole numbers -/

/-- `significand * 2 ^ exponent`, if that is a whole number. -/
def wholeMagnitude? (significand : Nat) : Int → Option Nat
  | .ofNat e => some (significand * Nat.pow 2 e)
  | .negSucc e =>
    if significand % Nat.pow 2 (e + 1) = 0 then some (significand / Nat.pow 2 (e + 1)) else none

/-- The whole number that a double denotes, if it denotes one; both zeros denote zero. -/
def toInt? (v : Binary64) : Option Int :=
  match v.shape with
  | .finite negative m e => (wholeMagnitude? m e).map fun n => if negative then -n else n
  | _ => none

/-- The whole part of a finite double, rounded toward zero. -/
def truncate? (v : Binary64) : Option Int :=
  match v.shape with
  | .finite negative m e =>
    let n : Nat := match e with
      | .ofNat e => m * Nat.pow 2 e
      | .negSucc e => m / Nat.pow 2 (e + 1)
    some (if negative then -n else n)
  | _ => none

/-- Neither an infinity nor something that is not a number. -/
def isFinite (v : Binary64) : Bool :=
  match v.shape with
  | .finite _ _ _ => true
  | _ => false

/-- Less than zero; the negative zero is not. -/
def isNegative (v : Binary64) : Bool :=
  match v.shape with
  | .nan => false
  | .infinite negative => negative
  | .finite negative m _ => negative && m != 0

end Binary64

/-! ## 3. Ranges -/

/-- The whole numbers of 32 bits. -/
def isInt32 (n : Int) : Bool := -2147483648 ≤ n && n ≤ 2147483647

/-- The whole numbers of 64 bits. -/
def isInt64 (n : Int) : Bool := -9223372036854775808 ≤ n && n ≤ 9223372036854775807

/-- The whole numbers whose doubles have no other whole number rounding to them. -/
def isSafeInteger (n : Int) : Bool := -9007199254740991 ≤ n && n ≤ 9007199254740991

end QueryPipeline
