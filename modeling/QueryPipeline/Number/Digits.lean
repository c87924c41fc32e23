/-!
# Decimal digits

How whole numbers are written in this library: the digits of a natural number, most significant
first, and the text of natural and whole numbers made from them.

* `digits n` has no leading zero, and `digits 0` is the single digit zero;
* `digitsValue` reads a digit list back as a number;
* `padded width n` fills up with zeros on the left.
-/

namespace QueryPipeline

/-! ## 1. Digits -/

/-- A decimal digit. -/
abbrev Digit := Fin 10

/-- The digit zero. -/
def Digit.zero : Digit := ⟨0, by decide⟩

/-- The character that writes a digit. -/
def Digit.char (d : Digit) : Char := Char.ofNat (48 + d.val)

/-- The digit that an ASCII character writes, if it writes one. -/
def Digit.ofChar? (c : Char) : Option Digit :=
  if h : 48 ≤ c.toNat ∧ c.toNat < 58 then some ⟨c.toNat - 48, by omega⟩ else none

/-- The last digit of a number. -/
def lastDigit (n : Nat) : Digit := ⟨n % 10, Nat.mod_lt n (by decide)⟩

/-- Puts the digits of `n` in front of `low`; `steps` bounds the number of digits. -/
def digitsOnto : Nat → Nat → List Digit → List Digit
  | 0, n, low => lastDigit n :: low
  | steps + 1, n, low =>
    if n < 10 then lastDigit n :: low else digitsOnto steps (n / 10) (lastDigit n :: low)

/-- The decimal digits of a number, most significant first. A number has at most as many decimal
    digits as binary ones, so its binary length bounds the steps. -/
def digits (n : Nat) : List Digit := digitsOnto n.log2 n []

/-! ## 2. Values -/

/-- The number that a list of digits denotes, given what stands before it. -/
def digitsValueFrom (high : Nat) : List Digit → Nat
  | [] => high
  | d :: rest => digitsValueFrom (high * 10 + d.val) rest

/-- The number that a list of digits denotes. -/
def digitsValue (ds : List Digit) : Nat := digitsValueFrom 0 ds

/-! ## 3. Texts -/

/-- The characters of a list of digits. -/
def digitChars (ds : List Digit) : List Char := ds.map Digit.char

/-- `n` zeros. -/
def zeros (n : Nat) : List Digit := List.replicate n .zero

/-- A natural number in decimal. -/
def natText (n : Nat) : String := String.ofList (digitChars (digits n))

/-- A whole number in decimal: a minus sign in front of the magnitude of a negative one. -/
def intText : Int → String
  | .ofNat n => natText n
  | .negSucc n => "-" ++ natText (n + 1)

/-- The digits of `n`, filled up with zeros on the left to `width` of them. -/
def padded (width n : Nat) : List Digit :=
  let ds := digits n
  zeros (width - ds.length) ++ ds

end QueryPipeline
