import Mathlib.Algebra.Order.Field.Rat
import Mathlib.Tactic.Ring
import QueryPipeline.Proofs.Words

/-!
# The numbers that decimals denote

A numeral is a text and a number: its digits are one whole number, in which the point stands before
the fraction and is moved by the exponent.

* `digitsValue_append`, `digitsValue_zeros`: the value of digits that are put together;
* `Numeral.value` is the rational number of a numeral;
* `Numeral.read?` reads a numeral off a text, and `decimalValue?` the number that a text denotes,
  with a sign or without;
* **`Numeral.read?_text`**: a numeral is read back from its text, so that the text denotes its
  number (`decimalValue?_text`).
-/

namespace QueryPipeline

/-! ## 1. Values of digits -/

theorem digitsValueFrom_eq (high : Nat) (ds : List Digit) :
    digitsValueFrom high ds = high * 10 ^ ds.length + digitsValue ds := by
  have shift (high : Nat) :
      digitsValueFrom high ds = high * 10 ^ ds.length + digitsValueFrom 0 ds := by
    induction ds generalizing high with
    | nil => simp [digitsValueFrom]
    | cons d rest ih =>
      rw [digitsValueFrom, digitsValueFrom, ih, ih (0 * 10 + d.val), List.length_cons, pow_succ]
      ring
  exact shift high

/-- **Digits behind others** denote the number of the first ones, moved, and their own. -/
theorem digitsValue_append (as bs : List Digit) :
    digitsValue (as ++ bs) = digitsValue as * 10 ^ bs.length + digitsValue bs := by
  have step (high : Nat) :
      digitsValueFrom high (as ++ bs) = digitsValueFrom (digitsValueFrom high as) bs := by
    induction as generalizing high with
    | nil => rfl
    | cons a rest ih => exact ih _
  rw [digitsValue, step, digitsValueFrom_eq]
  rfl

theorem digitsValue_zeros (n : Nat) : digitsValue (zeros n) = 0 := by
  induction n with
  | zero => rfl
  | succ n ih =>
    have hcons : zeros (n + 1) = [.zero] ++ zeros n := rfl
    rw [hcons, digitsValue_append, ih]
    simp [digitsValue, digitsValueFrom, Digit.zero]

theorem length_zeros (n : Nat) : (zeros n).length = n := List.length_replicate

theorem digitsValue_append_zeros (ds : List Digit) (n : Nat) :
    digitsValue (ds ++ zeros n) = digitsValue ds * 10 ^ n := by
  rw [digitsValue_append, digitsValue_zeros, length_zeros, Nat.add_zero]

theorem digitsValue_zeros_append (n : Nat) (ds : List Digit) :
    digitsValue (zeros n ++ ds) = digitsValue ds := by
  rw [digitsValue_append, digitsValue_zeros, Nat.zero_mul, Nat.zero_add]

/-! ## 2. Values of numerals -/

/-- The number of digits `ds` of which the first `point` stand before the point, with zeros in the
    places that they do not reach. -/
def decimalAt (ds : List Digit) (point : Int) : ℚ :=
  digitsValue ds * 10 ^ (point - ds.length)

/-- The number that a numeral denotes: its exponent moves the point behind its whole part. -/
def Numeral.value (n : Numeral) : ℚ :=
  decimalAt (n.whole ++ n.fraction) (n.whole.length + n.exponent.getD 0)

/-- Zeros at the end do not change a number whose point stays. -/
theorem decimalAt_append_zeros (ds : List Digit) (n : Nat) (point : Int) :
    decimalAt (ds ++ zeros n) point = decimalAt ds point := by
  have hten : (10 : ℚ) ≠ 0 := by norm_num
  have hmove : point - (ds.length : Int) = n + (point - (ds.length + n : Nat)) := by
    push_cast
    ring
  rw [decimalAt, decimalAt, digitsValue_append_zeros, List.length_append, length_zeros, hmove,
    zpow_add₀ hten, zpow_natCast]
  push_cast
  ring

/-- Zeros in front move the point along. -/
theorem decimalAt_zeros_append (n : Nat) (ds : List Digit) (point : Int) :
    decimalAt (zeros n ++ ds) (n + point) = decimalAt ds point := by
  have hmove : (n : Int) + point - (n + ds.length : Nat) = point - ds.length := by
    push_cast
    ring
  rw [decimalAt, decimalAt, digitsValue_zeros_append, List.length_append, length_zeros, hmove]

/-! ## 3. Reading -/

/-- The digits at the front of a text, and what follows them. -/
def leadingDigits : List Char → List Digit × List Char
  | [] => ([], [])
  | c :: rest =>
    match Digit.ofChar? c with
    | some d => (d :: (leadingDigits rest).1, (leadingDigits rest).2)
    | none => ([], c :: rest)

/-- Digits are taken off the front of a text that goes on with another character. -/
theorem leadingDigits_append (ds : List Digit) {rest : List Char}
    (h : ∀ c ∈ rest.head?, Digit.ofChar? c = none) :
    leadingDigits (digitChars ds ++ rest) = (ds, rest) := by
  induction ds with
  | nil =>
    cases rest with
    | nil => rfl
    | cons c rest =>
      rw [show digitChars [] ++ c :: rest = c :: rest from rfl, leadingDigits, h c rfl]
  | cons d ds ih =>
    rw [show digitChars (d :: ds) ++ rest = d.char :: (digitChars ds ++ rest) from rfl,
      leadingDigits, d.ofChar?_char, ih]

/-- The exponent that a text consists of: an `e`, a sign and digits, or nothing. -/
def readExponent? : List Char → Option (Option Int)
  | [] => some none
  | 'e' :: '+' :: rest =>
    match leadingDigits rest with
    | (d :: ds, []) => some (some (digitsValue (d :: ds)))
    | _ => none
  | 'e' :: '-' :: rest =>
    match leadingDigits rest with
    | (d :: ds, []) => some (some (-digitsValue (d :: ds)))
    | _ => none
  | _ => none

/-- The numeral that a text consists of: digits, perhaps a point and digits, and perhaps an
    exponent. -/
def Numeral.read? (cs : List Char) : Option Numeral :=
  match leadingDigits cs with
  | ([], _) => none
  | (whole, '.' :: rest) =>
    match leadingDigits rest with
    | ([], _) => none
    | (fraction, rest) => (readExponent? rest).map fun exponent => ⟨whole, fraction, exponent⟩
  | (whole, rest) => (readExponent? rest).map fun exponent => ⟨whole, [], exponent⟩

/-- The number that a text denotes: a numeral, perhaps behind a minus sign. -/
def decimalValue? (s : String) : Option ℚ :=
  match s.toList with
  | '-' :: cs => (Numeral.read? cs).map fun n => -n.value
  | cs => (Numeral.read? cs).map Numeral.value

theorem digits_ne_nil (n : Nat) : digits n ≠ [] := digitsOnto_ne_nil _ _ _

/-- What is written for an exponent, if there is one. -/
def exponentTail : Option Int → List Char
  | none => []
  | some e => Numeral.exponentText e

theorem Numeral.text_eq (n : Numeral) :
    n.text = positionalText n.whole n.fraction ++ exponentTail n.exponent := rfl

/-- The exponent is not taken for a part of the digits before it. -/
theorem exponentTail_head (exponent : Option Int) :
    ∀ c ∈ (exponentTail exponent).head?, Digit.ofChar? c = none ∧ c ≠ '.' := by
  cases exponent with
  | none => simp [exponentTail]
  | some e => simp [exponentTail, Numeral.exponentText, Digit.ofChar?]

theorem readExponent?_tail (exponent : Option Int) :
    readExponent? (exponentTail exponent) = some exponent := by
  cases exponent with
  | none => rfl
  | some e =>
    have hdigits : leadingDigits (digitChars (digits e.natAbs)) = (digits e.natAbs, []) := by
      rw [← List.append_nil (digitChars _)]
      exact leadingDigits_append _ (by simp)
    have hvalue := digitsValue_digits e.natAbs
    obtain ⟨d, ds, hcons⟩ := List.exists_cons_of_ne_nil (digits_ne_nil e.natAbs)
    rw [hcons] at hdigits hvalue
    simp only [exponentTail, Numeral.exponentText, hcons]
    by_cases he : e < 0
    · rw [if_pos he, readExponent?, hdigits]
      simp only [hvalue, Option.some.injEq]
      omega
    · rw [if_neg he, readExponent?, hdigits]
      simp only [hvalue, Option.some.injEq]
      omega

/-- **A numeral is read back from its text.** -/
theorem Numeral.read?_text {n : Numeral} (h : n.whole ≠ []) : read? n.text = some n := by
  obtain ⟨whole, fraction, exponent⟩ := n
  obtain ⟨d, ds, rfl⟩ := List.exists_cons_of_ne_nil h
  have hexponent := readExponent?_tail exponent
  have hend := exponentTail_head exponent
  have hlast (ds : List Digit) : leadingDigits (digitChars ds ++ exponentTail exponent) =
      (ds, exponentTail exponent) := leadingDigits_append ds fun c hc => (hend c hc).1
  cases fraction with
  | nil =>
    have htext : text ⟨d :: ds, [], exponent⟩ = digitChars (d :: ds) ++ exponentTail exponent := rfl
    rw [htext, read?, hlast]
    cases htail : exponentTail exponent with
    | nil =>
      rw [htail] at hexponent
      simp [hexponent]
    | cons c tail =>
      rw [htail] at hexponent hend
      have hc : c ≠ '.' := (hend c rfl).2
      simp [hexponent, hc]
  | cons f fs =>
    have htext : text ⟨d :: ds, f :: fs, exponent⟩ =
        digitChars (d :: ds) ++ '.' :: (digitChars (f :: fs) ++ exponentTail exponent) := by
      rw [text_eq, positionalText, List.append_assoc, List.cons_append]
      exact fun h => absurd h (List.cons_ne_nil _ _)
    have hfirst : leadingDigits
        (digitChars (d :: ds) ++ '.' :: (digitChars (f :: fs) ++ exponentTail exponent)) =
          (d :: ds, '.' :: (digitChars (f :: fs) ++ exponentTail exponent)) := by
      refine leadingDigits_append _ fun c hc => ?_
      obtain rfl := Option.some.inj hc
      decide
    rw [htext, read?, hfirst]
    simp only [hlast, hexponent, Option.map_some]

/-- A text that begins with a digit has no sign. -/
theorem Numeral.text_head {n : Numeral} (h : n.whole ≠ []) :
    ∃ d cs, n.text = Digit.char d :: cs := by
  obtain ⟨whole, fraction, exponent⟩ := n
  obtain ⟨d, ds, rfl⟩ := List.exists_cons_of_ne_nil h
  cases fraction with
  | nil => exact ⟨d, _, rfl⟩
  | cons f fs => exact ⟨d, _, rfl⟩

/-- **The text of a numeral denotes its number.** -/
theorem decimalValue?_text {n : Numeral} (h : n.whole ≠ []) :
    decimalValue? (String.ofList n.text) = some n.value := by
  obtain ⟨d, cs, htext⟩ := Numeral.text_head h
  have hread := Numeral.read?_text h
  rw [htext] at hread ⊢
  have hsign : d.char ≠ '-' := d.char_ne_hyphen
  simp [decimalValue?, hread, hsign]

/-- Behind a minus sign it denotes the opposite number. -/
theorem decimalValue?_neg_text {n : Numeral} (h : n.whole ≠ []) :
    decimalValue? ("-" ++ String.ofList n.text) = some (-n.value) := by
  simp [decimalValue?, Numeral.read?_text h]

end QueryPipeline
