import Mathlib.Algebra.Order.Field.Power
import Mathlib.Data.List.TakeWhile
import QueryPipeline.Number.Shortest
import QueryPipeline.Proofs.PlainDecimals

/-!
# The texts of doubles

A double has two texts, one as it is shown, which is that of a whole number for the safe integers,
and a plain decimal. Both come from the fewest digits that read back to the double.

* `Binary64.value?` is the number that a finite double denotes;
* `Span.numeral_canonical`: the numeral that is found for a double is canonical;
* `Span.Around.covers_iff`: where doubles are not further apart than whole numbers, no other one
  lies in the interval of a whole number, so that its numeral denotes it
  (`Span.Around.numeral_whole`);
* `Binary64.text_eq`: the two ways to write a double as it is shown denote the same number;
* **`plain_decimals`**: the plain decimal of a double has a minus sign iff the double is negative,
  and denotes the same number as its text.
-/

namespace QueryPipeline

/-! ## 1. Digits of positive numbers -/

theorem digitsOnto_leading {steps n : Nat} (h : n < 10 ^ (steps + 1)) (hn : 0 < n)
    (low : List Digit) : Leading (digitsOnto steps n low) := by
  have last {n : Nat} (hn : 0 < n) (hsmall : n < 10) (low : List Digit) :
      Leading (lastDigit n :: low) := by
    refine ⟨lastDigit n, low, rfl, fun hzero => ?_⟩
    have hval : n % 10 = 0 := congrArg Fin.val hzero
    omega
  induction steps generalizing n low with
  | zero => exact last hn (by simpa using h) low
  | succ steps ih =>
    rw [digitsOnto]
    by_cases hsmall : n < 10
    · rw [if_pos hsmall]
      exact last hn hsmall low
    · rw [if_neg hsmall]
      exact ih (by rw [pow_succ] at h; omega) (by omega) _

/-- The digits of a positive number begin with another one than zero. -/
theorem digits_leading {n : Nat} (h : 0 < n) : Leading (digits n) :=
  digitsOnto_leading (lt_ten_pow_log2 n) h []

theorem digits_trimmed (n : Nat) : Trimmed (digits n) := by
  rcases Nat.eq_zero_or_pos n with rfl | h
  · exact Or.inl (by decide)
  · exact Or.inr (digits_leading h)

theorem Leading.pow_le {ds : List Digit} (h : Leading ds) :
    10 ^ (ds.length - 1) ≤ digitsValue ds := by
  obtain ⟨d, rest, rfl, hd⟩ := h
  have hpos : 1 ≤ d.val := Nat.one_le_iff_ne_zero.mpr fun hzero => hd (Fin.ext hzero)
  have hfirst : digitsValue [d] = d.val := by simp [digitsValue, digitsValueFrom]
  have hsplit := digitsValue_append [d] rest
  rw [hfirst] at hsplit
  have hpow : 1 * 10 ^ rest.length ≤ d.val * 10 ^ rest.length := Nat.mul_le_mul_right _ hpos
  simp only [List.singleton_append, List.length_cons, Nat.add_sub_cancel] at hsplit ⊢
  omega

/-- A number below a power of ten has at most as many digits as that has zeros. -/
theorem length_digits_le {n k : Nat} (h : n < 10 ^ k) (hn : 0 < n) : (digits n).length ≤ k := by
  have hpow := (digits_leading hn).pow_le
  rw [digitsValue_digits] at hpow
  have hlt := (Nat.pow_lt_pow_iff_right (by omega : 1 < 10)).mp (Nat.lt_of_le_of_lt hpow h)
  omega

/-- What is left out at the end are zeros. -/
theorem exists_dropTrailingZeros (ds : List Digit) :
    ∃ k, ds = dropTrailingZeros ds ++ zeros k := by
  have hsplit := List.takeWhile_append_dropWhile (p := (· == Digit.zero)) (l := ds.reverse)
  have hzeros : ds.reverse.takeWhile (· == Digit.zero) =
      zeros (ds.reverse.takeWhile (· == Digit.zero)).length := by
    refine List.eq_replicate_of_mem fun d hd => ?_
    simpa using List.mem_takeWhile_imp hd
  have hreverse := congrArg List.reverse hsplit
  rw [List.reverse_append, List.reverse_reverse, hzeros, zeros, List.reverse_replicate] at hreverse
  exact ⟨_, hreverse.symm⟩

theorem decimalAt_dropTrailingZeros (ds : List Digit) (point : Int) :
    decimalAt (dropTrailingZeros ds) point = decimalAt ds point := by
  obtain ⟨k, hk⟩ := exists_dropTrailingZeros ds
  conv_rhs => rw [hk]
  rw [decimalAt_append_zeros]

theorem Leading.dropTrailingZeros {ds : List Digit} (h : Leading ds) :
    Leading (dropTrailingZeros ds) := by
  obtain ⟨k, hk⟩ := exists_dropTrailingZeros ds
  obtain ⟨d, rest, hds, hd⟩ := h
  cases hkept : QueryPipeline.dropTrailingZeros ds with
  | nil =>
    rw [hkept, hds] at hk
    cases k with
    | zero => cases hk
    | succ k => exact absurd (List.cons.inj hk).1 hd
  | cons f fs =>
    rw [hkept, hds] at hk
    exact ⟨f, fs, rfl, (List.cons.inj hk).1 ▸ hd⟩

/-! ## 2. The numeral of an interval -/

namespace Span

variable {s : Span} {place : Int} {p : GridPoint} {n : Nat}

/-- A grid point that is found lies in the interval. -/
theorem covers_of_onGrid? (h : s.onGrid? place = some p) :
    p.place = place ∧ s.covers place p.steps = true := by
  have chosen {steps : Nat} (hcovers : s.covers place steps = true)
      (hp : some (GridPoint.mk steps place) = some p) :
      p.place = place ∧ s.covers place p.steps = true := by
    obtain rfl := Option.some.inj hp
    exact ⟨rfl, hcovers⟩
  -- both neighbours of the value lie in the interval in the last case only
  simp only [onGrid?] at h
  split at h
  · cases h
  · exact chosen ‹_› h
  · exact chosen ‹_› h
  · split at h
    · exact chosen ‹_› h
    · split at h
      · exact chosen ‹_› h
      · split at h
        · exact chosen ‹_› h
        · exact chosen ‹_› h

/-- A grid on which the value rounded down lies in the interval has a point. -/
theorem onGrid?_of_covers
    (h : s.covers place (s.value * (s.scale place).1 / (s.scale place).2) = true) :
    ∃ p, s.onGrid? place = some p := by
  unfold onGrid?
  simp only [h]
  cases s.covers place (s.value * (s.scale place).1 / (s.scale place).2 + 1) with
  | false => exact ⟨_, rfl⟩
  | true =>
    simp only
    split
    · exact ⟨_, rfl⟩
    · split
      · exact ⟨_, rfl⟩
      · split
        · exact ⟨_, rfl⟩
        · exact ⟨_, rfl⟩

theorem covers_of_shortest? (h : s.shortest? = some p) : s.covers p.place p.steps = true := by
  obtain ⟨i, _, hi⟩ := List.exists_of_findSome?_eq_some h
  obtain ⟨hplace, hcovers⟩ := covers_of_onGrid? hi
  rw [hplace]
  exact hcovers

/-- An interval of positive numbers. -/
structure Positive (s : Span) : Prop where
  low : 0 < s.low
  unit : 0 < s.unitNum

theorem Positive.scale (h : s.Positive) (place : Int) : 0 < (s.scale place).1 := by
  cases place with
  | ofNat p => exact h.unit
  | negSucc p => exact Nat.mul_pos h.unit (Nat.pow_pos (by omega))

/-- Zero does not lie in an interval of positive numbers. -/
theorem Positive.steps_pos (h : s.Positive) {steps : Nat} (hcovers : s.covers place steps = true) :
    0 < steps := by
  refine Nat.pos_of_ne_zero fun hzero => ?_
  subst hzero
  have hpos : 0 < s.low * (s.scale place).1 := Nat.mul_pos h.low (h.scale place)
  simp only [covers, Nat.zero_mul] at hcovers
  split at hcovers
  · simp only [Bool.and_eq_true, decide_eq_true_eq] at hcovers
    omega
  · simp only [Bool.and_eq_true, decide_eq_true_eq] at hcovers
    omega

/-- **The numeral of an interval of positive numbers is canonical.** -/
theorem numeral_canonical (h : s.Positive) : s.numeral.Canonical := by
  unfold numeral
  cases hshortest : s.shortest? with
  | none => exact digits_trimmed _
  | some p =>
    have hsteps := h.steps_pos (covers_of_shortest? hshortest)
    exact Numeral.ofDecimal_canonical (digits_leading hsteps).dropTrailingZeros _

/-- **The numeral of an interval denotes the grid point that is found.** -/
theorem numeral_value (h : s.Positive) (hshortest : s.shortest? = some p) :
    s.numeral.value = p.steps * 10 ^ p.place := by
  have hsteps := h.steps_pos (covers_of_shortest? hshortest)
  have hleading := (digits_leading hsteps).dropTrailingZeros
  have hplace : ((digits p.steps).length : Int) + p.place - (digits p.steps).length = p.place := by
    ring
  unfold numeral
  simp only [hshortest]
  rw [Numeral.ofDecimal_value hleading.ne_nil, decimalAt_dropTrailingZeros, decimalAt,
    digitsValue_digits, hplace]

/-! ## 3. Whole numbers -/

/-- An interval around a whole number that reaches less than halfway to the next ones. -/
structure Around (s : Span) (n : Nat) : Prop where
  unit : s.unitNum = 1
  value : s.value = n * s.unitDen
  wide : 4 ≤ s.unitDen
  below : s.low < s.value
  low : s.value ≤ s.low + 2
  above : s.value < s.high
  high : s.high ≤ s.value + 2

/-- **No other whole number lies in such an interval.** -/
theorem Around.covers_iff (h : s.Around n) (places steps : Nat) :
    s.covers (.ofNat places) steps = true ↔ steps * 10 ^ places = n := by
  have hscaled : steps * (s.unitDen * Nat.pow 10 places) = steps * 10 ^ places * s.unitDen := by
    rw [Nat.pow_eq]
    ring
  have hwide := h.wide
  have hvalue := h.value
  have hbelow := h.below
  have hlow := h.low
  have habove := h.above
  have hhigh := h.high
  simp only [covers, scale, h.unit, Nat.mul_one, hscaled]
  generalize steps * 10 ^ places = k
  constructor
  · intro hcovers
    have hbounds : s.low ≤ k * s.unitDen ∧ k * s.unitDen ≤ s.high := by
      split at hcovers
      · simpa using hcovers
      · have hstrict : s.low < k * s.unitDen ∧ k * s.unitDen < s.high := by simpa using hcovers
        omega
    rcases Nat.lt_trichotomy k n with hlt | heq | hgt
    · have hstep : (k + 1) * s.unitDen ≤ n * s.unitDen := Nat.mul_le_mul_right _ hlt
      rw [Nat.add_mul] at hstep
      omega
    · exact heq
    · have hstep : (n + 1) * s.unitDen ≤ k * s.unitDen := Nat.mul_le_mul_right _ hgt
      rw [Nat.add_mul] at hstep
      omega
  · rintro rfl
    rw [← hvalue]
    split
    · simp only [Bool.and_eq_true, decide_eq_true_eq]
      omega
    · simp only [Bool.and_eq_true, decide_eq_true_eq]
      omega

theorem Around.positive (h : s.Around n) (hn : 0 < n) : s.Positive := by
  have hvalue := h.value
  have hlow := h.low
  have hwide := h.wide
  have hpos : 1 * s.unitDen ≤ n * s.unitDen := Nat.mul_le_mul_right _ hn
  refine ⟨by omega, ?_⟩
  rw [h.unit]
  exact Nat.one_pos

/-- The point stands behind the digits of the whole number. -/
theorem Around.point_eq (h : s.Around n) (hn : 0 < n) : s.point = (digits n).length := by
  have hden : 0 < s.unitDen := Nat.lt_of_lt_of_le (by omega) h.wide
  have hle : s.unitDen ≤ n * s.unitDen := Nat.le_mul_of_pos_left _ hn
  rw [point, h.unit, Nat.mul_one, h.value]
  simp only [if_pos hle, Nat.mul_div_cancel _ hden]

/-- **The numeral of an interval around a whole number denotes it**: on the grids of whole numbers
    only the number itself is found, and on the last of them it is. -/
theorem Around.numeral_whole (h : s.Around n) (hn : 0 < n) (small : n < 10 ^ 16) :
    s.numeral.value = n := by
  have hpoint := h.point_eq hn
  have hlength := length_digits_le small hn
  have hpositive : 0 < (digits n).length := List.length_pos_iff.mpr (digits_ne_nil n)
  obtain ⟨k, hk⟩ : ∃ k, (digits n).length = k + 1 := ⟨_, (Nat.sub_add_cancel hpositive).symm⟩
  have hden : 0 < s.unitDen := Nat.lt_of_lt_of_le (by omega) h.wide
  have hlast : ∃ p, s.onGrid? (.ofNat 0) = some p := by
    refine onGrid?_of_covers ((h.covers_iff 0 _).mpr ?_)
    simp only [scale, h.unit, h.value, Nat.mul_one, Nat.pow_eq, Nat.pow_zero,
      Nat.mul_div_cancel _ hden]
  -- the grids of whole numbers come first, and one of them has a point
  have hsplit : List.range 17 = List.range (k + 1) ++ (List.range (16 - k)).map (k + 1 + ·) := by
    rw [← List.range_add]
    congr 1
    omega
  have hgrids {i : Nat} (hi : i < k + 1) : s.point - 1 - (i : Int) = .ofNat (k - i) := by
    rw [hpoint, hk]
    show ((k + 1 : Nat) : Int) - 1 - i = ((k - i : Nat) : Int)
    omega
  obtain ⟨p, hp⟩ : ∃ p, (List.range (k + 1)).findSome?
      (fun (i : Nat) => s.onGrid? (s.point - 1 - (i : Int))) = some p := by
    rw [← Option.isSome_iff_exists, List.findSome?_isSome_iff]
    obtain ⟨p, hp⟩ := hlast
    refine ⟨k, List.mem_range.mpr (Nat.lt_succ_self k), ?_⟩
    rw [hgrids (Nat.lt_succ_self k), Nat.sub_self, hp]
    rfl
  have hshortest : s.shortest? = some p := by
    rw [shortest?, hsplit, List.findSome?_append, hp]
    rfl
  obtain ⟨i, hi, hgrid⟩ := List.exists_of_findSome?_eq_some hp
  rw [hgrids (List.mem_range.mp hi)] at hgrid
  obtain ⟨hplace, hcovers⟩ := covers_of_onGrid? hgrid
  have hwhole := (h.covers_iff _ _).mp hcovers
  rw [numeral_value (h.positive hn) hshortest, hplace, ← hwhole]
  push_cast
  rfl

/-- The interval of a whole number `n` that is written as a multiple of `2 ^ -k`. -/
theorem around_ofMagnitude (hn : 0 < n) (k : Nat) (binadeStart : Bool) :
    (ofMagnitude (n * 2 ^ k) (-(k : Int)) binadeStart).Around n := by
  have hquarter : -(k : Int) - 2 = .negSucc (k + 1) := by
    omega
  have hpos : 0 < n * 2 ^ k := Nat.mul_pos hn (Nat.two_pow_pos k)
  have hden : 2 ^ (k + 2) = 4 * 2 ^ k := by
    rw [pow_add]
    ring
  have hlow : (if binadeStart then 4 * (n * 2 ^ k) - 1 else 4 * (n * 2 ^ k) - 2) <
      4 * (n * 2 ^ k) ∧ 4 * (n * 2 ^ k) ≤
        (if binadeStart then 4 * (n * 2 ^ k) - 1 else 4 * (n * 2 ^ k) - 2) + 2 := by
    cases binadeStart
    · simp only [Bool.false_eq_true, if_false]
      omega
    · simp only [if_true]
      omega
  unfold ofMagnitude
  rw [hquarter]
  refine ⟨rfl, ?_, ?_, hlow.1, hlow.2, ?_, Nat.le_refl _⟩
  · show 4 * (n * 2 ^ k) = n * 2 ^ (k + 2)
    rw [hden]
    ring
  · show 4 ≤ 2 ^ (k + 2)
    have hone := Nat.one_le_two_pow (n := k)
    omega
  · show 4 * (n * 2 ^ k) < 4 * (n * 2 ^ k) + 2
    omega

theorem positive_ofMagnitude {m : Nat} (hm : 0 < m) (q : Int) (binadeStart : Bool) :
    (ofMagnitude m q binadeStart).Positive := by
  constructor
  · show 0 < if binadeStart then 4 * m - 1 else 4 * m - 2
    split
    · omega
    · omega
  · unfold ofMagnitude
    cases q - 2 with
    | ofNat e => exact Nat.pow_pos (by omega)
    | negSucc e => exact Nat.one_pos

end Span

/-! ## 4. Doubles -/

namespace Binary64

variable {v : Binary64} {negative : Bool} {m n : Nat} {q : Int}

/-- The number that a finite double denotes. -/
def value? (v : Binary64) : Option ℚ :=
  match v.shape with
  | .finite negative m q => some (if negative then -(m * 2 ^ q) else m * 2 ^ q)
  | _ => none

/-- A significand has all its bits, or the double is one of the least ones. -/
theorem significand_of_shape (h : v.shape = .finite negative m q) :
    q = -1074 ∨ 2 ^ 52 ≤ m := by
  unfold shape at h
  split at h
  · split at h
    · cases h
    · cases h
  · split at h
    · cases h
      exact Or.inl rfl
    · cases h
      exact Or.inr (Nat.le_add_right _ _)

/-- A whole number of at most 53 bits is a multiple of the unit of its double, and that unit is
    not larger than one. -/
theorem exponent_of_whole (hshape : q = -1074 ∨ 2 ^ 52 ≤ m) (hwhole : wholeMagnitude? m q = some n)
    (small : n < 2 ^ 53) : ∃ k : Nat, q = -(k : Int) ∧ m = n * 2 ^ k := by
  cases q with
  | ofNat e =>
    have hm : 2 ^ 52 ≤ m := by
      rcases hshape with hq | hm
      · cases hq
      · exact hm
    have hn : m * 2 ^ e = n := Option.some.inj hwhole
    cases e with
    | zero => exact ⟨0, rfl, by omega⟩
    | succ e =>
      have hgap : 2 ^ 52 * 2 ≤ m * 2 ^ (e + 1) :=
        Nat.mul_le_mul hm (Nat.le_self_pow (Nat.succ_ne_zero e) 2)
      omega
  | negSucc e =>
    simp only [wholeMagnitude?] at hwhole
    by_cases hmod : m % Nat.pow 2 (e + 1) = 0
    · rw [if_pos hmod] at hwhole
      refine ⟨e + 1, rfl, ?_⟩
      rw [← Option.some.inj hwhole]
      exact (Nat.div_mul_cancel (Nat.dvd_of_mod_eq_zero hmod)).symm
    · rw [if_neg hmod] at hwhole
      cases hwhole

theorem magnitudeNumeral_canonical (v : Binary64) (m : Nat) (q : Int) :
    (v.magnitudeNumeral m q).Canonical := by
  unfold magnitudeNumeral
  by_cases hm : m = 0
  · rw [if_pos hm]
    exact Or.inl rfl
  · rw [if_neg hm]
    exact Span.numeral_canonical (Span.positive_ofMagnitude (Nat.pos_of_ne_zero hm) _ _)

/-- The numeral of a whole number. -/
def wholeNumeral (n : Nat) : Numeral := ⟨digits n, [], none⟩

theorem wholeNumeral_value (n : Nat) : (wholeNumeral n).value = n := by
  show decimalAt (digits n ++ []) ((digits n).length + 0) = n
  rw [List.append_nil, add_zero, decimalAt, sub_self, zpow_zero, mul_one, digitsValue_digits]

/-- **The numeral of a double that is a whole number of at most 53 bits denotes it.** -/
theorem magnitudeNumeral_whole (hshape : q = -1074 ∨ 2 ^ 52 ≤ m)
    (hwhole : wholeMagnitude? m q = some n) (small : n < 2 ^ 53) :
    (v.magnitudeNumeral m q).value = n := by
  obtain ⟨k, rfl, rfl⟩ := exponent_of_whole hshape hwhole small
  unfold magnitudeNumeral
  rcases Nat.eq_zero_or_pos n with rfl | hn
  · rw [if_pos (Nat.zero_mul _)]
    exact wholeNumeral_value 0
  · rw [if_neg (Nat.mul_pos hn (Nat.two_pow_pos k)).ne']
    exact (Span.around_ofMagnitude hn k _).numeral_whole hn (Nat.lt_trans small (by decide))

theorem decimalValue?_signText {t : Numeral} (v : Binary64) (h : t.whole ≠ []) :
    decimalValue? (v.signText ++ String.ofList t.text) =
      some (if v.isNegative then -t.value else t.value) := by
  cases hnegative : v.isNegative with
  | false =>
    rw [signText, hnegative, if_neg Bool.false_ne_true, if_neg Bool.false_ne_true,
      String.empty_append, decimalValue?_text h]
  | true => rw [signText, hnegative, if_pos rfl, if_pos rfl, decimalValue?_neg_text h]

theorem isNegative_of_shape (h : v.shape = .finite negative m q) :
    v.isNegative = (negative && m != 0) := by
  rw [isNegative, h]

/-- The magnitude of the whole number that a double denotes. -/
theorem wholeMagnitude?_of_toInt? {z : Int} (h : v.shape = .finite negative m q)
    (hz : v.toInt? = some z) :
    ∃ n : Nat, wholeMagnitude? m q = some n ∧ z = if negative then -(n : Int) else n := by
  simp only [toInt?, h] at hz
  cases hwhole : wholeMagnitude? m q with
  | none =>
    rw [hwhole] at hz
    cases hz
  | some n =>
    rw [hwhole] at hz
    exact ⟨n, rfl, (Option.some.inj hz).symm⟩

/-- A whole number is written with the sign of its double and the digits of its magnitude. -/
theorem intText_eq (h : v.shape = .finite negative m q) (hzero : m = 0 ↔ n = 0) :
    intText (if negative then -(n : Int) else n) =
      v.signText ++ String.ofList (wholeNumeral n).text := by
  have hdigits : (wholeNumeral n).text = digitChars (digits n) := List.append_nil _
  rw [hdigits, signText, isNegative_of_shape h]
  cases negative with
  | false => exact (String.empty_append).symm
  | true =>
    cases n with
    | zero =>
      obtain rfl := hzero.mpr rfl
      exact (String.empty_append).symm
    | succ n =>
      have hm : (m != 0) = true := bne_iff_ne.mpr fun hm => absurd (hzero.mp hm) (by omega)
      rw [hm]
      rfl

/-- **The text of a finite double** is that of a numeral which denotes the same number as the one
    with the fewest digits. -/
theorem text_eq (h : v.shape = .finite negative m q) :
    ∃ t : Numeral, t.whole ≠ [] ∧ t.value = (v.magnitudeNumeral m q).value ∧
      v.text = v.signText ++ String.ofList t.text := by
  cases hsafe : v.safeInteger? with
  | none =>
    refine ⟨v.magnitudeNumeral m q, (magnitudeNumeral_canonical v m q).ne_nil, rfl, ?_⟩
    rw [text, hsafe, shortestText, h]
  | some z =>
    obtain ⟨hz, safe⟩ := safeInteger?_eq_some_iff.mp hsafe
    obtain ⟨n, hwhole, rfl⟩ := wholeMagnitude?_of_toInt? h hz
    have small : n < 2 ^ 53 := by
      simp only [isSafeInteger, Bool.and_eq_true, decide_eq_true_eq] at safe
      split at safe
      · omega
      · omega
    have hshape := significand_of_shape h
    obtain ⟨k, _, hm⟩ := exponent_of_whole hshape hwhole small
    have hzero : m = 0 ↔ n = 0 := by
      rw [hm, Nat.mul_eq_zero, or_iff_left (Nat.two_pow_pos k).ne']
    refine ⟨wholeNumeral n, digits_ne_nil n, ?_, ?_⟩
    · rw [wholeNumeral_value, magnitudeNumeral_whole hshape hwhole small]
    · rw [text_of_toInt? hz safe, intText_eq h hzero]

theorem shape_of_isFinite (h : v.isFinite = true) :
    ∃ negative m q, v.shape = .finite negative m q := by
  unfold isFinite at h
  split at h
  · exact ⟨_, _, _, ‹_›⟩
  · cases h

/-- **A finite double** denotes a number, and is written with a minus sign iff that is negative. -/
theorem value?_of_shape (h : v.shape = .finite negative m q) :
    ∃ x, v.value? = some x ∧ (v.isNegative = true ↔ x < 0) := by
  have hunit : (0 : ℚ) < 2 ^ q := zpow_pos (by norm_num) q
  refine ⟨_, by rw [value?, h], ?_⟩
  rw [isNegative_of_shape h]
  cases negative with
  | false =>
    have hnonneg : (0 : ℚ) ≤ m * 2 ^ q := mul_nonneg (Nat.cast_nonneg m) hunit.le
    exact iff_of_false (by simp) (by simpa using hnonneg)
  | true =>
    rw [Bool.true_and, bne_iff_ne, if_pos rfl, neg_lt_zero, mul_pos_iff_of_pos_right hunit,
      Nat.cast_pos, Nat.pos_iff_ne_zero]

theorem plainText_of_shape (h : v.shape = .finite negative m q) :
    v.plainText = v.signText ++ String.ofList (v.magnitudeNumeral m q).plainText := by
  rw [plainText, h]

theorem signText_cases (v : Binary64) : v.signText = "" ∨ v.signText = "-" := by
  unfold signText
  cases v.isNegative with
  | false => exact Or.inl rfl
  | true => exact Or.inr rfl

/-- The text of a finite double and its plain decimal denote the same number. -/
theorem plainText_denotes (h : v.shape = .finite negative m q) :
    ∃ y, decimalValue? v.text = some y ∧ decimalValue? v.plainText = some y := by
  have hcanonical := magnitudeNumeral_canonical v m q
  have hpositional : (v.magnitudeNumeral m q).positional.whole ≠ [] := hcanonical.plain.1.ne_nil
  obtain ⟨t, ht, hvalue, htext⟩ := text_eq h
  rw [htext, plainText_of_shape h, hcanonical.plainText_eq]
  refine ⟨_, decimalValue?_signText v ht, ?_⟩
  rw [decimalValue?_signText v hpositional, Numeral.positional_value, hvalue]

end Binary64

/-! ## 5. Plain decimals of doubles -/

/-- **Plain decimals keep the number.** For every canonical numeral, with a sign or without,
    moving the point gives a plain decimal without an exponent that denotes the number of its
    text. The plain decimal of every finite double has that shape, begins with a minus sign iff
    the double is negative, and denotes the same number as the text of the double. -/
theorem plain_decimals :
    (∀ (n : Numeral) (sign : String), n.Canonical → sign = "" ∨ sign = "-" →
      IsPlainDecimal (sign ++ String.ofList n.plainText) ∧
      ((sign ++ String.ofList n.plainText).toList.head? = some '-' ↔ sign = "-") ∧
      ∃ y, decimalValue? (sign ++ String.ofList n.text) = some y ∧
        decimalValue? (sign ++ String.ofList n.plainText) = some y) ∧
    ∀ v : Binary64, v.isFinite = true →
      IsPlainDecimal v.plainText ∧
      (∃ x, v.value? = some x ∧ (v.plainText.toList.head? = some '-' ↔ x < 0)) ∧
      ∃ y, decimalValue? v.text = some y ∧ decimalValue? v.plainText = some y := by
  refine ⟨fun n sign h hsign => ⟨h.isPlainDecimal hsign, h.plainText_head hsign,
    h.plainText_denotes hsign⟩, fun v hfinite => ?_⟩
  obtain ⟨negative, m, q, hshape⟩ := Binary64.shape_of_isFinite hfinite
  obtain ⟨x, hx, hnegative⟩ := Binary64.value?_of_shape hshape
  have hcanonical := Binary64.magnitudeNumeral_canonical v m q
  have hsign : v.signText = "-" ↔ v.isNegative = true := by
    rw [Binary64.signText]
    cases v.isNegative with
    | false => decide
    | true => decide
  refine ⟨?_, ⟨x, hx, ?_⟩, Binary64.plainText_denotes hshape⟩
  · rw [Binary64.plainText_of_shape hshape]
    exact hcanonical.isPlainDecimal v.signText_cases
  · rw [Binary64.plainText_of_shape hshape, hcanonical.plainText_head v.signText_cases, hsign,
      hnegative]

/-- The negative of the double nearest to a ten-millionth. -/
def minusTenMillionth : Binary64 := ⟨0xBE7AD7F29ABCAF48⟩

/-- A point that is moved far behind the digits, and the negative double of a small magnitude. -/
theorem plain_decimals_extremes :
    (IsPlainDecimal "-1500000000000000000000.0" ∧
      ∃ y, decimalValue? "-1.5e+21" = some y ∧
        decimalValue? "-1500000000000000000000.0" = some y) ∧
    minusTenMillionth.isFinite = true ∧ minusTenMillionth.text = "-1e-7" ∧
      minusTenMillionth.plainText = "-0.0000001" ∧ IsPlainDecimal "-0.0000001" ∧
      (∃ x, minusTenMillionth.value? = some x ∧ x < 0) ∧
      ∃ y, decimalValue? "-1e-7" = some y ∧ decimalValue? "-0.0000001" = some y := by
  obtain ⟨hnumerals, hdoubles⟩ := plain_decimals
  have hcanonical : Numeral.Canonical ⟨[1], [5], some 21⟩ := ⟨1, rfl, by decide⟩
  have hlarge := hnumerals ⟨[1], [5], some 21⟩ "-" hcanonical (Or.inr rfl)
  have hlargeText : "-" ++ String.ofList (Numeral.text ⟨[1], [5], some 21⟩) = "-1.5e+21" := by
    decide
  have hlargePlain : "-" ++ String.ofList (Numeral.plainText ⟨[1], [5], some 21⟩) =
      "-1500000000000000000000.0" := by
    decide
  rw [hlargeText, hlargePlain] at hlarge
  have hfinite : minusTenMillionth.isFinite = true := by decide
  have htext : minusTenMillionth.text = "-1e-7" := by decide +kernel
  have hplain : minusTenMillionth.plainText = "-0.0000001" := by decide +kernel
  obtain ⟨hshape, ⟨x, hx, hnegative⟩, hdenotes⟩ := hdoubles minusTenMillionth hfinite
  rw [htext, hplain] at hdenotes
  rw [hplain] at hshape hnegative
  exact ⟨⟨hlarge.1, hlarge.2.2⟩, hfinite, htext, hplain, hshape, ⟨x, hx, hnegative.mp rfl⟩,
    hdenotes⟩

end QueryPipeline
