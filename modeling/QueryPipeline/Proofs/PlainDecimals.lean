import QueryPipeline.Proofs.Decimals

/-!
# Plain decimals

A numeral with an exponent is written without one by moving its point, over its digits and beyond
them.

* `Numeral.Canonical` are the numerals without superfluous zeros in front, and `IsPlainDecimal` the
  texts of digits around a point;
* `decimalAt_pointAt`: the digits around the moved point denote the same number;
* **`Numeral.plainText_denotes`**: the plain text of a canonical numeral is a plain decimal and
  denotes its number;
* `Numeral.ofDecimal_value`, `Numeral.ofDecimal_canonical`: the form that is chosen for digits
  denotes their number, and is canonical.
-/

namespace QueryPipeline

/-! ## 1. Canonical numerals and plain decimals -/

/-- Digits of which the first is not zero. -/
def Leading (ds : List Digit) : Prop := ∃ d rest, ds = d :: rest ∧ d ≠ .zero

/-- The digits of a whole number without superfluous zeros in front. -/
def Trimmed (ds : List Digit) : Prop := ds = [.zero] ∨ Leading ds

/-- A numeral as it is written in a text: without an exponent its whole part has no superfluous
    zeros, and before an exponent it is a single digit other than zero. -/
def Numeral.Canonical (n : Numeral) : Prop :=
  match n.exponent with
  | none => Trimmed n.whole
  | some _ => ∃ d, n.whole = [d] ∧ d ≠ .zero

/-- A text `0` or digits that begin with another one, a point and digits, perhaps behind a minus
    sign. -/
def IsPlainDecimal (s : String) : Prop :=
  ∃ sign whole fraction, s.toList = sign ++ (whole ++ '.' :: fraction) ∧
    (sign = [] ∨ sign = ['-']) ∧
    (whole = ['0'] ∨ ∃ c rest, whole = c :: rest ∧ c ≠ '0' ∧ ∀ d ∈ whole, d.isDigit = true) ∧
    fraction ≠ [] ∧ ∀ d ∈ fraction, d.isDigit = true

theorem Leading.ne_nil {ds : List Digit} (h : Leading ds) : ds ≠ [] := by
  obtain ⟨d, rest, rfl, _⟩ := h
  exact List.cons_ne_nil d rest

theorem Leading.append {ds : List Digit} (h : Leading ds) (more : List Digit) :
    Leading (ds ++ more) := by
  obtain ⟨d, rest, rfl, hd⟩ := h
  exact ⟨d, rest ++ more, rfl, hd⟩

theorem Leading.take {ds : List Digit} (h : Leading ds) (n : Nat) : Leading (ds.take (n + 1)) := by
  obtain ⟨d, rest, rfl, hd⟩ := h
  exact ⟨d, rest.take n, rfl, hd⟩

theorem Trimmed.ne_nil {ds : List Digit} (h : Trimmed ds) : ds ≠ [] := by
  rcases h with rfl | h
  · exact List.cons_ne_nil _ _
  · exact h.ne_nil

theorem Numeral.Canonical.ne_nil {n : Numeral} (h : n.Canonical) : n.whole ≠ [] := by
  unfold Canonical at h
  cases hexponent : n.exponent with
  | none =>
    rw [hexponent] at h
    exact Trimmed.ne_nil h
  | some e =>
    rw [hexponent] at h
    obtain ⟨d, hd, _⟩ := h
    rw [hd]
    exact List.cons_ne_nil _ _

/-! ## 2. Moving the point -/

theorem zeros_succ (n : Nat) : zeros (n + 1) = .zero :: zeros n := rfl

theorem zeros_append (m n : Nat) : zeros m ++ zeros n = zeros (m + n) :=
  List.replicate_append_replicate

namespace Numeral

/-- **The digits around the point denote the number whose point stands there**: in front of the
    digits, behind them or among them. -/
theorem decimalAt_pointAt (ds : List Digit) (point : Int) :
    decimalAt ((pointAt ds point).1 ++ (pointAt ds point).2) (pointAt ds point).1.length =
      decimalAt ds point := by
  match point with
  | .ofNat 0 => exact decimalAt_zeros_append 1 ds 0
  | .negSucc n =>
    have hpoint : ((n + 2 : Nat) : Int) + Int.negSucc n = 1 := by
      omega
    have hzeros := decimalAt_zeros_append (n + 2) ds (.negSucc n)
    rw [hpoint] at hzeros
    exact hzeros
  | .ofNat (n + 1) =>
    rw [pointAt]
    by_cases hlength : ds.length ≤ n + 1
    · rw [if_pos hlength]
      have hzeros : ds ++ zeros (n + 1 - ds.length) ++ [.zero] =
          ds ++ zeros (n + 1 - ds.length + 1) := by
        rw [List.append_assoc, ← zeros_append]
        rfl
      have hpoint : (ds ++ zeros (n + 1 - ds.length)).length = n + 1 := by
        rw [List.length_append, length_zeros]
        omega
      rw [hpoint, hzeros, decimalAt_append_zeros]
      rfl
    · rw [if_neg hlength]
      have hpoint : (ds.take (n + 1)).length = n + 1 := List.length_take_of_le (by omega)
      rw [hpoint, List.take_append_drop]
      rfl

theorem pointAt_fraction (ds : List Digit) (point : Int) (h : ds ≠ []) :
    (pointAt ds point).2 ≠ [] := by
  match point with
  | .ofNat 0 => exact h
  | .negSucc n => exact List.cons_ne_nil _ _
  | .ofNat (n + 1) =>
    rw [pointAt]
    by_cases hlength : ds.length ≤ n + 1
    · rw [if_pos hlength]
      exact List.cons_ne_nil _ _
    · rw [if_neg hlength]
      intro hempty
      exact hlength (List.drop_eq_nil_iff.mp hempty)

theorem pointAt_trimmed {ds : List Digit} (h : Leading ds) (point : Int) :
    Trimmed (pointAt ds point).1 := by
  match point with
  | .ofNat 0 => exact Or.inl rfl
  | .negSucc n => exact Or.inl rfl
  | .ofNat (n + 1) =>
    rw [pointAt]
    by_cases hlength : ds.length ≤ n + 1
    · rw [if_pos hlength]
      exact Or.inr (h.append _)
    · rw [if_neg hlength]
      exact Or.inr (h.take n)

variable {n : Numeral}

/-- A numeral without its exponent, with the digits on the two sides of the moved point. -/
def positional (n : Numeral) : Numeral := ⟨n.plain.1, n.plain.2, none⟩

/-- **Moving the point keeps the number.** -/
theorem positional_value (n : Numeral) : n.positional.value = n.value := by
  obtain ⟨whole, fraction, exponent⟩ := n
  cases exponent with
  | none =>
    cases fraction with
    | nil =>
      have hzero := decimalAt_append_zeros whole 1 (whole.length + 0)
      simpa [value, positional, plain, zeros] using hzero
    | cons f fs => rfl
  | some e =>
    have hmoved := decimalAt_pointAt (whole ++ fraction) (whole.length + e)
    simpa [value, positional, plain] using hmoved

/-- The two sides of the point of a canonical numeral. -/
theorem Canonical.plain (h : n.Canonical) : Trimmed n.plain.1 ∧ n.plain.2 ≠ [] := by
  obtain ⟨whole, fraction, exponent⟩ := n
  cases exponent with
  | none =>
    cases fraction with
    | nil => exact ⟨h, List.cons_ne_nil _ _⟩
    | cons f fs => exact ⟨h, List.cons_ne_nil _ _⟩
  | some e =>
    obtain ⟨d, hwhole, hd⟩ := h
    obtain rfl : whole = [d] := hwhole
    have hleading : Leading ([d] ++ fraction) := ⟨d, fraction, rfl, hd⟩
    exact ⟨pointAt_trimmed hleading _, pointAt_fraction _ _ hleading.ne_nil⟩

theorem Canonical.plainText_eq (h : n.Canonical) : n.plainText = n.positional.text := by
  obtain ⟨f, fs, hfraction⟩ := List.exists_cons_of_ne_nil h.plain.2
  have htext : n.positional.text = digitChars n.plain.1 ++ '.' :: digitChars n.plain.2 := by
    rw [text_eq, positional, hfraction]
    exact List.append_nil _
  exact htext.symm

end Numeral

/-! ## 3. Texts of plain decimals -/

theorem isDigit_char (d : Digit) : d.char.isDigit = true := by
  revert d
  decide

theorem isDigit_digitChars (ds : List Digit) : ∀ c ∈ digitChars ds, c.isDigit = true := by
  intro c hc
  obtain ⟨d, _, rfl⟩ := List.mem_map.mp hc
  exact isDigit_char d

theorem char_ne_zero {d : Digit} (h : d ≠ .zero) : d.char ≠ '0' :=
  fun he => h (d.char_injective .zero he)

namespace Numeral

variable {n : Numeral} {sign : String}

/-- **The plain text of a canonical numeral** is a plain decimal, with a sign or without. -/
theorem Canonical.isPlainDecimal (h : n.Canonical) (hsign : sign = "" ∨ sign = "-") :
    IsPlainDecimal (sign ++ String.ofList n.plainText) := by
  obtain ⟨htrimmed, hfraction⟩ := h.plain
  refine ⟨sign.toList, digitChars n.plain.1, digitChars n.plain.2, ?_, ?_, ?_, ?_, ?_⟩
  · rw [String.toList_append, String.toList_ofList]
    rfl
  · rcases hsign with rfl | rfl
    · exact Or.inl rfl
    · exact Or.inr rfl
  · rcases htrimmed with hzero | ⟨d, rest, hcons, hd⟩
    · exact Or.inl (by rw [hzero]; rfl)
    · refine Or.inr ⟨d.char, digitChars rest, by rw [hcons]; rfl, char_ne_zero hd, ?_⟩
      exact isDigit_digitChars _
  · exact fun hempty => hfraction (List.map_eq_nil_iff.mp hempty)
  · exact isDigit_digitChars _

/-- A plain decimal begins with a minus sign iff it has one: a digit is none. -/
theorem Canonical.plainText_head (h : n.Canonical) (hsign : sign = "" ∨ sign = "-") :
    (sign ++ String.ofList n.plainText).toList.head? = some '-' ↔ sign = "-" := by
  obtain ⟨d, cs, htext⟩ := text_head (n := n.positional) h.plain.1.ne_nil
  rw [h.plainText_eq, htext]
  rcases hsign with rfl | rfl
  · have hdigit : d.char ≠ '-' := d.char_ne_hyphen
    simp [hdigit]
  · simp

/-- **The plain text of a canonical numeral denotes the number that its text denotes**, with the
    same sign before both. -/
theorem Canonical.plainText_denotes (h : n.Canonical) (hsign : sign = "" ∨ sign = "-") :
    ∃ y, decimalValue? (sign ++ String.ofList n.text) = some y ∧
      decimalValue? (sign ++ String.ofList n.plainText) = some y := by
  have hpositional : n.positional.whole ≠ [] := h.plain.1.ne_nil
  rw [h.plainText_eq]
  rcases hsign with rfl | rfl
  · refine ⟨n.value, ?_, ?_⟩
    · rw [String.empty_append, decimalValue?_text h.ne_nil]
    · rw [String.empty_append, decimalValue?_text hpositional, positional_value]
  · refine ⟨-n.value, decimalValue?_neg_text h.ne_nil, ?_⟩
    rw [decimalValue?_neg_text hpositional, positional_value]

end Numeral

/-! ## 4. Chosen forms -/

namespace Numeral

variable {ds : List Digit}

/-- **The form that is chosen for digits denotes their number.** -/
theorem ofDecimal_value (h : ds ≠ []) (point : Int) :
    (ofDecimal ds point).value = decimalAt ds point := by
  unfold ofDecimal
  by_cases hnear : 0 < point ∧ point ≤ 21
  · rw [if_pos hnear]
    have hpoint : (point.toNat : Int) = point := Int.toNat_of_nonneg (by omega)
    by_cases hlength : ds.length ≤ point.toNat
    · rw [if_pos hlength]
      have hwhole : ((ds ++ zeros (point.toNat - ds.length)).length : Int) + 0 = point := by
        rw [List.length_append, length_zeros]
        omega
      show decimalAt (ds ++ zeros _ ++ []) _ = _
      rw [Option.getD_none, hwhole, List.append_nil, decimalAt_append_zeros]
    · rw [if_neg hlength]
      have hwhole : ((ds.take point.toNat).length : Int) + 0 = point := by
        rw [List.length_take_of_le (by omega)]
        omega
      show decimalAt (ds.take _ ++ ds.drop _) _ = _
      rw [Option.getD_none, hwhole, List.take_append_drop]
  · rw [if_neg hnear]
    by_cases hfront : -6 < point ∧ point ≤ 0
    · rw [if_pos hfront]
      have hpoint : (1 : Int) + 0 = (point.natAbs + 1 : Nat) + point := by
        omega
      show decimalAt ([.zero] ++ (zeros point.natAbs ++ ds)) (1 + 0) = _
      rw [hpoint, ← List.append_assoc, List.singleton_append, ← zeros_succ, decimalAt_zeros_append]
    · rw [if_neg hfront]
      have hone : 1 ≤ ds.length := List.length_pos_iff.mpr h
      have hwhole : ((ds.take 1).length : Int) + (point - 1) = point := by
        rw [List.length_take_of_le hone]
        omega
      show decimalAt (ds.take 1 ++ ds.drop 1) _ = _
      rw [Option.getD_some, hwhole, List.take_append_drop]

/-- **The chosen form is canonical** for digits of which the first is not zero. -/
theorem ofDecimal_canonical (h : Leading ds) (point : Int) : (ofDecimal ds point).Canonical := by
  unfold ofDecimal
  by_cases hnear : 0 < point ∧ point ≤ 21
  · rw [if_pos hnear]
    by_cases hlength : ds.length ≤ point.toNat
    · rw [if_pos hlength]
      exact Or.inr (h.append _)
    · rw [if_neg hlength]
      obtain ⟨n, hn⟩ : ∃ n, point.toNat = n + 1 := ⟨point.toNat - 1, by omega⟩
      rw [hn]
      exact Or.inr (h.take n)
  · rw [if_neg hnear]
    by_cases hfront : -6 < point ∧ point ≤ 0
    · rw [if_pos hfront]
      exact Or.inl rfl
    · rw [if_neg hfront]
      obtain ⟨d, rest, rfl, hd⟩ := h
      exact ⟨d, rfl, hd⟩

end Numeral
end QueryPipeline
