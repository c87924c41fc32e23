import Mathlib.Algebra.Group.Nat.Defs
import Mathlib.Data.List.Basic
import Mathlib.Data.Option.Basic
import QueryPipeline.Expr.Literal
import QueryPipeline.Name
import QueryPipeline.Proofs.Outcome
import QueryPipeline.Text.Quoted

/-!
# Words

The parts of a rendered pipeline that have no structure of their own: names, numbers, truth values,
quoted texts and dates.

* a word is made of letters, digits, underscores, hyphens and points; identifiers, numbers and dates
  are words (`isWord_of_identifier`, `isWord_intText`, `isWord_plainText`, `isWord_of_read?`);
* a word is taken off the front of a text up to the first character of another sort
  (`takeWhile_word`, `dropWhile_word`);
* `Date.WrittenIn` are the texts of four, two and two digits with hyphens between them: those that
  are read as a date (`Date.read?_eq_some_iff`);
* a whole number is determined by its text (`intText_injective`), and a quoted value is read back
  whatever follows it (`Quoted.scan_writeChars`).
-/

namespace QueryPipeline

/-! ## 1. Words -/

/-- A character of a word. -/
def isWordChar (c : Char) : Bool := isNameChar c || c == '-' || c == '.'

/-- A text that is one word. -/
structure IsWord (s : String) : Prop where
  nonempty : s.toList ≠ []
  chars : ∀ c ∈ s.toList, isWordChar c = true

instance (s : String) : Decidable (IsWord s) :=
  decidable_of_iff (s.toList ≠ [] ∧ s.toList.all isWordChar = true)
    ⟨fun h => ⟨h.1, List.all_eq_true.mp h.2⟩, fun h => ⟨h.nonempty, List.all_eq_true.mpr h.chars⟩⟩

/-- A text that no word goes on into, and that does not open the arguments of one. -/
def WordEnd (rest : List Char) : Prop :=
  ∀ c ∈ rest.head?, isWordChar c = false ∧ c ≠ '('

theorem WordEnd.head {rest : List Char} (h : WordEnd rest) :
    ∀ c ∈ rest.head?, isWordChar c = false := fun c hc => (h c hc).1

theorem takeWhile_word {s : String} (h : IsWord s) {rest : List Char}
    (hrest : ∀ c ∈ rest.head?, isWordChar c = false) :
    (s.toList ++ rest).takeWhile isWordChar = s.toList := by
  rw [List.takeWhile_append_of_pos h.chars]
  cases rest with
  | nil => simp
  | cons c rest => simp [hrest c rfl]

theorem dropWhile_word {s : String} (h : IsWord s) {rest : List Char}
    (hrest : ∀ c ∈ rest.head?, isWordChar c = false) :
    (s.toList ++ rest).dropWhile isWordChar = rest := by
  rw [List.dropWhile_append_of_pos h.chars]
  cases rest with
  | nil => rfl
  | cons c rest => simp [hrest c rfl]

/-- A word starts with a character of a word. -/
theorem IsWord.cons {s : String} (h : IsWord s) :
    ∃ c cs, s.toList = c :: cs ∧ isWordChar c = true := by
  cases hs : s.toList with
  | nil => exact absurd hs h.nonempty
  | cons c cs => exact ⟨c, cs, rfl, h.chars c (by simp [hs])⟩

theorem isWord_append {s t : String} (hs : IsWord s) (ht : ∀ c ∈ t.toList, isWordChar c = true) :
    IsWord (s ++ t) := by
  refine ⟨?_, fun c hc => ?_⟩
  · rw [String.toList_append]
    exact fun h => hs.nonempty (List.append_eq_nil_iff.mp h).1
  · rw [String.toList_append] at hc
    rcases List.mem_append.mp hc with hc | hc
    · exact hs.chars c hc
    · exact ht c hc

theorem isWord_of_identifier {s : String} (h : isIdentifier s = true) : IsWord s := by
  simp only [isIdentifier, Bool.and_eq_true, Bool.not_eq_true', List.all_eq_true] at h
  refine ⟨fun e => by simp [e] at h, fun c hc => ?_⟩
  simp [isWordChar, h.2 c hc]

/-- An identifier has no point in it. -/
theorem point_not_mem_identifier {s : String} (h : isIdentifier s = true) : '.' ∉ s.toList := by
  simp only [isIdentifier, Bool.and_eq_true, List.all_eq_true] at h
  intro hpoint
  exact absurd (h.2 '.' hpoint) (by decide)

/-! ## 2. Numbers -/

theorem isNameChar_digit (d : Digit) : isNameChar d.char = true := by
  revert d
  decide

theorem isWordChar_digit (d : Digit) : isWordChar d.char = true := by
  simp [isWordChar, isNameChar_digit]

theorem Digit.char_injective (d e : Digit) : d.char = e.char → d = e := by
  revert d e
  decide

/-- No digit is a hyphen. -/
theorem Digit.char_ne_hyphen (d : Digit) : d.char ≠ '-' := by
  revert d
  decide

theorem isWordChar_digitChars (ds : List Digit) : ∀ c ∈ digitChars ds, isWordChar c = true := by
  intro c hc
  obtain ⟨d, _, rfl⟩ := List.mem_map.mp hc
  exact isWordChar_digit d

theorem digitsOnto_ne_nil (steps n : Nat) (low : List Digit) : digitsOnto steps n low ≠ [] := by
  induction steps generalizing n low with
  | zero => exact List.cons_ne_nil _ _
  | succ steps ih =>
    rw [digitsOnto]
    split
    · exact List.cons_ne_nil _ _
    · exact ih _ _

theorem isWord_natText (n : Nat) : IsWord (natText n) := by
  refine ⟨?_, fun c hc => ?_⟩
  · simp [natText, digitChars, digits, digitsOnto_ne_nil]
  · rw [natText, String.toList_ofList] at hc
    exact isWordChar_digitChars _ c hc

/-- A column that is named by its position has an identifier as its name. -/
theorem isIdentifier_position (n : Nat) : isIdentifier ("column" ++ natText n) = true := by
  have hdigits : ∀ c ∈ digitChars (digits n), isNameChar c = true := by
    intro c hc
    obtain ⟨d, _, rfl⟩ := List.mem_map.mp hc
    exact isNameChar_digit d
  have htext : ("column" ++ natText n).toList = "column".toList ++ digitChars (digits n) := by
    simp [natText]
  rw [isIdentifier, htext, List.all_append, List.all_eq_true.mpr hdigits]
  rfl

theorem isWord_hyphen : IsWord "-" := by decide

theorem isWord_intText (n : Int) : IsWord (intText n) := by
  cases n with
  | ofNat n => exact isWord_natText n
  | negSucc n => exact isWord_append isWord_hyphen (isWord_natText (n + 1)).chars

/-- Digits are put in front of others without a change of the value, if there are steps enough. -/
theorem digitsValue_digitsOnto {steps n : Nat} (h : n < 10 ^ (steps + 1)) (low : List Digit) :
    digitsValueFrom 0 (digitsOnto steps n low) = digitsValueFrom n low := by
  have small {m : Nat} (hm : m < 10) (low : List Digit) :
      digitsValueFrom 0 (lastDigit m :: low) = digitsValueFrom m low := by
    have hlast : (lastDigit m).val = m := Nat.mod_eq_of_lt hm
    rw [digitsValueFrom, hlast]
    congr 1
    omega
  induction steps generalizing n low with
  | zero => exact small (by simpa using h) low
  | succ steps ih =>
    rw [digitsOnto]
    by_cases hn : n < 10
    · rw [if_pos hn]
      exact small hn low
    · rw [if_neg hn, ih (by rw [Nat.pow_succ] at h; omega), digitsValueFrom]
      have hlast : (lastDigit n).val = n % 10 := rfl
      rw [hlast]
      congr 1
      omega

/-- The steps that are taken for the digits of a number are enough. -/
theorem lt_ten_pow_log2 (n : Nat) : n < 10 ^ (n.log2 + 1) :=
  Nat.lt_of_lt_of_le Nat.lt_log2_self (Nat.pow_le_pow_left (by omega) _)

/-- **The digits of a number denote it.** -/
theorem digitsValue_digits (n : Nat) : digitsValue (digits n) = n :=
  digitsValue_digitsOnto (lt_ten_pow_log2 n) []

theorem natText_injective {m n : Nat} (h : natText m = natText n) : m = n := by
  have hchars : digitChars (digits m) = digitChars (digits n) := String.ofList_injective h
  have hdigits : digits m = digits n := (List.map_inj_right Digit.char_injective).mp hchars
  rw [← digitsValue_digits m, hdigits, digitsValue_digits]

/-- **A whole number is determined by its text.** -/
theorem intText_injective {m n : Int} (h : intText m = intText n) : m = n := by
  have hyphen (a b : Nat) : natText a ≠ "-" ++ natText b := by
    intro e
    have hmem : '-' ∈ (natText a).toList := by rw [e]; simp
    rw [natText, String.toList_ofList] at hmem
    obtain ⟨d, _, hd⟩ := List.mem_map.mp hmem
    exact d.char_ne_hyphen hd
  cases m with
  | ofNat m =>
    cases n with
    | ofNat n => rw [natText_injective h]
    | negSucc n => exact absurd h (hyphen _ _)
  | negSucc m =>
    cases n with
    | ofNat n => exact absurd h.symm (hyphen _ _)
    | negSucc n =>
      have := natText_injective (String.append_right_inj _ |>.mp h)
      rw [Nat.succ.inj this]

/-- A sign in front of a word. -/
theorem isWord_signed (v : Binary64) {s : String} (h : IsWord s) : IsWord (v.signText ++ s) := by
  unfold Binary64.signText
  cases v.isNegative with
  | true => exact isWord_append isWord_hyphen h.chars
  | false =>
    rw [if_neg Bool.false_ne_true, String.empty_append]
    exact h

/-- **A double is written as one word.** -/
theorem isWord_plainText (v : Binary64) : IsWord v.plainText := by
  unfold Binary64.plainText
  cases v.shape with
  | nan => exact (by decide : IsWord "NaN.0")
  | infinite negative => exact isWord_signed v (by decide : IsWord "Infinity.0")
  | finite negative m q =>
    refine isWord_signed v ⟨by simp [Numeral.plainText], fun c hc => ?_⟩
    rw [String.toList_ofList, Numeral.plainText] at hc
    rcases List.mem_append.mp hc with hc | hc
    · exact isWordChar_digitChars _ c hc
    · rcases List.mem_cons.mp hc with rfl | hc
      · decide
      · exact isWordChar_digitChars _ c hc

/-! ## 3. Dates -/

theorem Digit.ofChar?_char (d : Digit) : Digit.ofChar? d.char = some d := by
  revert d
  decide

theorem Digit.ofChar?_eq_some_iff {c : Char} {d : Digit} :
    Digit.ofChar? c = some d ↔ d.char = c := by
  constructor
  · intro h
    unfold ofChar? at h
    split at h
    · rename_i hc
      cases h
      have hcode : 48 + (c.toNat - 48) = c.toNat := by omega
      rw [char, hcode, Char.ofNat_toNat]
    · cases h
  · rintro rfl
    exact d.ofChar?_char

theorem mapM_ofChar?_eq_some_iff {cs : List Char} {ds : List Digit} :
    cs.mapM Digit.ofChar? = some ds ↔ digitChars ds = cs := by
  induction cs generalizing ds with
  | nil => cases ds <;> simp [digitChars]
  | cons c cs ih =>
    simp only [List.mapM_cons, Option.bind_eq_bind, Option.bind_eq_some_iff, ih,
      Digit.ofChar?_eq_some_iff]
    cases ds with
    | nil => simp [digitChars]
    | cons d ds => simp [digitChars]

namespace Date

variable {d : Date} {s : String}

/-- A text of four digits for the year, two for the month and two for the day, with hyphens
    between them. -/
def WrittenIn (d : Date) (s : String) : Prop :=
  ∃ year month day : List Digit, year.length = 4 ∧ month.length = 2 ∧ day.length = 2 ∧
    s.toList = digitChars year ++ '-' :: (digitChars month ++ '-' :: digitChars day) ∧
    d = ⟨digitsValue year, digitsValue month, digitsValue day⟩

theorem guard_eq_some_iff {p : Prop} [Decidable p] {u : Unit} :
    (guard p : Option Unit) = some u ↔ p := by
  by_cases h : p <;> simp [guard, h]

/-- **A text is read as the date that is written in it**, and no other text is read. -/
theorem read?_eq_some_iff : read? s = some d ↔ d.WrittenIn s := by
  constructor
  · intro h
    unfold read? at h
    split at h
    · rename_i y₁ y₂ y₃ y₄ h₁ m₁ m₂ h₂ d₁ d₂ hs
      simp only [Option.bind_eq_bind, Option.bind_eq_some_iff, mapM_ofChar?_eq_some_iff,
        guard_eq_some_iff, Option.some.injEq] at h
      obtain ⟨_, ⟨rfl, rfl⟩, year, hyear, month, hmonth, day, hday, rfl⟩ := h
      refine ⟨year, month, day, ?_, ?_, ?_, ?_, rfl⟩
      · rw [← List.length_map Digit.char]
        exact congrArg List.length hyear
      · rw [← List.length_map Digit.char]
        exact congrArg List.length hmonth
      · rw [← List.length_map Digit.char]
        exact congrArg List.length hday
      · rw [hs, hyear, hmonth, hday]
        rfl
    · cases h
  · rintro ⟨year, month, day, hyear, hmonth, hday, hs, rfl⟩
    obtain ⟨y₁, year, rfl⟩ := List.exists_cons_of_length_eq_add_one hyear
    obtain ⟨y₂, y₃, y₄, rfl⟩ := List.length_eq_three.mp (Nat.succ.inj hyear)
    obtain ⟨m₁, m₂, rfl⟩ := List.length_eq_two.mp hmonth
    obtain ⟨d₁, d₂, rfl⟩ := List.length_eq_two.mp hday
    have hchars : s.toList = [y₁.char, y₂.char, y₃.char, y₄.char, '-', m₁.char, m₂.char, '-',
      d₁.char, d₂.char] := hs
    unfold read?
    rw [hchars]
    simp [Digit.ofChar?_char]

end Date

/-- Four digits, two and two, with hyphens between them, are one word. -/
theorem isWord_dated {s : String} {year month day : List Digit}
    (hs : s.toList = digitChars year ++ '-' :: (digitChars month ++ '-' :: digitChars day)) :
    IsWord s := by
  refine ⟨by simp [hs], fun c hc => ?_⟩
  rw [hs] at hc
  rcases List.mem_append.mp hc with hc | hc
  · exact isWordChar_digitChars year c hc
  · rcases List.mem_cons.mp hc with rfl | hc
    · decide
    · rcases List.mem_append.mp hc with hc | hc
      · exact isWordChar_digitChars month c hc
      · rcases List.mem_cons.mp hc with rfl | hc
        · decide
        · exact isWordChar_digitChars day c hc

theorem isWord_dateText (d : Date) : IsWord d.text :=
  isWord_dated (String.toList_ofList.trans (List.append_assoc _ _ _))

/-- A text that is read as a date is one word. -/
theorem isWord_of_read? {s : String} {d : Date} (h : Date.read? s = some d) : IsWord s := by
  obtain ⟨year, month, day, _, _, _, hs, _⟩ := Date.read?_eq_some_iff.mp h
  exact isWord_dated hs

/-! ## 4. Quoted texts -/

namespace Quoted

theorem scanBody_quote (rest : List Char) : scanBody (quote :: rest) = some ([], rest) := by
  rw [scanBody.eq_def]
  rfl

theorem scanBody_escape (c : Char) (rest : List Char) :
    scanBody (escape :: c :: rest) = (scanBody rest).map fun (s, after) => (c :: s, after) := by
  rw [scanBody.eq_def]
  rfl

theorem scanBody_plain {c : Char} (hquote : c ≠ quote) (hescape : c ≠ escape) (rest : List Char) :
    scanBody (c :: rest) = (scanBody rest).map fun (s, after) => (c :: s, after) := by
  rw [scanBody.eq_def]
  simp only [if_neg hquote, if_neg hescape]

/-- **A quoted value is read back**, whatever follows it. -/
theorem scan_writeChars (s rest : List Char) : scan (writeChars s ++ rest) = some (s, rest) := by
  have hbody : scanBody (body s ++ quote :: rest) = some (s, rest) := by
    induction s with
    | nil => exact scanBody_quote rest
    | cons c s ih =>
      rw [body]
      by_cases hc : c = quote ∨ c = escape
      · rw [if_pos hc, List.cons_append, List.cons_append, scanBody_escape, ih]
        rfl
      · obtain ⟨hquote, hescape⟩ := not_or.mp hc
        rw [if_neg hc, List.cons_append, scanBody_plain hquote hescape, ih]
        rfl
  have hwritten : writeChars s ++ rest = quote :: (body s ++ quote :: rest) := by
    simp [writeChars]
  rw [hwritten, scan, if_pos rfl, hbody]

end Quoted
end QueryPipeline
