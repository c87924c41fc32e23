import QueryPipeline.Proofs.Words

/-!
# Quotations

A text in which values are quoted is made of parts: characters of its own, and values in quotes.

* `Quoted.text` writes parts, and `Quoted.fill` writes them with other values in the same places;
* `Quoted.parts?` reads a whole text from its front: it scans a value where a quote stands, and
  takes every other character as it is;
* **`scan_text`**: a value is scanned where it stands, whatever stands behind it;
* **`parts?_text_iff`**: so the parts of a text are read back iff none of its own characters is a
  quote.
-/

namespace QueryPipeline
namespace Quoted

/-! ## 1. Parts -/

/-- A part of a text: a character of its own, or a value in quotes. -/
inductive Part
  | plain (c : Char)
  | value (s : String)
  deriving DecidableEq, Repr

namespace Part

/-- The characters of a part. -/
def chars : Part → List Char
  | plain c => [c]
  | value s => writeChars s.toList

/-- The value of a part, if it is one. -/
def value? : Part → Option String
  | plain _ => none
  | value s => some s

/-- The part with its value changed; a character stays. -/
def map (f : String → String) : Part → Part
  | plain c => plain c
  | value s => value (f s)

end Part

/-- The text of some parts. -/
def text (parts : List Part) : String := String.ofList (parts.flatMap Part.chars)

/-- The values among some parts, in order. -/
def values (parts : List Part) : List String := parts.filterMap Part.value?

/-- The text of some parts with their values changed. -/
def fill (f : String → String) (parts : List Part) : String := text (parts.map (Part.map f))

/-- The parts of a text without values. -/
def own (s : String) : List Part := s.toList.map Part.plain

/-- None of the characters is a quote. -/
def Unquoted (s : String) : Prop := quote ∉ s.toList

instance (s : String) : Decidable (Unquoted s) := by
  unfold Unquoted
  infer_instance

@[simp] theorem unquoted_append {s t : String} : Unquoted (s ++ t) ↔ Unquoted s ∧ Unquoted t := by
  simp [Unquoted]

/-- No word has a quote in it. -/
theorem unquoted_of_isWord {s : String} (h : IsWord s) : Unquoted s :=
  fun hmem => absurd (h.chars quote hmem) (by decide)

/-! ## 2. Writing -/

section Writing

variable {f : String → String} {parts more : List Part} {lists : List (List Part)}

@[simp] theorem text_append : text (parts ++ more) = text parts ++ text more := by
  rw [text, List.flatMap_append, String.ofList_append]
  rfl

@[simp] theorem text_own (s : String) : text (own s) = s := by
  have hchars : (own s).flatMap Part.chars = s.toList := by
    rw [own, List.flatMap_map]
    exact List.flatMap_singleton' s.toList
  rw [text, hchars, String.ofList_toList]

@[simp] theorem text_value (s : String) : text [.value s] = write s := by
  rw [text, List.flatMap_singleton]
  rfl

@[simp] theorem fill_append : fill f (parts ++ more) = fill f parts ++ fill f more := by
  rw [fill, List.map_append, text_append]
  rfl

@[simp] theorem fill_own (s : String) : fill f (own s) = s := by
  have hsame : (own s).map (Part.map f) = own s := by
    rw [own, List.map_map]
    rfl
  rw [fill, hsame, text_own]

@[simp] theorem fill_value (s : String) : fill f [.value s] = write (f s) := text_value (f s)

/-- Nothing is changed by the identity. -/
theorem fill_id (parts : List Part) : fill id parts = text parts := by
  have hsame : Part.map id = id := by
    funext p
    cases p <;> rfl
  rw [fill, hsame, List.map_id]

theorem intercalate_fill (separator : String) (lists : List (List Part)) :
    separator.intercalate (lists.map (fill f)) =
      fill f ((own separator).intercalate lists) := by
  induction lists with
  | nil => rfl
  | cons parts rest ih =>
    cases rest with
    | nil => simp
    | cons more rest =>
      rw [List.map_cons] at ih ⊢
      rw [List.map_cons, String.intercalate_cons_cons, ih, List.intercalate_cons_cons, fill_append,
        fill_append, fill_own]

end Writing

/-! ## 3. Values and quotes of parts -/

section Contents

variable {parts more : List Part} {lists : List (List Part)} {c : Char}

@[simp] theorem values_append : values (parts ++ more) = values parts ++ values more :=
  List.filterMap_append

@[simp] theorem values_own (s : String) : values (own s) = [] := by
  rw [values, own, List.filterMap_map, List.filterMap_eq_nil_iff]
  exact fun _ _ => rfl

@[simp] theorem plain_mem_own (s : String) : .plain c ∈ own s ↔ c ∈ s.toList := by
  simp [own]

theorem values_intercalate (separator : String) (lists : List (List Part)) :
    values ((own separator).intercalate lists) = lists.flatMap values := by
  induction lists with
  | nil => rfl
  | cons parts rest ih =>
    cases rest with
    | nil => simp
    | cons more rest =>
      rw [List.intercalate_cons_cons, values_append, values_append, values_own, ih,
        List.append_nil, ← List.flatMap_cons]

/-- What stands in a list stands in a member of it or in the separator. -/
theorem not_mem_intercalate {p : Part} {separator : String} (h : p ∉ own separator)
    (hlists : ∀ parts ∈ lists, p ∉ parts) : p ∉ (own separator).intercalate lists := by
  induction lists with
  | nil => exact List.not_mem_nil
  | cons parts rest ih =>
    obtain ⟨hparts, hrest⟩ := List.forall_mem_cons.mp hlists
    cases rest with
    | nil => simpa using hparts
    | cons more rest =>
      rw [List.intercalate_cons_cons, List.mem_append, List.mem_append, not_or, not_or]
      exact ⟨⟨hparts, h⟩, ih hrest⟩

end Contents

/-! ## 4. Reading -/

theorem scanBody_length {cs s after : List Char} (h : scanBody cs = some (s, after)) :
    after.length < cs.length := by
  fun_induction scanBody cs generalizing s after with
  | case1 => cases h
  | case2 rest =>
    cases h
    exact Nat.lt_succ_self _
  | case3 => cases h
  | case4 hescape d rest ih =>
    obtain ⟨⟨s', after'⟩, hrest, hpair⟩ := Option.map_eq_some_iff.mp h
    cases hpair
    have := ih hrest
    simp only [List.length_cons]
    omega
  | case5 c rest hquote hescape ih =>
    obtain ⟨⟨s', after'⟩, hrest, hpair⟩ := Option.map_eq_some_iff.mp h
    cases hpair
    have := ih hrest
    simp only [List.length_cons]
    omega

/-- A scanned value is taken off the front. -/
theorem scan_length {cs s after : List Char} (h : scan cs = some (s, after)) :
    after.length < cs.length := by
  unfold scan at h
  split at h
  · cases h
  · rename_i c rest
    by_cases hquote : c = quote
    · rw [if_pos hquote] at h
      exact Nat.lt_succ_of_lt (scanBody_length h)
    · rw [if_neg hquote] at h
      cases h

/-- Reads a whole text: a value where a quote stands, and a character of the text elsewhere. A
    value that is not closed is not read. -/
def parts? : List Char → Option (List Part)
  | [] => some []
  | c :: rest =>
    if c = quote then
      match _h : scan (c :: rest) with
      | some (s, after) => (parts? after).map (.value (String.ofList s) :: ·)
      | none => none
    else (parts? rest).map (.plain c :: ·)
termination_by cs => cs.length
decreasing_by
  · exact scan_length _h
  · exact Nat.lt_succ_self _

theorem parts?_nil : parts? [] = some [] := by
  rw [parts?.eq_def]

theorem parts?_plain {c : Char} (h : c ≠ quote) (rest : List Char) :
    parts? (c :: rest) = (parts? rest).map (.plain c :: ·) := by
  rw [parts?.eq_def]
  simp only [if_neg h]

theorem parts?_value (s : String) (rest : List Char) :
    parts? (writeChars s.toList ++ rest) = (parts? rest).map (.value s :: ·) := by
  have hscan := scan_writeChars s.toList rest
  have hfront : writeChars s.toList ++ rest = quote :: (body s.toList ++ quote :: rest) := by
    simp [writeChars]
  rw [hfront] at hscan ⊢
  rw [parts?.eq_def]
  simp only [if_true]
  split
  · rename_i s' after h
    rw [hscan] at h
    cases h
    rw [String.ofList_toList]
  · rename_i h
    rw [hscan] at h
    cases h

/-- **Parts are read back** if no character between the values is a quote. -/
theorem parts?_text {parts : List Part} (h : .plain quote ∉ parts) :
    parts? (text parts).toList = some parts := by
  rw [text, String.toList_ofList]
  induction parts with
  | nil => exact parts?_nil
  | cons p rest ih =>
    obtain ⟨hp, hrest⟩ := not_or.mp (List.mem_cons.not.mp h)
    rw [List.flatMap_cons]
    cases p with
    | plain c =>
      have hc : c ≠ quote := fun e => hp (congrArg Part.plain e.symm)
      show parts? (c :: rest.flatMap Part.chars) = _
      rw [parts?_plain hc, ih hrest]
      rfl
    | value s =>
      show parts? (writeChars s.toList ++ rest.flatMap Part.chars) = _
      rw [parts?_value, ih hrest]
      rfl

/-- A quote that is read is never a character of the text. -/
theorem plain_quote_not_mem_of_parts? {cs : List Char} {parts : List Part}
    (h : parts? cs = some parts) : .plain quote ∉ parts := by
  fun_induction parts? cs generalizing parts with
  | case1 =>
    cases h
    exact List.not_mem_nil
  | case2 rest s after hscan ih =>
    obtain ⟨more, hmore, rfl⟩ := Option.map_eq_some_iff.mp h
    simpa using ih hmore
  | case3 => cases h
  | case4 c rest hquote ih =>
    obtain ⟨more, hmore, rfl⟩ := Option.map_eq_some_iff.mp h
    simpa [Ne.symm hquote] using ih hmore

/-- **The parts of a text are read back iff** none of its own characters is a quote. -/
theorem parts?_text_iff {parts : List Part} :
    parts? (text parts).toList = some parts ↔ .plain quote ∉ parts :=
  ⟨plain_quote_not_mem_of_parts?, parts?_text⟩

/-- **A value is scanned where it stands**, and what stands behind it is left. -/
theorem scan_text (s : String) (after : List Part) :
    scan (text (.value s :: after)).toList = some (s.toList, (text after).toList) := by
  rw [text, text, String.toList_ofList, String.toList_ofList, List.flatMap_cons]
  exact scan_writeChars s.toList _

end Quoted
end QueryPipeline
