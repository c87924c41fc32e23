import QueryPipeline.Proofs.Words

/-!
# Phrases

The shape of what is written between the arrows of a rendered pipeline: words, quoted values and
dates, put together by brackets, commas and the marks behind an expression. A phrase knows nothing
of types, operators or functions.

* `Phrase.text` writes a phrase; `Phrase.read` reads one off the front of a text. A phrase and the
  marks behind it (`as n`, `asc`, `desc`) are read in two steps, since a mark belongs to all that
  stands before it (`readTail`);
* `Phrase.WellFormed` says which parts a phrase may have;
* **`WellFormed.readBack`**: a well-formed phrase is read back, whatever follows it;
* **`text_append_injective`**: so its text determines it, and where it ends.
-/

namespace QueryPipeline

/-! ## 1. Phrases -/

/-- A part of a rendered pipeline. -/
inductive Phrase
  | word (text : String)
  | quoted (value : String)
  | dated (value : String)
  /-- A name in front of arguments in parentheses. -/
  | applied (name : String) (args : List Phrase)
  /-- Items in brackets. -/
  | listed (items : List Phrase)
  /-- Two phrases with a token between them, in parentheses. -/
  | infixed (token : String) (left right : Phrase)
  /-- A phrase and what it is, in parentheses. -/
  | postfixed (state : String) (operand : Phrase)
  /-- A phrase under a name. -/
  | named (name : String) (inner : Phrase)
  /-- A phrase with a direction behind it. -/
  | directed (direction : String) (term : Phrase)
  deriving Repr

namespace Phrase

mutual

/-- The text of a phrase. -/
def text : Phrase → String
  | word text => text
  | quoted value => Quoted.write value
  | dated value => "%" ++ value ++ "%"
  | applied name args => name ++ "(" ++ ", ".intercalate (texts args) ++ ")"
  | listed items => "[" ++ ", ".intercalate (texts items) ++ "]"
  | infixed token left right => "(" ++ text left ++ " " ++ token ++ " " ++ text right ++ ")"
  | postfixed state operand => "(" ++ text operand ++ " is " ++ state ++ ")"
  | named name inner => text inner ++ " as " ++ name
  | directed direction term => text term ++ " " ++ direction

/-- The texts of a list of phrases. -/
def texts : List Phrase → List String
  | [] => []
  | p :: rest => text p :: texts rest

end

theorem texts_eq (ps : List Phrase) : texts ps = ps.map text := by
  induction ps with
  | nil => rfl
  | cons p rest ih => rw [texts, ih, List.map_cons]

/-! ## 2. Reading -/

/-- The mark that a word behind a phrase opens: what it makes of the phrase, and what follows. -/
def markOf? (w r : List Char) : Option ((Phrase → Phrase) × List Char) :=
  if w = ['a', 's'] then
    some (named (String.ofList ((r.drop 1).takeWhile isWordChar)), (r.drop 1).dropWhile isWordChar)
  else if w = ['a', 's', 'c'] ∨ w = ['d', 'e', 's', 'c'] then
    some (directed (String.ofList w), r)
  else none

/-- Reads a mark behind a phrase. -/
def readMark? : List Char → Option ((Phrase → Phrase) × List Char)
  | ' ' :: cs => markOf? (cs.takeWhile isWordChar) (cs.dropWhile isWordChar)
  | _ => none

theorem length_dropWhile_le (cs : List Char) : (cs.dropWhile isWordChar).length ≤ cs.length :=
  (List.dropWhile_suffix _).length_le

theorem markOf?_length {w r rest : List Char} {mark : Phrase → Phrase}
    (h : markOf? w r = some (mark, rest)) : rest.length ≤ r.length := by
  unfold markOf? at h
  split at h
  · cases h
    have := length_dropWhile_le (r.drop 1)
    rw [List.length_drop] at this
    omega
  · split at h
    · cases h
      exact Nat.le_refl _
    · cases h

theorem readMark?_length {cs rest : List Char} {mark : Phrase → Phrase}
    (h : readMark? cs = some (mark, rest)) : rest.length < cs.length := by
  unfold readMark? at h
  split at h
  · rename_i cs
    have h1 := markOf?_length h
    have h2 := length_dropWhile_le cs
    rw [List.length_cons]
    omega
  · cases h

/-- Reads all marks behind a phrase. -/
def readTail (p : Phrase) (cs : List Char) : Phrase × List Char :=
  match _h : readMark? cs with
  | some (mark, rest) => readTail (mark p) rest
  | none => (p, cs)
termination_by cs.length
decreasing_by exact readMark?_length _h

/-- Reads phrases with commas between them, up to a closing character. -/
def readItems (read : List Char → Option (Phrase × List Char)) (close : Char) :
    Nat → List Char → Option (List Phrase × List Char)
  | 0, _ => none
  | n + 1, cs =>
    if cs.head? = some close then some ([], cs.drop 1)
    else (read cs).bind fun (p, r) =>
      (readItems read close n (if r.head? = some ',' then r.drop 2 else r)).map
        fun (ps, r) => (p :: ps, r)

/-- Reads what stands in parentheses that no name is in front of. -/
def readGroup (read : List Char → Option (Phrase × List Char)) (cs : List Char) :
    Option (Phrase × List Char) :=
  (read cs).bind fun (left, r) =>
    let token := (r.drop 1).takeWhile (· != ' ')
    let r := ((r.drop 1).dropWhile (· != ' ')).drop 1
    if token = ['i', 's'] then
      some (postfixed (String.ofList (r.takeWhile (· != ')'))) left,
        (r.dropWhile (· != ')')).drop 1)
    else (read r).map fun (right, r) => (infixed (String.ofList token) left right, r.drop 1)

/-- Reads a word and its arguments, if it has any. -/
def readWord (read : List Char → Option (Phrase × List Char)) (n : Nat) (cs : List Char) :
    Option (Phrase × List Char) :=
  let w := String.ofList (cs.takeWhile isWordChar)
  let r := cs.dropWhile isWordChar
  if r.head? = some '(' then
    (readItems read ')' n (r.drop 1)).map fun (args, r) => (applied w args, r)
  else some (word w, r)

/-- Reads a phrase without the marks behind it. The first character decides of which sort it is. -/
def readCore (read : List Char → Option (Phrase × List Char)) (n : Nat) :
    List Char → Option (Phrase × List Char)
  | [] => none
  | c :: cs =>
    if isWordChar c then readWord read n (c :: cs)
    else if c = '[' then (readItems read ']' n cs).map fun (items, r) => (listed items, r)
    else if c = '(' then readGroup read cs
    else if c = '%' then
      some (dated (String.ofList (cs.takeWhile (· != '%'))), (cs.dropWhile (· != '%')).drop 1)
    else (Quoted.scan (c :: cs)).map fun (s, r) => (quoted (String.ofList s), r)

/-- Reads a phrase off the front of a text; `n` bounds the depth. -/
def read : Nat → List Char → Option (Phrase × List Char)
  | 0, _ => none
  | n + 1, cs => (readCore (read n) n cs).map fun (p, r) => readTail p r

/-! ## 3. Well-formed phrases -/

/-- A token between two phrases: without blanks, and unlike the marks behind a phrase. -/
structure IsToken (token : String) : Prop where
  noBlank : ' ' ∉ token.toList
  noState : token.toList ≠ ['i', 's']
  noMark : ∀ rest, readMark? (' ' :: (token.toList ++ ' ' :: rest)) = none

/-- A phrase whose parts can be told apart in its text. -/
inductive WellFormed : Phrase → Prop
  | word {text : String} (h : IsWord text) : WellFormed (.word text)
  | quoted {value : String} : WellFormed (.quoted value)
  | dated {value : String} (h : '%' ∉ value.toList) : WellFormed (.dated value)
  | applied {name : String} {args : List Phrase} (h : IsWord name)
      (hargs : ∀ p ∈ args, WellFormed p) : WellFormed (.applied name args)
  | listed {items : List Phrase} (hitems : ∀ p ∈ items, WellFormed p) :
      WellFormed (.listed items)
  | infixed {token : String} {left right : Phrase} (h : IsToken token) (hleft : WellFormed left)
      (hright : WellFormed right) : WellFormed (.infixed token left right)
  | postfixed {state : String} {operand : Phrase} (h : ')' ∉ state.toList)
      (hoperand : WellFormed operand) : WellFormed (.postfixed state operand)
  | named {name : String} {inner : Phrase} (h : IsWord name) (hinner : WellFormed inner) :
      WellFormed (.named name inner)
  | directed {direction : String} {term : Phrase} (h : direction = "asc" ∨ direction = "desc")
      (hterm : WellFormed term) : WellFormed (.directed direction term)

/-- A well-formed phrase has a first character, which closes nothing. -/
theorem WellFormed.head {p : Phrase} (h : p.WellFormed) :
    ∃ c cs, p.text.toList = c :: cs ∧ c ≠ ')' ∧ c ≠ ']' := by
  have word {s : String} (hs : IsWord s) (rest : List Char) :
      ∃ c cs, s.toList ++ rest = c :: cs ∧ c ≠ ')' ∧ c ≠ ']' := by
    obtain ⟨c, cs, hcs, hc⟩ := hs.cons
    refine ⟨c, cs ++ rest, by rw [hcs]; rfl, ?_, ?_⟩
    · intro e
      rw [e] at hc
      exact absurd hc (by decide)
    · intro e
      rw [e] at hc
      exact absurd hc (by decide)
  induction h with
  | word hs => simpa [text] using word hs []
  | quoted =>
    exact ⟨Quoted.quote, _, by simp [text, Quoted.write, Quoted.writeChars]; rfl, by decide⟩
  | dated _ => exact ⟨'%', _, by simp [text]; rfl, by decide⟩
  | applied hs _ => simpa [text] using word hs _
  | listed _ => exact ⟨'[', _, by simp [text]; rfl, by decide⟩
  | infixed _ _ _ => exact ⟨'(', _, by simp [text]; rfl, by decide⟩
  | postfixed _ _ => exact ⟨'(', _, by simp [text]; rfl, by decide⟩
  | named _ _ ih =>
    obtain ⟨c, cs, hcs, hc⟩ := ih
    exact ⟨c, _, by simp [text, hcs]; rfl, hc⟩
  | directed _ _ ih =>
    obtain ⟨c, cs, hcs, hc⟩ := ih
    exact ⟨c, _, by simp [text, hcs]; rfl, hc⟩

/-! ## 4. Marks -/

theorem readTail_of_mark {p : Phrase} {cs rest : List Char} {mark : Phrase → Phrase}
    (h : readMark? cs = some (mark, rest)) : readTail p cs = readTail (mark p) rest := by
  rw [readTail]
  split
  · rename_i mark' rest' h'
    rw [h] at h'
    cases h'
    rfl
  · rename_i h'
    rw [h] at h'
    cases h'

theorem readTail_of_none {p : Phrase} {cs : List Char} (h : readMark? cs = none) :
    readTail p cs = (p, cs) := by
  rw [readTail]
  split
  · rename_i h'
    rw [h] at h'
    cases h'
  · rfl

theorem readMark?_named {name : String} (h : IsWord name) {rest : List Char}
    (hrest : WordEnd rest) :
    readMark? (" as ".toList ++ (name.toList ++ rest)) = some (named name, rest) := by
  have has : IsWord "as" := by decide
  have hblank : ∀ c ∈ (' ' :: (name.toList ++ rest)).head?, isWordChar c = false := by
    intro c hc
    cases hc
    rfl
  show markOf? (("as".toList ++ ' ' :: (name.toList ++ rest)).takeWhile isWordChar)
    (("as".toList ++ ' ' :: (name.toList ++ rest)).dropWhile isWordChar) = _
  rw [takeWhile_word has hblank, dropWhile_word has hblank, markOf?, if_pos (by decide),
    List.drop_one, List.tail_cons, takeWhile_word h hrest.head, dropWhile_word h hrest.head,
    String.ofList_toList]

theorem readMark?_directed {direction : String} (h : direction = "asc" ∨ direction = "desc")
    {rest : List Char} (hrest : WordEnd rest) :
    readMark? (' ' :: (direction.toList ++ rest)) = some (directed direction, rest) := by
  have hword : IsWord direction := by
    rcases h with rfl | rfl
    · decide
    · decide
  show markOf? _ _ = _
  rw [takeWhile_word hword hrest.head, dropWhile_word hword hrest.head]
  rcases h with rfl | rfl
  · rfl
  · rfl

/-! ## 5. What closes a phrase -/

/-- A text that closes a phrase: no word goes on in it, and no mark stands at its front. -/
structure Closing (rest : List Char) : Prop where
  wordEnd : WordEnd rest
  noMark : readMark? rest = none

theorem closing_nil : Closing [] := ⟨fun _ hc => absurd hc (by simp), rfl⟩

theorem closing_cons {c : Char} (hword : isWordChar c = false) (hopen : c ≠ '(')
    (hblank : c ≠ ' ') (rest : List Char) : Closing (c :: rest) := by
  refine ⟨fun d hd => ?_, ?_⟩
  · cases hd
    exact ⟨hword, hopen⟩
  · unfold readMark?
    split
    · rename_i e
      exact absurd (List.cons.inj e).1 hblank
    · rfl

theorem closing_token {token : String} (h : IsToken token) (rest : List Char) :
    Closing (' ' :: (token.toList ++ ' ' :: rest)) := by
  refine ⟨fun c hc => ?_, h.noMark rest⟩
  cases hc
  exact ⟨rfl, by decide⟩

theorem closing_state (rest : List Char) : Closing (" is ".toList ++ rest) := by
  refine ⟨fun c hc => ?_, rfl⟩
  cases hc
  exact ⟨rfl, by decide⟩

/-! ## 6. Reading back -/

/-- A phrase that is read back together with the marks behind it, given depth enough. -/
def ReadBack (p : Phrase) : Prop :=
  ∃ enough, ∀ n, enough ≤ n → ∀ rest, WordEnd rest →
    read n (p.text.toList ++ rest) = some (readTail p rest)

theorem ReadBack.closed {p : Phrase} (h : p.ReadBack) :
    ∃ enough, ∀ n, enough ≤ n → ∀ rest, Closing rest →
      read n (p.text.toList ++ rest) = some (p, rest) := by
  obtain ⟨enough, h⟩ := h
  refine ⟨enough, fun n hn rest hrest => ?_⟩
  rw [h n hn rest hrest.wordEnd, readTail_of_none hrest.noMark]

/-- A phrase that is read in one step is read back with the marks behind it. -/
theorem readBack_of_core {p : Phrase}
    (h : ∃ enough, ∀ n, enough ≤ n → ∀ rest, WordEnd rest →
      readCore (read n) n (p.text.toList ++ rest) = some (p, rest)) : p.ReadBack := by
  obtain ⟨enough, h⟩ := h
  refine ⟨enough + 1, fun n hn rest hrest => ?_⟩
  obtain ⟨k, rfl⟩ : ∃ k, n = k + 1 := ⟨n - 1, by omega⟩
  rw [read, h k (by omega) rest hrest]
  rfl

/-- What stands behind the first of several items, and what is left of it for the others. -/
theorem items_cons {close : Char} (hclose : close = ')' ∨ close = ']') (p : Phrase)
    (ps : List Phrase) (rest : List Char) :
    ∃ after, (", ".intercalate (texts (p :: ps))).toList ++ close :: rest =
        p.text.toList ++ after ∧ Closing after ∧
      (if after.head? = some ',' then after.drop 2 else after) =
        (", ".intercalate (texts ps)).toList ++ close :: rest := by
  cases ps with
  | nil =>
    refine ⟨close :: rest, by simp [texts], ?_, ?_⟩
    · rcases hclose with rfl | rfl
      · exact closing_cons (by decide) (by decide) (by decide) rest
      · exact closing_cons (by decide) (by decide) (by decide) rest
    · rcases hclose with rfl | rfl
      · simp [texts]
      · simp [texts]
  | cons q qs =>
    refine ⟨',' :: ' ' :: ((", ".intercalate (texts (q :: qs))).toList ++ close :: rest), ?_,
      closing_cons (by decide) (by decide) (by decide) _, rfl⟩
    simp [texts]

/-- **Items are read back** up to the closing character. -/
theorem readItems_texts {close : Char} (hclose : close = ')' ∨ close = ']') {ps : List Phrase}
    (h : ∀ p ∈ ps, p.WellFormed ∧ p.ReadBack) :
    ∃ enough, ∀ n, enough ≤ n → ∀ m, enough ≤ m → ∀ rest,
      readItems (read n) close m ((", ".intercalate (texts ps)).toList ++ close :: rest) =
        some (ps, rest) := by
  induction ps with
  | nil =>
    refine ⟨1, fun n _ m hm rest => ?_⟩
    obtain ⟨k, rfl⟩ : ∃ k, m = k + 1 := ⟨m - 1, by omega⟩
    simp [texts, readItems]
  | cons p ps ih =>
    obtain ⟨first, hfirst⟩ := (h p List.mem_cons_self).2.closed
    obtain ⟨more, hmore⟩ := ih fun q hq => h q (List.mem_cons_of_mem _ hq)
    refine ⟨first + more + 1, fun n hn m hm rest => ?_⟩
    obtain ⟨k, rfl⟩ : ∃ k, m = k + 1 := ⟨m - 1, by omega⟩
    obtain ⟨after, hafter, hclosing, hleft⟩ := items_cons hclose p ps rest
    have hhead : ¬ (p.text.toList ++ after).head? = some close := by
      obtain ⟨c, cs, hcs, hround, hsquare⟩ := (h p List.mem_cons_self).1.head
      rw [hcs]
      rcases hclose with rfl | rfl
      · simpa using hround
      · simpa using hsquare
    rw [hafter, readItems, if_neg hhead, hfirst n (by omega) after hclosing]
    show Option.map _ (readItems (read n) close k (if after.head? = some ',' then _ else _)) = _
    rw [hleft, hmore n (by omega) k (by omega) rest]
    rfl

theorem all_ne {s : String} {stop : Char} (h : stop ∉ s.toList) :
    ∀ c ∈ s.toList, (c != stop) = true := by
  intro c hc
  refine bne_iff_ne.mpr fun e => ?_
  exact h (e ▸ hc)

theorem takeWhile_ne {s : String} {stop : Char} (h : stop ∉ s.toList) (rest : List Char) :
    (s.toList ++ stop :: rest).takeWhile (· != stop) = s.toList := by
  rw [List.takeWhile_append_of_pos (all_ne h)]
  simp

theorem dropWhile_ne {s : String} {stop : Char} (h : stop ∉ s.toList) (rest : List Char) :
    (s.toList ++ stop :: rest).dropWhile (· != stop) = stop :: rest := by
  rw [List.dropWhile_append_of_pos (all_ne h)]
  simp

/-- A word at the front is read with its arguments, if any follow. -/
theorem readCore_word {read : List Char → Option (Phrase × List Char)} {n : Nat} {s : String}
    (h : IsWord s) (rest : List Char) :
    readCore read n (s.toList ++ rest) = readWord read n (s.toList ++ rest) := by
  obtain ⟨c, cs, hcs, hc⟩ := h.cons
  rw [hcs, List.cons_append, readCore, if_pos hc]

theorem readBack_word {s : String} (h : IsWord s) : (word s).ReadBack := by
  refine readBack_of_core ⟨0, fun n _ rest hrest => ?_⟩
  have hopen : ¬ rest.head? = some '(' := fun e => (hrest '(' e).2 rfl
  rw [text, readCore_word h, readWord, dropWhile_word h hrest.head, takeWhile_word h hrest.head,
    if_neg hopen, String.ofList_toList]

theorem readBack_quoted (value : String) : (quoted value).ReadBack := by
  refine readBack_of_core ⟨0, fun n _ rest _ => ?_⟩
  have hscan := Quoted.scan_writeChars value.toList rest
  rw [text, Quoted.write, String.toList_ofList]
  show Option.map _ (Quoted.scan (Quoted.writeChars value.toList ++ rest)) = _
  rw [hscan]
  show some (quoted (String.ofList value.toList), rest) = _
  rw [String.ofList_toList]

theorem readBack_dated {value : String} (h : '%' ∉ value.toList) : (dated value).ReadBack := by
  refine readBack_of_core ⟨0, fun n _ rest _ => ?_⟩
  have htext : (text (dated value)).toList ++ rest = '%' :: (value.toList ++ '%' :: rest) := by
    simp [text]
  rw [htext]
  show some (dated (String.ofList ((value.toList ++ '%' :: rest).takeWhile (· != '%'))),
    ((value.toList ++ '%' :: rest).dropWhile (· != '%')).drop 1) = _
  rw [takeWhile_ne h, dropWhile_ne h, String.ofList_toList]
  rfl

theorem readBack_applied {name : String} {args : List Phrase} (h : IsWord name)
    (hargs : ∀ p ∈ args, p.WellFormed ∧ p.ReadBack) : (applied name args).ReadBack := by
  obtain ⟨enough, hitems⟩ := readItems_texts (Or.inl rfl) hargs
  refine readBack_of_core ⟨enough, fun n hn rest _ => ?_⟩
  have htext : (text (applied name args)).toList ++ rest =
      name.toList ++ '(' :: ((", ".intercalate (texts args)).toList ++ ')' :: rest) := by
    simp [text]
  have hopen : ∀ c ∈ ('(' :: ((", ".intercalate (texts args)).toList ++ ')' :: rest)).head?,
      isWordChar c = false := by
    intro c hc
    cases hc
    rfl
  rw [htext, readCore_word h, readWord, dropWhile_word h hopen, takeWhile_word h hopen,
    List.head?_cons, if_pos rfl, List.drop_one, List.tail_cons, hitems n hn n hn rest,
    Option.map_some, String.ofList_toList]

theorem readBack_listed {items : List Phrase} (h : ∀ p ∈ items, p.WellFormed ∧ p.ReadBack) :
    (listed items).ReadBack := by
  obtain ⟨enough, hitems⟩ := readItems_texts (Or.inr rfl) h
  refine readBack_of_core ⟨enough, fun n hn rest _ => ?_⟩
  have htext : (text (listed items)).toList ++ rest =
      '[' :: ((", ".intercalate (texts items)).toList ++ ']' :: rest) := by
    simp [text]
  rw [htext]
  show Option.map _ (readItems (read n) ']' n _) = _
  rw [hitems n hn n hn rest]
  rfl

theorem readBack_infixed {token : String} {left right : Phrase} (h : IsToken token)
    (hleft : left.ReadBack) (hright : right.ReadBack) : (infixed token left right).ReadBack := by
  obtain ⟨first, hleft⟩ := hleft.closed
  obtain ⟨more, hright⟩ := hright.closed
  refine readBack_of_core ⟨first + more, fun n hn rest _ => ?_⟩
  have htext : (text (infixed token left right)).toList ++ rest =
      '(' :: (left.text.toList ++ ' ' :: (token.toList ++ ' ' ::
        (right.text.toList ++ ')' :: rest))) := by
    simp [text]
  have hclose := closing_cons (c := ')') (by decide) (by decide) (by decide) rest
  rw [htext]
  show readGroup (read n) _ = _
  rw [readGroup, hleft n (by omega) _ (closing_token h _), Option.bind_some]
  simp only [List.drop_one, List.tail_cons, takeWhile_ne h.noBlank, dropWhile_ne h.noBlank,
    if_neg h.noState, hright n (by omega) _ hclose, Option.map_some, String.ofList_toList]

theorem readBack_postfixed {state : String} {operand : Phrase} (h : ')' ∉ state.toList)
    (hoperand : operand.ReadBack) : (postfixed state operand).ReadBack := by
  obtain ⟨enough, hoperand⟩ := hoperand.closed
  refine readBack_of_core ⟨enough, fun n hn rest _ => ?_⟩
  have htext : (text (postfixed state operand)).toList ++ rest =
      '(' :: (operand.text.toList ++ (" is ".toList ++ (state.toList ++ ')' :: rest))) := by
    simp [text]
  rw [htext]
  show readGroup (read n) _ = _
  rw [readGroup, hoperand n (by omega) _ (closing_state _), Option.bind_some]
  show some (postfixed (String.ofList ((state.toList ++ ')' :: rest).takeWhile (· != ')'))) operand,
    ((state.toList ++ ')' :: rest).dropWhile (· != ')')).drop 1) = _
  rw [takeWhile_ne h, dropWhile_ne h, String.ofList_toList]
  rfl

/-- A mark goes to all that was read before it. -/
theorem readBack_named {name : String} {inner : Phrase} (h : IsWord name)
    (hinner : inner.ReadBack) : (named name inner).ReadBack := by
  obtain ⟨enough, hinner⟩ := hinner
  refine ⟨enough, fun n hn rest hrest => ?_⟩
  have htext : (text (named name inner)).toList ++ rest =
      inner.text.toList ++ (" as ".toList ++ (name.toList ++ rest)) := by
    simp [text]
  have hend : WordEnd (" as ".toList ++ (name.toList ++ rest)) := by
    intro c hc
    cases hc
    exact ⟨rfl, by decide⟩
  rw [htext, hinner n hn _ hend, readTail_of_mark (readMark?_named h hrest)]

theorem readBack_directed {direction : String} {term : Phrase}
    (h : direction = "asc" ∨ direction = "desc") (hterm : term.ReadBack) :
    (directed direction term).ReadBack := by
  obtain ⟨enough, hterm⟩ := hterm
  refine ⟨enough, fun n hn rest hrest => ?_⟩
  have htext : (text (directed direction term)).toList ++ rest =
      term.text.toList ++ ' ' :: (direction.toList ++ rest) := by
    simp [text]
  have hend : WordEnd (' ' :: (direction.toList ++ rest)) := by
    intro c hc
    cases hc
    exact ⟨rfl, by decide⟩
  rw [htext, hterm n hn _ hend, readTail_of_mark (readMark?_directed h hrest)]

/-- **A well-formed phrase is read back.** -/
theorem WellFormed.readBack {p : Phrase} (h : p.WellFormed) : p.ReadBack := by
  induction h with
  | word h => exact readBack_word h
  | quoted => exact readBack_quoted _
  | dated h => exact readBack_dated h
  | applied h hargs ih => exact readBack_applied h fun p hp => ⟨hargs p hp, ih p hp⟩
  | listed hitems ih => exact readBack_listed fun p hp => ⟨hitems p hp, ih p hp⟩
  | infixed h _ _ ihl ihr => exact readBack_infixed h ihl ihr
  | postfixed h _ ih => exact readBack_postfixed h ih
  | named h _ ih => exact readBack_named h ih
  | directed h _ ih => exact readBack_directed h ih

/-- **A phrase is determined by its text, and so is where it ends**, once it is closed. -/
theorem text_append_injective {p q : Phrase} (hp : p.WellFormed) (hq : q.WellFormed)
    {rest rest' : List Char} (hrest : Closing rest) (hrest' : Closing rest')
    (h : p.text.toList ++ rest = q.text.toList ++ rest') : p = q ∧ rest = rest' := by
  obtain ⟨m, hm⟩ := hp.readBack.closed
  obtain ⟨n, hn⟩ := hq.readBack.closed
  have hread := hm (m + n) (by omega) rest hrest
  rw [h, hn (m + n) (by omega) rest' hrest'] at hread
  cases hread
  exact ⟨rfl, rfl⟩

end Phrase
end QueryPipeline
