/-!
# Operators

The operators of expressions, by the rule that types them: comparisons, logical, arithmetic and
bitwise operators on two operands, and the operators on one; then the directions of orderings and
the kinds of joins. A text that names none of them is kept as `other`, so that it can be named
when it is refused.

* a `Vocabulary` is a type of this sort: its known values, their words, and a value for every other
  word. Words are read by one function for all of them, and **`Vocabulary.read_text`** says that the
  word of a known value is read as this value;
* `text` is the written form of an operator, direction or kind of join, `ofText` reads it, and
  `Known` are those that are not `other`.
-/

namespace QueryPipeline

/-! ## 1. Vocabularies -/

/-- The words for the values of a type: known values with a word for each, and a value for every
    word that is none of these. -/
structure Vocabulary (α : Type) where
  text : α → String
  known : List α
  other : String → α
  distinct : (known.map text).Nodup
  other_unknown : ∀ word, other word ∉ known
  complete : ∀ a, a ∈ known ∨ ∃ word, a = other word

namespace Vocabulary

variable {α : Type} (v : Vocabulary α)

/-- The value that a word stands for. -/
def read (word : String) : α := (v.known.find? fun a => v.text a == word).getD (v.other word)

/-- Whether a value is known. -/
def Known (a : α) : Prop := a ∈ v.known

instance [DecidableEq α] : DecidablePred v.Known :=
  fun a => inferInstanceAs (Decidable (a ∈ v.known))

variable {v}

/-- **The known values are those that no word is kept as.** -/
theorem known_iff (v : Vocabulary α) {a : α} : v.Known a ↔ ∀ word, a ≠ v.other word := by
  refine ⟨fun h word hword => v.other_unknown word (hword ▸ h), fun h => ?_⟩
  exact (v.complete a).resolve_right fun ⟨word, hword⟩ => h word hword

/-- A value that is searched by its word is found where the words are distinct. -/
theorem find?_text {known : List α} {text : α → String} (distinct : (known.map text).Nodup) {a : α}
    (h : a ∈ known) : known.find? (fun b => text b == text a) = some a := by
  induction known with
  | nil => cases h
  | cons b rest ih =>
    obtain ⟨hnew, hrest⟩ := List.nodup_cons.mp distinct
    rcases List.mem_cons.mp h with rfl | h
    · exact List.find?_cons_of_pos (by simp)
    · have hne : text b ≠ text a := fun same => hnew (same ▸ List.mem_map_of_mem h)
      rw [List.find?_cons_of_neg (by simpa using hne)]
      exact ih hrest h

/-- **The word of a known value is read as this value.** -/
theorem read_text {a : α} (h : v.Known a) : v.read (v.text a) = a := by
  rw [read, find?_text v.distinct h, Option.getD_some]

/-- A word that is read as a known value is the word of this value. -/
theorem text_read {word : String} (h : v.Known (v.read word)) : v.text (v.read word) = word := by
  unfold read at h ⊢
  cases found : v.known.find? fun a => v.text a == word with
  | none =>
    rw [found] at h
    exact absurd h (v.other_unknown word)
  | some a => simpa using List.find?_some found

end Vocabulary

/-! ## 2. Two operands -/

/-- Operators that compare two values. -/
inductive Comparison
  | equal | notEqual | greater | greaterOrEqual | less | lessOrEqual | like | isIn | notIn
  deriving DecidableEq, Repr

/-- Operators on two truth values. -/
inductive Connective
  | and | or
  deriving DecidableEq, Repr

/-- Operators on two numbers. -/
inductive Arithmetic
  | add | subtract | multiply | divide | remainder | power
  deriving DecidableEq, Repr

/-- Operators on the bits of two whole numbers. -/
inductive Bitwise
  | and | or
  deriving DecidableEq, Repr

/-- An operator on two operands. -/
inductive BinaryOp
  | comparison (op : Comparison)
  | logical (op : Connective)
  | arithmetic (op : Arithmetic)
  | bitwise (op : Bitwise)
  | other (text : String)
  deriving DecidableEq, Repr

/-- The written form of a comparison. -/
def Comparison.text : Comparison → String
  | equal => "="
  | notEqual => "!="
  | greater => ">"
  | greaterOrEqual => ">="
  | less => "<"
  | lessOrEqual => "<="
  | like => "LIKE"
  | isIn => "IN"
  | notIn => "NOT IN"

/-- The written form of a logical operator. -/
def Connective.text : Connective → String
  | and => "AND"
  | or => "OR"

/-- The written form of an arithmetic operator. -/
def Arithmetic.text : Arithmetic → String
  | add => "+"
  | subtract => "-"
  | multiply => "*"
  | divide => "/"
  | remainder => "MOD"
  | power => "POW"

/-- The written form of a bitwise operator. -/
def Bitwise.text : Bitwise → String
  | and => "&"
  | or => "|"

namespace BinaryOp

/-- The written form of an operator. -/
def text : BinaryOp → String
  | comparison op => op.text
  | logical op => op.text
  | arithmetic op => op.text
  | bitwise op => op.text
  | other text => text

/-- Every operator that has rules. -/
def known : List BinaryOp :=
  [Comparison.equal, .notEqual, .greater, .greaterOrEqual, .less, .lessOrEqual, .like, .isIn,
    .notIn].map comparison ++
  [Connective.and, .or].map logical ++
  [Arithmetic.add, .subtract, .multiply, .divide, .remainder, .power].map arithmetic ++
  [Bitwise.and, .or].map bitwise

/-- The operators by their written forms. -/
def vocabulary : Vocabulary BinaryOp where
  text := text
  known := known
  other := other
  distinct := by decide
  other_unknown word := by simp [known]
  complete op := by
    cases op with
    | comparison op => cases op <;> exact Or.inl (by decide)
    | logical op => cases op <;> exact Or.inl (by decide)
    | arithmetic op => cases op <;> exact Or.inl (by decide)
    | bitwise op => cases op <;> exact Or.inl (by decide)
    | other word => exact Or.inr ⟨word, rfl⟩

/-- The operator with the given written form. -/
def ofText : String → BinaryOp := vocabulary.read

/-- Whether an operator has rules. -/
abbrev Known : BinaryOp → Prop := vocabulary.Known

end BinaryOp

/-! ## 3. One operand -/

/-- An operator on one operand. -/
inductive UnaryOp
  | not
  | isNull
  | isNotNull
  | other (text : String)
  deriving DecidableEq, Repr

namespace UnaryOp

/-- The written form of an operator. -/
def text : UnaryOp → String
  | not => "NOT"
  | isNull => "IS NULL"
  | isNotNull => "IS NOT NULL"
  | other text => text

/-- The operators by their written forms. -/
def vocabulary : Vocabulary UnaryOp where
  text := text
  known := [not, isNull, isNotNull]
  other := other
  distinct := by decide
  other_unknown word := by simp
  complete op := by cases op <;> simp

/-- The operator with the given written form. -/
def ofText : String → UnaryOp := vocabulary.read

/-- Whether an operator has rules. -/
abbrev Known : UnaryOp → Prop := vocabulary.Known

end UnaryOp

/-! ## 4. Directions and sides -/

/-- The direction of an ordering. -/
inductive Direction
  | asc
  | desc
  | other (text : String)
  deriving DecidableEq, Repr

namespace Direction

/-- The written form of a direction. -/
def text : Direction → String
  | asc => "asc"
  | desc => "desc"
  | other text => text

/-- The directions by their written forms. -/
def vocabulary : Vocabulary Direction where
  text := text
  known := [asc, desc]
  other := other
  distinct := by decide
  other_unknown word := by simp
  complete d := by cases d <;> simp

/-- The direction with the given written form. -/
def ofText : String → Direction := vocabulary.read

/-- Whether a direction is one of the two. -/
abbrev Known : Direction → Prop := vocabulary.Known

end Direction

/-- Which rows of the left side a join keeps: those with a partner, or all. -/
inductive JoinKind
  | inner
  | left
  | other (text : String)
  deriving DecidableEq, Repr

namespace JoinKind

/-- The written form of a join kind. -/
def text : JoinKind → String
  | inner => "inner"
  | left => "left"
  | other text => text

/-- The join kinds by their written forms. -/
def vocabulary : Vocabulary JoinKind where
  text := text
  known := [inner, left]
  other := other
  distinct := by decide
  other_unknown word := by simp
  complete kind := by cases kind <;> simp

/-- The join kind with the given written form. -/
def ofText : String → JoinKind := vocabulary.read

/-- Whether a join kind is one of the two. -/
abbrev Known : JoinKind → Prop := vocabulary.Known

end JoinKind

end QueryPipeline
