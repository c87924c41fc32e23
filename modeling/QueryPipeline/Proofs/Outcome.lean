import QueryPipeline.Fault

/-!
# Chains of checks

A function of this library that can fail is a chain of checks. The lemmas here take a chain apart
from its result:

* a chain ends well iff its first check and the rest of it do (`bind_eq_ok`);
* a refusal never ends well, and nothing after it is reached;
* `DecidedBy` says of a chain which of several obstacles it meets first, and puts chains together
  (`DecidedBy.bind`);
* `SettledBy` says that a chain fails for one of several obstacles and for nothing else, where it
  does not matter which of them is met first;
* `RefusedFor` says what is certain of the cause once a chain is refused, and `ChecksValues` that it
  is refused for a value or not at all;
* a `Correspondence` relates the results of two chains that go on in related ways, and `RelatedBy`
  does so for results of different types.
-/

namespace QueryPipeline

variable {α β : Type}

/-! ## 1. Results -/

namespace Outcome

@[simp] theorem pure_eq (a : α) : (pure a : Outcome α) = .ok a := rfl

@[simp] theorem ok_bind (a : α) (f : α → Outcome β) : (Except.ok a : Outcome α) >>= f = f a := rfl

@[simp] theorem error_bind (e : Failure) (f : α → Outcome β) :
    (Except.error e : Outcome α) >>= f = .error e := rfl

/-- **A chain ends well iff its first check does and the rest does on its result.** -/
theorem bind_eq_ok {x : Outcome α} {f : α → Outcome β} {b : β} :
    x >>= f = .ok b ↔ ∃ a, x = .ok a ∧ f a = .ok b := by
  cases x with
  | ok a => simp
  | error e => simp

/-- A chain may end with its last check. -/
theorem bind_done (x : Outcome Unit) : (x >>= fun _ => .ok ()) = x := by cases x <;> rfl

/-- A check without a result in front of a chain. -/
theorem check_bind_eq_ok {x : Outcome Unit} {y : Outcome β} {b : β} :
    (x >>= fun _ => y) = .ok b ↔ x = .ok () ∧ y = .ok b := by
  rw [bind_eq_ok]
  constructor
  · intro h
    obtain ⟨⟨⟩, hx, hy⟩ := h
    exact ⟨hx, hy⟩
  · intro h
    obtain ⟨hx, hy⟩ := h
    exact ⟨(), hx, hy⟩

end Outcome

@[simp] theorem refuse_eq_ok {cause : Cause} {a : α} : refuse cause = .ok a ↔ False := by
  simp [refuse]

@[simp] theorem refuse_bind (cause : Cause) (f : α → Outcome β) :
    (refuse cause : Outcome α) >>= f = refuse cause := rfl

/-- A result is the one that was given. -/
theorem ok_eq_ok_comm {ε : Type} {a b : α} : (Except.ok a : Except ε α) = .ok b ↔ b = a := by
  rw [Except.ok.injEq, eq_comm]

/-- A check that refuses when a condition holds lets a chain go on where it does not hold. -/
@[simp] theorem ite_refuse_eq_ok {p : Prop} [Decidable p] {cause : Cause} {x : Outcome α} {a : α} :
    (if p then refuse cause else x) = .ok a ↔ ¬ p ∧ x = .ok a := by
  by_cases h : p <;> simp [h]

/-- A check that refuses unless a condition holds lets a chain go on where it holds. -/
@[simp] theorem ite_else_refuse_eq_ok {p : Prop} [Decidable p] {cause : Cause} {x : Outcome α}
    {a : α} : (if p then x else refuse cause) = .ok a ↔ p ∧ x = .ok a := by
  by_cases h : p <;> simp [h]

/-! ## 2. Obstacles -/

/-- A result and the obstacles to it, in the order in which they are met: the first one fails, and
    without one there is a result with the given property. -/
def DecidedBy {ι : Type} (failure : ι → Failure) (P : α → Prop) : List ι → Outcome α → Prop
  | i :: _, x => x = .error (failure i)
  | [], x => ∃ a, x = .ok a ∧ P a

namespace DecidedBy

variable {ι κ : Type} {failure : ι → Failure} {obstacles more : List ι} {P : α → Prop}
  {Q : β → Prop} {x : Outcome α}

/-- **Obstacles of a chain**: those of its first part, then those of the rest. -/
theorem bind {f : α → Outcome β} (h : DecidedBy failure P obstacles x)
    (next : obstacles = [] → ∀ a, P a → DecidedBy failure Q more (f a)) :
    DecidedBy failure Q (obstacles ++ more) (x >>= f) := by
  cases obstacles with
  | cons i rest =>
    rw [show x = .error (failure i) from h]
    rfl
  | nil =>
    obtain ⟨a, hx, ha⟩ := h
    rw [hx]
    exact next rfl a ha

/-- A rest that cannot fail adds no obstacle. -/
theorem bind_ok {f : α → Outcome β} (h : DecidedBy failure P obstacles x)
    (next : obstacles = [] → ∀ a, P a → ∃ b, f a = .ok b ∧ Q b) :
    DecidedBy failure Q obstacles (x >>= f) := by
  rw [← List.append_nil obstacles]
  exact h.bind next

/-- What is done to a failure is done to the one of the first obstacle. -/
theorem mapError (g : Failure → Failure) (h : DecidedBy failure P obstacles x) :
    DecidedBy (fun i => g (failure i)) P obstacles (x.mapError g) := by
  cases obstacles with
  | cons i rest =>
    rw [show x = .error (failure i) from h]
    rfl
  | nil =>
    obtain ⟨a, hx, ha⟩ := h
    rw [hx]
    exact ⟨a, rfl, ha⟩

/-- Obstacles that are images of others. -/
theorem map_iff {label : κ → ι} {obstacles : List κ} :
    DecidedBy failure P (obstacles.map label) x ↔
      DecidedBy (fun k => failure (label k)) P obstacles x := by
  cases obstacles <;> rfl

end DecidedBy

/-! ## 3. Obstacles in no order -/

/-- A result that fails iff there is an obstacle, and then with the failure of one. -/
def SettledBy {ι : Type} (failure : ι → Failure) (obstacle : ι → Prop) (x : Outcome α) : Prop :=
  ((∃ a, x = .ok a) ∧ ∀ i, ¬ obstacle i) ∨ ∃ i, obstacle i ∧ x = .error (failure i)

namespace SettledBy

variable {ι : Type} {failure : ι → Failure} {obstacle more : ι → Prop} {x : Outcome α}

theorem ok (a : α) (h : ∀ i, ¬ obstacle i) : SettledBy failure obstacle (.ok a : Outcome α) :=
  Or.inl ⟨⟨a, rfl⟩, h⟩

theorem congr (h : SettledBy failure obstacle x) (same : ∀ i, more i ↔ obstacle i) :
    SettledBy failure more x := by
  rwa [show more = obstacle from funext fun i => propext (same i)]

/-- **The obstacles of a chain** are those of its parts. -/
theorem bind {f : α → Outcome β} (h : SettledBy failure obstacle x)
    (next : ∀ a, SettledBy failure more (f a)) :
    SettledBy failure (fun i => obstacle i ∨ more i) (x >>= f) := by
  rcases h with ⟨⟨a, rfl⟩, hnone⟩ | ⟨i, hi, rfl⟩
  · rcases next a with ⟨⟨b, hb⟩, hmore⟩ | ⟨i, hi, hb⟩
    · exact Or.inl ⟨⟨b, hb⟩, fun i h => h.elim (hnone i) (hmore i)⟩
    · exact Or.inr ⟨i, Or.inr hi, hb⟩
  · exact Or.inr ⟨i, Or.inl hi, rfl⟩

theorem bind_ok {f : α → β} (h : SettledBy failure obstacle x) :
    SettledBy failure obstacle (x >>= fun a => .ok (f a)) := by
  rcases h with ⟨⟨a, rfl⟩, hnone⟩ | ⟨i, hi, rfl⟩
  · exact Or.inl ⟨⟨f a, rfl⟩, hnone⟩
  · exact Or.inr ⟨i, hi, rfl⟩

/-- What is done to a failure is done to the one of an obstacle. -/
theorem mapError (g : Failure → Failure) (h : SettledBy failure obstacle x) :
    SettledBy (fun i => g (failure i)) obstacle (x.mapError g) := by
  rcases h with ⟨⟨a, rfl⟩, hnone⟩ | ⟨i, hi, rfl⟩
  · exact Or.inl ⟨⟨a, rfl⟩, hnone⟩
  · exact Or.inr ⟨i, hi, rfl⟩

/-- It succeeds iff there is no obstacle. -/
theorem exists_ok (h : SettledBy failure obstacle x) :
    (∃ a, x = .ok a) ↔ ∀ i, ¬ obstacle i := by
  rcases h with ⟨hok, hnone⟩ | ⟨i, hi, rfl⟩
  · exact iff_of_true hok hnone
  · exact iff_of_false (by simp) fun h => h i hi

theorem of_error {e : Failure} (h : SettledBy failure obstacle x) (he : x = .error e) :
    ∃ i, obstacle i ∧ e = failure i := by
  rcases h with ⟨⟨a, rfl⟩, _⟩ | ⟨i, hi, rfl⟩
  · cases he
  · exact ⟨i, hi, (Except.error.inj he).symm⟩

end SettledBy

/-! ## 4. Refusals -/

/-- Whatever it is refused for has the given property. -/
def RefusedFor (P : Cause → Prop) (x : Outcome α) : Prop :=
  ∀ refusal, x = .error (.refused refusal) → P refusal.cause

namespace RefusedFor

variable {P Q : Cause → Prop} {x : Outcome α}

theorem ok (a : α) : RefusedFor P (.ok a : Outcome α) := fun _ h => by cases h

theorem defect (message : String) : RefusedFor P (.error (.defect message) : Outcome α) :=
  fun _ h => by cases h

theorem refuse {cause : Cause} (h : P cause) : RefusedFor P (refuse cause : Outcome α) := by
  intro refusal hrefusal
  obtain rfl := Failure.refused.inj (Except.error.inj hrefusal)
  exact h

theorem mono (h : RefusedFor P x) (weaker : ∀ cause, P cause → Q cause) : RefusedFor Q x :=
  fun refusal hx => weaker _ (h refusal hx)

/-- **What a chain is refused for** is what its first part or the rest is refused for. -/
theorem bind {f : α → Outcome β} (h : RefusedFor P x) (next : ∀ a, x = .ok a → RefusedFor P (f a)) :
    RefusedFor P (x >>= f) := by
  cases x with
  | ok a => exact next a rfl
  | error failure => exact fun refusal hx => h refusal (congrArg Except.error (Except.error.inj hx))

/-- The cause is the one that it is refused for. -/
theorem and_refusal (h : RefusedFor P x) :
    RefusedFor (fun cause => P cause ∧
      ∃ refusal, x = .error (.refused refusal) ∧ refusal.cause = cause) x :=
  fun refusal hx => ⟨h refusal hx, refusal, hx, rfl⟩

theorem ite {p : Prop} [Decidable p] {y : Outcome α} (hx : p → RefusedFor P x)
    (hy : ¬ p → RefusedFor P y) : RefusedFor P (if p then x else y) := by
  by_cases h : p
  · rw [if_pos h]
    exact hx h
  · rw [if_neg h]
    exact hy h

end RefusedFor

/-- A result, or the refusal of a value. -/
def ChecksValues (x : Outcome α) : Prop :=
  (∃ a, x = .ok a) ∨ ∃ subject fault, x = refuse (.invalidValue subject fault)

namespace ChecksValues

variable {x : Outcome α}

theorem ok (a : α) : ChecksValues (.ok a) := Or.inl ⟨a, rfl⟩

theorem refuse (subject : String) (fault : ValueFault) :
    ChecksValues (refuse (.invalidValue subject fault) : Outcome α) := Or.inr ⟨subject, fault, rfl⟩

theorem bind {f : α → Outcome β} (h : ChecksValues x) (next : ∀ a, ChecksValues (f a)) :
    ChecksValues (x >>= f) := by
  rcases h with ⟨a, rfl⟩ | ⟨subject, fault, rfl⟩
  · exact next a
  · exact .refuse subject fault

theorem ite {p : Prop} [Decidable p] {y : Outcome α} (hx : ChecksValues x) (hy : ChecksValues y) :
    ChecksValues (if p then x else y) := by
  by_cases hp : p
  · rw [if_pos hp]
    exact hx
  · rw [if_neg hp]
    exact hy

/-- What is not accepted is refused for a value. -/
theorem refused_iff (h : ChecksValues x) :
    (∃ subject fault, x = QueryPipeline.refuse (.invalidValue subject fault)) ↔
      ¬ ∃ a, x = .ok a := by
  rcases h with ⟨a, rfl⟩ | ⟨subject, fault, rfl⟩
  · refine iff_of_false ?_ fun hnone => hnone ⟨a, rfl⟩
    rintro ⟨_, _, ⟨⟩⟩
  · refine iff_of_true ⟨subject, fault, rfl⟩ ?_
    rintro ⟨_, ⟨⟩⟩

end ChecksValues

/-! ## 5. Corresponding results -/

/-- A relation between results that goes from the first checks of two chains, and from what follows
    them, to the chains. -/
structure Correspondence where
  rel : {α : Type} → Outcome α → Outcome α → Prop
  refl : ∀ {α : Type} (x : Outcome α), rel x x
  trans : ∀ {α : Type} {x y z : Outcome α}, rel x y → rel y z → rel x z
  bind : ∀ {α β : Type} {x y : Outcome α} {f g : α → Outcome β}, rel x y →
    (∀ a, rel (f a) (g a)) → rel (x >>= f) (y >>= g)

namespace Correspondence

/-- The same result or the same failure. -/
def same : Correspondence where
  rel x y := x = y
  refl _ := rfl
  trans h h' := h.trans h'
  bind h next := by rw [h, funext next]

/-- The same result, or failures on both sides, whichever they are. -/
def sameResult : Correspondence where
  rel x y := ∀ a, x = .ok a ↔ y = .ok a
  refl _ _ := Iff.rfl
  trans h h' a := (h a).trans (h' a)
  bind h next b := by
    rw [Outcome.bind_eq_ok, Outcome.bind_eq_ok]
    exact exists_congr fun a => and_congr (h a) (next a b)

theorem of_eq (R : Correspondence) {x y : Outcome α} (h : x = y) : R.rel x y := by
  rw [h]
  exact R.refl y

end Correspondence

/-- Two results that are both there and related, or both missing. -/
inductive RelatedBy (P : α → β → Prop) : Outcome α → Outcome β → Prop
  | ok {a : α} {b : β} (h : P a b) : RelatedBy P (.ok a) (.ok b)
  | error (e e' : Failure) : RelatedBy P (.error e) (.error e')

namespace RelatedBy

variable {γ δ : Type} {P : α → β → Prop} {Q : γ → δ → Prop} {x : Outcome α} {y : Outcome β}

theorem refl {P : α → α → Prop} (h : ∀ a, P a a) (x : Outcome α) : RelatedBy P x x := by
  cases x with
  | ok a => exact .ok (h a)
  | error e => exact .error e e

theorem of_eq {x y : Outcome α} (h : x = y) : RelatedBy Eq x y := by
  rw [h]
  exact refl (fun _ => rfl) y

theorem of_sameResult {x y : Outcome α} (h : Correspondence.sameResult.rel x y) :
    RelatedBy Eq x y := by
  cases x with
  | ok a => exact of_eq ((h a).mp rfl).symm
  | error e =>
    cases y with
    | ok b => cases (h b).mpr rfl
    | error e' => exact .error e e'

/-- **Chains are related** if their first parts are, and their rests on related results. -/
theorem bind {f : α → Outcome γ} {g : β → Outcome δ} (h : RelatedBy P x y)
    (next : ∀ a b, P a b → RelatedBy Q (f a) (g b)) : RelatedBy Q (x >>= f) (y >>= g) := by
  cases h with
  | ok hab => exact next _ _ hab
  | error e e' => exact .error e e'

/-- Chains with the same first part are related if their rests are. -/
theorem bind_same {x : Outcome α} {f : α → Outcome γ} {g : α → Outcome δ}
    (next : ∀ a, RelatedBy Q (f a) (g a)) : RelatedBy Q (x >>= f) (x >>= g) :=
  (of_eq rfl).bind fun a b (hab : a = b) => hab ▸ next a

theorem ite {p : Prop} [Decidable p] {x' : Outcome α} {y' : Outcome β} (h : RelatedBy P x y)
    (h' : RelatedBy P x' y') : RelatedBy P (if p then x else x') (if p then y else y') := by
  by_cases hp : p
  · rw [if_pos hp, if_pos hp]
    exact h
  · rw [if_neg hp, if_neg hp]
    exact h'

/-- What related results show in the same way is shown by one iff by the other. -/
theorem exists_ok_iff {view : α → γ} {view' : β → γ} (same : ∀ a b, P a b → view a = view' b)
    (h : RelatedBy P x y) (c : γ) :
    (∃ a, x = .ok a ∧ view a = c) ↔ ∃ b, y = .ok b ∧ view' b = c := by
  cases h with
  | ok hab => simp [same _ _ hab]
  | error e e' => simp

end RelatedBy

end QueryPipeline
