import Mathlib.Logic.Function.Basic
import QueryPipeline.Pipeline.Rendering
import QueryPipeline.Proofs.Runs

/-!
# Dialects by key

The registry puts the built-in dialect in late, and nobody can tell.

* `DialectTable` is the registry as it would be with the built-in dialect in it from the start;
* `DialectRegistry.table` reads such a table off a registry, prepared or not, and each call to the
  registry is the call to the table (`table_call`);
* `Stands` says which registration of a key is the last one since everything was cleared;
* **`registry_as_eager`**: what a key gives is the registration that stands, else the built-in
  dialect under its own key, and pipelines are rendered accordingly.
-/

namespace QueryPipeline

/-! ## 1. Calls -/

/-- A call to the registry. -/
inductive RegistryCall
  | register (key : String) (factory : DialectFactory)
  | create (key : String)
  | clear

/-- Whether a call is made to change what keys stand for. -/
def RegistryCall.changes : RegistryCall → Bool
  | create _ => false
  | _ => true

namespace DialectRegistry

/-- The registry after a call. -/
def call (r : DialectRegistry) : RegistryCall → DialectRegistry
  | .register key factory => r.register key factory
  | .create key => (r.create key).1
  | .clear => r.clear

/-- The registry after several calls. -/
def run (r : DialectRegistry) (calls : List RegistryCall) : DialectRegistry := calls.foldl call r

/-- The registry after calls that began when there was nothing in it. -/
def after (calls : List RegistryCall) : DialectRegistry := empty.run calls

end DialectRegistry

/-- The factories of all keys. -/
abbrev DialectTable := String → Option DialectFactory

namespace DialectTable

/-- The built-in dialect and no others. -/
def initial : DialectTable :=
  fun key => if key = Arrow.name then some ({} : Arrow).renderer else none

/-- The table after a call. -/
def call (t : DialectTable) : RegistryCall → DialectTable
  | .register key factory => Function.update t key (some factory)
  | .create _ => t
  | .clear => initial

/-- What a key gives. -/
def create (t : DialectTable) (key : String) : Outcome Renderer :=
  match t key with
  | some factory => factory.make
  | none => refuse (.invalidValue key .unregisteredDialect)

end DialectTable

/-! ## 2. The registry as a table -/

namespace DialectRegistry

/-- The table that a registry stands for. -/
def table (r : DialectRegistry) : DialectTable := r.prepare.find?

theorem find?_register (r : DialectRegistry) (key : String) (factory : DialectFactory) :
    (r.register key factory).find? = Function.update r.find? key (some factory) := by
  funext other
  by_cases h : other = key
  · subst h
    rw [Function.update_self]
    simp [find?, register]
  · rw [Function.update_of_ne h]
    simp [find?, register, Ne.symm h]

/-- A registry that was not prepared yet stands for the built-in dialect as well, unless its key is
    taken. -/
theorem table_apply (r : DialectRegistry) (key : String) :
    r.table key =
      if r.ready then r.find? key else (r.find? key).or (DialectTable.initial key) := by
  unfold table prepare
  by_cases hready : r.ready = true
  · rw [if_pos hready, if_pos hready]
  · rw [if_neg hready, if_neg hready]
    have hfind : ({ r with ready := true } : DialectRegistry).find? = r.find? := rfl
    simp only [hfind]
    cases htaken : r.find? Arrow.name with
    | some factory =>
      rw [Option.isSome_some, if_pos rfl, hfind]
      by_cases hkey : key = Arrow.name
      · rw [hkey, htaken]
        rfl
      · rw [DialectTable.initial, if_neg hkey, Option.or_none]
    | none =>
      rw [Option.isSome_none, if_neg Bool.false_ne_true, find?_register, hfind]
      by_cases hkey : key = Arrow.name
      · rw [hkey, Function.update_self, htaken, DialectTable.initial, if_pos rfl, Option.none_or]
      · rw [Function.update_of_ne hkey, DialectTable.initial, if_neg hkey, Option.or_none]

theorem table_empty : empty.table = DialectTable.initial := by
  funext key
  rw [table_apply]
  rfl

theorem table_register (r : DialectRegistry) (key : String) (factory : DialectFactory) :
    (r.register key factory).table = Function.update r.table key (some factory) := by
  funext other
  have hready : (r.register key factory).ready = r.ready := rfl
  rw [table_apply, hready, find?_register]
  by_cases h : other = key
  · rw [h, Function.update_self, Function.update_self, Option.some_or, ite_self]
  · rw [Function.update_of_ne h, Function.update_of_ne h, table_apply]

theorem prepare_prepare (r : DialectRegistry) : r.prepare.prepare = r.prepare := by
  have hready : r.prepare.ready = true := by
    unfold prepare
    by_cases h : r.ready = true
    · rw [if_pos h, h]
    · rw [if_neg h]
      by_cases htaken :
          (({ r with ready := true } : DialectRegistry).find? Arrow.name).isSome = true
      · simp only [htaken, if_true]
      · simp only [htaken]
        rfl
  rw [prepare, if_pos hready]

theorem create_eq (r : DialectRegistry) (key : String) :
    r.create key = (r.prepare, r.table.create key) := by
  simp only [create, DialectTable.create, table]
  cases r.prepare.find? key <;> rfl

/-- **Each call to the registry is the call to the table.** -/
theorem table_call (r : DialectRegistry) (c : RegistryCall) :
    (r.call c).table = r.table.call c := by
  cases c with
  | register key factory => exact r.table_register key factory
  | create key =>
    rw [call, create_eq, table, prepare_prepare]
    rfl
  | clear => exact table_empty

theorem table_run (r : DialectRegistry) (calls : List RegistryCall) :
    (r.run calls).table = calls.foldl DialectTable.call r.table := by
  induction calls generalizing r with
  | nil => rfl
  | cons c rest ih =>
    have hrun : r.run (c :: rest) = (r.call c).run rest := rfl
    rw [hrun, ih, table_call, List.foldl_cons]

/-- **What a key gives after some calls** is what it gives in the table after them. -/
theorem create_after (calls : List RegistryCall) (key : String) :
    ((after calls).create key).2 =
      DialectTable.create (calls.foldl DialectTable.call .initial) key := by
  rw [create_eq, after, table_run, table_empty]

end DialectRegistry

/-! ## 3. The registration that stands -/

/-- The last registration of a key since everything was cleared. -/
def Stands (calls : List RegistryCall) (key : String) (factory : DialectFactory) : Prop :=
  ∃ before after, calls = before ++ .register key factory :: after ∧ .clear ∉ after ∧
    ∀ other, .register key other ∉ after

namespace DialectTable

variable {key : String}

/-- A call that does not concern a key leaves it as it is. -/
theorem call_of_unconcerned (t : DialectTable) {c : RegistryCall} (hclear : c ≠ .clear)
    (hregister : ∀ factory, c ≠ .register key factory) : t.call c key = t key := by
  cases c with
  | register other factory =>
    have hkey : key ≠ other := fun h => hregister factory (h ▸ rfl)
    exact Function.update_of_ne hkey _ _
  | create other => rfl
  | clear => exact absurd rfl hclear

theorem foldl_call_of_unconcerned (t : DialectTable) {calls : List RegistryCall}
    (hclear : .clear ∉ calls) (hregister : ∀ factory, .register key factory ∉ calls) :
    calls.foldl call t key = t key := by
  induction calls generalizing t with
  | nil => rfl
  | cons c rest ih =>
    have hrest := ih (t.call c) (fun h => hclear (List.mem_cons_of_mem c h))
      fun factory h => hregister factory (List.mem_cons_of_mem c h)
    rw [List.foldl_cons, hrest]
    refine t.call_of_unconcerned (fun h => hclear (h ▸ List.mem_cons_self)) fun factory h => ?_
    exact hregister factory (h ▸ List.mem_cons_self)

/-- **A registration that stands is the one in the table.** -/
theorem foldl_call_of_stands (t : DialectTable) {calls : List RegistryCall}
    {factory : DialectFactory} (h : Stands calls key factory) :
    calls.foldl call t key = some factory := by
  obtain ⟨before, after, rfl, hclear, hregister⟩ := h
  rw [List.foldl_append, List.foldl_cons, foldl_call_of_unconcerned _ hclear hregister]
  exact Function.update_self key _ _

/-- **Where no registration stands** the table is as it was in the beginning. -/
theorem foldl_call_of_not_stands {calls : List RegistryCall}
    (h : ∀ factory, ¬ Stands calls key factory) : calls.foldl call initial key = initial key := by
  -- induction on the calls from the end: only the last one can undo what stands
  induction calls using List.reverseRecOn with
  | nil => rfl
  | append_singleton calls c ih =>
    rw [List.foldl_append, List.foldl_cons, List.foldl_nil]
    by_cases hclear : c = .clear
    · rw [hclear]
      rfl
    · have hregister : ∀ factory, c ≠ .register key factory := fun factory hc =>
        h factory ⟨calls, [], by rw [hc], List.not_mem_nil, fun _ => List.not_mem_nil⟩
      rw [call_of_unconcerned _ hclear hregister]
      refine ih fun factory hstands => h factory ?_
      obtain ⟨before, after, rfl, hafter, hothers⟩ := hstands
      refine ⟨before, after ++ [c], by simp, ?_, fun other => ?_⟩
      · simp [hafter, Ne.symm hclear]
      · simp [hothers, Ne.symm (hregister other)]

/-- Calls that ask for a dialect leave the table as it is. -/
theorem foldl_call_filter (t : DialectTable) (calls : List RegistryCall) :
    (calls.filter RegistryCall.changes).foldl call t = calls.foldl call t := by
  rw [List.foldl_filter]
  congr 1
  funext t c
  cases c <;> rfl

end DialectTable

/-! ## 4. Rendering by a key -/

namespace Pipeline

variable {r : DialectRegistry} {key : String}

/-- Rendering by a key is rendering by the renderer that the key gives. -/
theorem renderBy_key {renderer : Renderer} (p : Pipeline) (h : (r.create key).2 = .ok renderer) :
    (p.renderBy r (some (.key key))).2 = (p.renderBy r (some (.renderer renderer))).2 := by
  simp only [renderBy, Option.getD_some, DialectRegistry.choose]
  cases hcreate : r.create key with
  | mk registry chosen =>
    rw [hcreate] at h
    obtain rfl := h
    rfl

theorem renderBy_key_error {failure : Failure} (p : Pipeline)
    (h : (r.create key).2 = .error failure) :
    (p.renderBy r (some (.key key))).2 = .quiet (.error failure) := by
  simp only [renderBy, Option.getD_some, DialectRegistry.choose]
  cases hcreate : r.create key with
  | mk registry chosen =>
    rw [hcreate] at h
    obtain rfl := h
    rfl

theorem suffixBy_key (c : Clause) :
    (suffixBy r c (some (.key key))).2 =
      (r.create key).2 >>= fun renderer => renderer.renderSuffix c := rfl

end Pipeline

/-- **The registry answers as if the built-in dialect had been in it from the start.** After any
    calls, a key gives what the factory makes whose registration stands; where none does, the
    built-in key gives the built-in dialect and any other one is refused as not registered. Calls
    that only ask make no difference, wherever they are made. Where no dialect is given, pipelines
    and clauses are written in the built-in one, and where a key is given, by the renderer that the
    key gives, or they fail as the key does. -/
theorem registry_as_eager (calls : List RegistryCall) (key : String) :
    (∀ factory, Stands calls key factory →
      ((DialectRegistry.after calls).create key).2 = factory.make) ∧
    ((∀ factory, ¬ Stands calls key factory) →
      ((DialectRegistry.after calls).create key).2 =
        if key = Arrow.name then .ok ({} : Arrow).renderer
        else refuse (.invalidValue key .unregisteredDialect)) ∧
    (∀ others, others.filter RegistryCall.changes = calls.filter RegistryCall.changes →
      ((DialectRegistry.after others).create key).2 =
        ((DialectRegistry.after calls).create key).2) ∧
    ∀ (p : Pipeline) (c : Clause),
      (p.renderBy (.after calls) none).2 = p.render ({} : Arrow).renderer ∧
      (Pipeline.suffixBy (.after calls) c none).2 = ({} : Arrow).renderSuffix c ∧
      (∀ renderer, ((DialectRegistry.after calls).create key).2 = .ok renderer →
        (p.renderBy (.after calls) (some (.key key))).2 =
          (p.renderBy (.after calls) (some (.renderer renderer))).2 ∧
        (Pipeline.suffixBy (.after calls) c (some (.key key))).2 =
          (Pipeline.suffixBy (.after calls) c (some (.renderer renderer))).2) ∧
      ∀ failure, ((DialectRegistry.after calls).create key).2 = .error failure →
        (p.renderBy (.after calls) (some (.key key))).2 = .quiet (.error failure) ∧
        (Pipeline.suffixBy (.after calls) c (some (.key key))).2 = .error failure := by
  refine ⟨fun factory hstands => ?_, fun hnone => ?_, fun others hsame => ?_,
    fun p c => ⟨rfl, rfl, fun renderer h => ⟨p.renderBy_key h, ?_⟩,
      fun failure h => ⟨p.renderBy_key_error h, ?_⟩⟩⟩
  · rw [DialectRegistry.create_after, DialectTable.create,
      DialectTable.foldl_call_of_stands _ hstands]
  · rw [DialectRegistry.create_after, DialectTable.create,
      DialectTable.foldl_call_of_not_stands hnone, DialectTable.initial]
    by_cases hkey : key = Arrow.name
    · rw [if_pos hkey, if_pos hkey]
    · rw [if_neg hkey, if_neg hkey]
  · rw [DialectRegistry.create_after, DialectRegistry.create_after,
      ← DialectTable.foldl_call_filter, hsame, DialectTable.foldl_call_filter]
  · rw [Pipeline.suffixBy_key, h]
    rfl
  · rw [Pipeline.suffixBy_key, h]
    rfl

/-- The built-in dialect with its terms written out. -/
def termRenderer : Renderer := ({ orderStyle := .term } : Arrow).renderer

/-- Calls that replace the built-in dialect, once in vain and once after it was asked for, ask for a
    key that is not registered, and register a factory that fails. -/
def overridingCalls : List RegistryCall :=
  [.register Arrow.name ⟨.error (.defect "no renderer")⟩, .clear, .create Arrow.name,
    .register Arrow.name termRenderer, .create "nope",
    .register "broken" ⟨.error (.defect "no renderer")⟩]

/-- The people by age, the oldest first. -/
def peopleByAge : Pipeline :=
  Pipeline.ofPeople.extended ⟨.orderBy [⟨.desc, .column "age"⟩], Pipeline.ofPeople.schema⟩

theorem registry_as_eager_overridden :
    Stands overridingCalls Arrow.name termRenderer ∧
      ((DialectRegistry.after overridingCalls).create Arrow.name).2 = .ok termRenderer ∧
      (peopleByAge.renderBy (.after overridingCalls) (some (.key Arrow.name))).2.result =
        .ok "company.people\n->sort([age desc])" ∧
      (peopleByAge.renderBy (.after overridingCalls) none).2.result =
        .ok "company.people\n->sort([desc])" ∧
      ((DialectRegistry.after overridingCalls).create "nope").2 =
        refuse (.invalidValue "nope" .unregisteredDialect) ∧
      (peopleByAge.renderBy (.after overridingCalls) (some (.key "broken"))).2.result =
        .error (.defect "no renderer") := by
  have overridden : Stands overridingCalls Arrow.name termRenderer :=
    ⟨overridingCalls.take 3, overridingCalls.drop 4, rfl, by simp [overridingCalls],
      by simp [overridingCalls, Arrow.name]⟩
  have broken : Stands overridingCalls "broken" ⟨.error (.defect "no renderer")⟩ :=
    ⟨overridingCalls.take 5, [], rfl, List.not_mem_nil, fun _ => List.not_mem_nil⟩
  have missing : ∀ factory, ¬ Stands overridingCalls "nope" factory := by
    rintro factory ⟨before, after, hcalls, _⟩
    have hmem : .register "nope" factory ∈ overridingCalls := by simp [hcalls]
    simp [overridingCalls, Arrow.name] at hmem
  obtain ⟨builtIn, _, _, written⟩ := registry_as_eager overridingCalls Arrow.name
  obtain ⟨hstandard, _, hkey, _⟩ := written peopleByAge (.distinct [])
  obtain ⟨fails, _, _, unwritten⟩ := registry_as_eager overridingCalls "broken"
  obtain ⟨_, _, _, hbroken⟩ := unwritten peopleByAge (.distinct [])
  obtain ⟨_, refuses, _⟩ := registry_as_eager overridingCalls "nope"
  refine ⟨overridden, builtIn _ overridden, ?_, ?_, refuses missing, ?_⟩
  · rw [(hkey _ (builtIn _ overridden)).1]
    rfl
  · rw [hstandard]
    rfl
  · rw [(hbroken _ (fails _ broken)).1]
    rfl

end QueryPipeline
