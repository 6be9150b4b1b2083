import Mathlib
import Stencil.Proofs.Output.Customs

namespace Stencil

variable {κ : Type}

/-! ## Values without a host -/

namespace Traits

variable {α : Type}

structure Hostless (traits : Traits κ α) : Prop where
  lookup : ∀ name, traits.lookup ≠ some (.host name)
  filter : ∀ name, traits.filter ≠ some (.host name)
  renderer : ∀ name, traits.renderer ≠ some (.host name)
  will : traits.will = none
  did : traits.did = none

end Traits

namespace Value

abbrev Hostless : Value κ → Prop :=
  Every Traits.Hostless

def wrapped (identity : Nat) (value : Value κ) : Value κ :=
  .custom identity (some value) {}

variable {value other : Value κ}

namespace Hostless

theorem standard : Value.Standard (Traits.Hostless : Traits κ (Value κ) → Prop) where
  each := ⟨nofun, nofun, nofun, rfl, rfl⟩
  escape := ⟨nofun, nofun, nofun, rfl, rfl⟩
  item _ _ := ⟨nofun, nofun, nofun, rfl, rfl⟩
  escaped _ := ⟨nofun, nofun, nofun, rfl, rfl⟩

theorem kept [Functions κ] : Value.Kept (Traits.Hostless : Traits κ (Value κ) → Prop) where
  toStandard := standard
  lookup hostless found := absurd found (hostless.lookup _)
  filter hostless found := absurd found (hostless.filter _)

theorem wrapped (hostless : value.Hostless) (identity : Nat) : (value.wrapped identity).Hostless :=
  Every.custom (by simpa [Traits.parts] using hostless) ⟨nofun, nofun, nofun, rfl, rfl⟩

theorem rendering {renderer : Renderer κ (Value κ)} (parts : ∀ part ∈ renderer.parts, Hostless part)
    (host : ∀ name, renderer ≠ .host name) : (Value.rendering renderer).Hostless :=
  Every.rendering parts ⟨nofun, nofun, by simpa using host, rfl, rfl⟩

theorem hooks (hostless : value.Hostless) : value.will? = none ∧ value.did? = none := by
  cases hostless with
  | custom _ traits => exact ⟨traits.will, traits.did⟩
  | _ => exact ⟨rfl, rfl⟩

theorem filter? (hostless : value.Hostless) (name : κ) : value.filter? ≠ some (.host name) := by
  intro found
  obtain ⟨traits, own, set⟩ := Every.filter? hostless found
  exact own.filter name set

theorem closed [Functions κ] : Value.Closed (Hostless : Value κ → Prop) Hostless :=
  Every.closed kept

end Hostless

/-! ## Values that differ by wrapping -/

/-- A value that a section does not render by other means than a value that wraps it: no renderer of
its own, and no list that it wraps. -/
def Bare : Value κ → Prop
  | .custom _ inner traits => traits.renderer = none ∧ ∀ items, inner ≠ some (.list items)
  | _ => True

inductive Alike : Value κ → Value κ → Prop
  | same {value : Value κ} : value.Hostless → Alike value value
  | wrapped {value : Value κ} {identity : Nat} : value.Hostless → value.Bare →
      Alike value (value.wrapped identity)
  | unwrapped {value : Value κ} {identity : Nat} : value.Hostless → value.Bare →
      Alike (value.wrapped identity) value
  | escaped {value other : Value κ} : Alike value other →
      Alike (.rendering (.escaped value)) (.rendering (.escaped other))

namespace Alike

theorem hostless (alike : value.Alike other) : value.Hostless ∧ other.Hostless := by
  induction alike with
  | same hostless => exact ⟨hostless, hostless⟩
  | wrapped hostless => exact ⟨hostless, hostless.wrapped _⟩
  | unwrapped hostless => exact ⟨hostless.wrapped _, hostless⟩
  | escaped _ ih =>
      exact ⟨.rendering (by simpa [Renderer.parts] using ih.1) nofun,
        .rendering (by simpa [Renderer.parts] using ih.2) nofun⟩

theorem isEmpty_eq (alike : value.Alike other) : other.isEmpty = value.isEmpty := by
  cases alike <;> rfl

theorem truth_eq (alike : value.Alike other) : other.truth = value.truth := by
  cases alike <;> rfl

theorem entries?_eq (alike : value.Alike other) : other.entries? = value.entries? := by
  cases alike <;> rfl

theorem items?_eq (alike : value.Alike other) : other.items? = value.items? := by
  cases alike <;> rfl

theorem filter?_eq (alike : value.Alike other) : other.filter? = value.filter? := by
  cases alike <;> rfl

theorem lookup_eq [Functions κ] (alike : value.Alike other) (key : String) :
    other.lookup key = value.lookup key := by
  cases alike <;> rfl

end Alike

end Value

/-! ## Errors and contexts -/

/-- Errors that differ in the description of a value that is no list, at most. -/
inductive RenderError.Alike : RenderError → RenderError → Prop
  | same {error : RenderError} : Alike error error
  | nonEnumerable {value value' : String} : Alike (.nonEnumerable value) (.nonEnumerable value')
  | evaluation {tag : String} {error error' : RenderError} : Alike error error' →
      Alike (.evaluation tag error.message) (.evaluation tag error'.message)

inductive Agree {α β : Type} (R : α → β → Prop) :
    Except RenderError α → Except RenderError β → Prop
  | ok {a : α} {b : β} : R a b → Agree R (.ok a) (.ok b)
  | error {error error' : RenderError} : error.Alike error' → Agree R (.error error) (.error error')

theorem Agree.bind {α β α' β' : Type} {R : α → β → Prop} {S : α' → β' → Prop}
    {result : Except RenderError α} {other : Except RenderError β}
    {next : α → Except RenderError α'} {next' : β → Except RenderError β'}
    (first : Agree R result other) (rest : ∀ {a b}, R a b → Agree S (next a) (next' b)) :
    Agree S (result >>= next) (other >>= next') := by
  cases first with
  | ok related => exact rest related
  | error alike => exact .error alike

structure Context.Alike (context other : Context κ) : Prop where
  values : List.Forall₂ Value.Alike context.values other.values
  frames : other.frames = context.frames
  overlay : other.overlay = context.overlay
  hostless : ∀ value ∈ context.overlay, value.Hostless

namespace Context

variable {context other : Context κ}

theorem Each.alike (each : context.Each Value.Hostless) : context.Alike context where
  values := List.forall₂_same.mpr fun value member => .same (each.values value member)
  frames := rfl
  overlay := rfl
  hostless := each.overlay

theorem Each.hookless (each : context.Each Value.Hostless) :
    context.wills = [] ∧ context.dids = [] := by
  unfold wills dids
  rw [List.reverse_eq_nil_iff, List.filterMap_eq_nil_iff, List.filterMap_eq_nil_iff]
  exact ⟨fun value member => (each.values value member).hooks.1,
    fun value member => (each.values value member).hooks.2⟩

namespace Alike

theorem push (alike : context.Alike other) {value value' : Value κ} (pushed : value.Alike value') :
    (context.push value).Alike (other.push value') where
  values := .cons pushed alike.values
  frames := alike.frames
  overlay := by simpa using alike.overlay
  hostless := by simpa using alike.hostless

theorem pushFrame (alike : context.Alike other) (frame : Frame) :
    (context.pushFrame frame).Alike (other.pushFrame frame) where
  values := alike.values
  frames := congrArg (frame :: ·) alike.frames
  overlay := by simpa using alike.overlay
  hostless := by simpa using alike.hostless

theorem each (alike : context.Alike other) :
    context.Each Value.Hostless ∧ other.Each Value.Hostless := by
  have values : (∀ value ∈ context.values, value.Hostless) ∧
      ∀ value ∈ other.values, value.Hostless := by
    have paired := alike.values
    generalize context.values = values, other.values = values' at paired
    induction paired with
    | nil => simp
    | cons first _ ih =>
        exact ⟨List.forall_mem_cons.mpr ⟨first.hostless.1, ih.1⟩,
          List.forall_mem_cons.mpr ⟨first.hostless.2, ih.2⟩⟩
  exact ⟨⟨values.1, alike.hostless⟩, ⟨values.2, alike.overlay ▸ alike.hostless⟩⟩

theorem top (alike : context.Alike other) : context.top.Alike other.top := by
  have paired := alike.values
  unfold Context.top
  generalize context.values = values, other.values = values' at paired
  cases paired with
  | nil => exact .same .null
  | cons first _ => exact first

theorem lookup [Functions κ] (alike : context.Alike other) (key : String) :
    (context.lookup key).Alike (other.lookup key) := by
  have lookups : other.values.map (Value.lookup key) = context.values.map (Value.lookup key) := by
    have paired := alike.values
    generalize context.values = values, other.values = values' at paired
    induction paired with
    | nil => rfl
    | cons first _ ih => rw [List.map_cons, List.map_cons, first.lookup_eq, ih]
  have same : other.lookup key = context.lookup key := by
    simp only [lookup_eq, List.map_append, lookups, alike.overlay]
  rw [same]
  exact .same (Value.Hostless.closed.lookup_context alike.each.1 key)

end Alike

end Context

/-! ## Expressions -/

namespace Filter

theorem iterate_alike [Functions κ] {value other : Value κ} (alike : value.Alike other) :
    Agree Value.Alike (iterate value) (iterate other) := by
  unfold iterate
  rw [alike.isEmpty_eq, alike.entries?_eq, alike.items?_eq]
  split
  · exact .ok alike
  · cases entries : value.entries? with
    | some entries =>
        have hostless := Value.Every.entries? alike.hostless.1 entries
        exact .ok (.same (Value.Hostless.closed.positioned (List.forall_mem_map.mpr hostless)))
    | none =>
        cases items : value.items? with
        | some items =>
            have hostless := Value.Every.items? alike.hostless.1 items
            exact .ok (.same (Value.Hostless.closed.positioned (List.forall_mem_map.mpr hostless)))
        | none => exact .error .nonEnumerable

theorem withOne_alike (name : String) {apply : Value κ → Except RenderError (Value κ)}
    (one : ∀ {value other}, value.Alike other → Agree Value.Alike (apply value) (apply other))
    {arguments arguments' : List (Value κ)}
    (alike : List.Forall₂ Value.Alike arguments arguments') :
    Agree Value.Alike (withOne name arguments apply) (withOne name arguments' apply) := by
  have lengths := alike.length_eq
  unfold withOne
  cases alike with
  | nil => exact .error .same
  | cons first rest =>
      cases rest with
      | nil => exact one first
      | cons =>
          rw [lengths]
          exact .error .same

theorem apply_alike [Functions κ] {filter : Filter κ} (standard : ∀ name, filter ≠ .host name)
    {arguments arguments' : List (Value κ)}
    (alike : List.Forall₂ Value.Alike arguments arguments') :
    Agree Value.Alike (filter.apply arguments) (filter.apply arguments') := by
  cases filter with
  | each => exact withOne_alike _ iterate_alike alike
  | escape => exact withOne_alike _ (fun alike => .ok (.escaped alike)) alike
  | host name => exact absurd rfl (standard name)

end Filter

namespace Expression

variable [Functions κ] {context other : Context κ}

mutual

theorem evaluate_alike (alike : context.Alike other) : (expression : Expression) →
    Agree Value.Alike (expression.evaluate context) (expression.evaluate other)
  | .top => .ok alike.top
  | .name identifier => .ok (alike.lookup identifier)
  | .key base identifier => by
    rw [evaluate, evaluate]
    apply (evaluate_alike alike base).bind
    intro value value' related
    rw [related.lookup_eq]
    exact .ok (.same (Value.Hostless.closed.lookup related.hostless.1 identifier))
  | .call filter arguments => by
    rw [evaluate, evaluate]
    apply (evaluate_alike alike filter).bind
    intro value value' related
    rw [related.isEmpty_eq, related.filter?_eq]
    cases value.isEmpty with
    | true => exact .error .same
    | false =>
        cases found : value.filter? with
        | none => exact .error .same
        | some applied =>
            have standard (name : κ) : applied ≠ .host name := by
              rintro rfl
              exact related.hostless.1.filter? name found
            exact (evaluateArguments_alike alike arguments).bind (Filter.apply_alike standard)

theorem evaluateArguments_alike (alike : context.Alike other) : (arguments : List Expression) →
    Agree (List.Forall₂ Value.Alike) (evaluateArguments context arguments)
      (evaluateArguments other arguments)
  | [] => .ok .nil
  | argument :: arguments => by
    rw [evaluateArguments, evaluateArguments]
    apply (evaluate_alike alike argument).bind
    intro value value' first
    apply (evaluateArguments_alike alike arguments).bind
    intro values values' rest
    exact .ok (.cons first rest)

end

end Expression

end Stencil
