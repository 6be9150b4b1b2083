import Stencil.Proofs.Context.Nodes
import Stencil.Stock

namespace Stencil.Context

variable {κ : Type}

inductive Step (κ : Type) where
  | push (value : Value κ)
  | pushFrame (frame : Frame)
  | register (key : String) (value : Value κ)

namespace Step

def take (context : Context κ) : Step κ → Context κ
  | .push value => context.push value
  | .pushFrame frame => context.pushFrame frame
  | .register key value => context.register key value

def value? : Step κ → Option (Value κ)
  | .push value => some value
  | _ => none

def frame? : Step κ → Option Frame
  | .pushFrame frame => some frame
  | _ => none

def registration? : Step κ → Option (String × Value κ)
  | .register key value => some (key, value)
  | _ => none

def values (steps : List (Step κ)) : List (Value κ) :=
  (steps.filterMap value?).reverse

def frames (steps : List (Step κ)) : List Frame :=
  (steps.filterMap frame?).reverse

def registrations (steps : List (Step κ)) : List (String × Value κ) :=
  (steps.filterMap registration?).reverse

end Step

def ofSteps (steps : List (Step κ)) : Context κ :=
  steps.foldl Step.take empty

def entry (registration : String × Value κ) : Value κ :=
  .ofPairs [registration]

/-- The nodes of a context hold three lists. A context of registered keys has none of its own. -/
structure Holds (context : Context κ) (steps : List (Step κ)) : Prop where
  values : context.values = Step.values steps
  frames : context.frames = Step.frames steps
  overlay : context.overlay = (Step.registrations steps).map entry
  flat : ∀ registered ∈ context.registered?, registered.overlay = []

theorem reverse_filterMap_snoc {α β : Type} (f : α → Option β) (as : List α) (a : α) :
    ((as ++ [a]).filterMap f).reverse = (f a).toList ++ (as.filterMap f).reverse := by
  cases h : f a <;> simp [h]

theorem overlay_register {context : Context κ}
    (flat : ∀ registered ∈ context.registered?, registered.overlay = []) (key : String)
    (value : Value κ) :
    (context.register key value).overlay = entry (key, value) :: context.overlay := by
  obtain ⟨kind, _ | registered⟩ := context
  · rfl
  · have alone : registered.overlay = [] := flat registered rfl
    simp [register, overlay, registered?, alone, entry]

theorem flat_register {context : Context κ}
    (flat : ∀ registered ∈ context.registered?, registered.overlay = []) (key : String)
    (value : Value κ) :
    ∀ registered ∈ (context.register key value).registered?, registered.overlay = [] := by
  rintro _ ⟨⟩
  rw [overlay_push]
  obtain ⟨kind, _ | registered⟩ := context
  · rfl
  · exact flat registered rfl

theorem Holds.take {context : Context κ} {steps : List (Step κ)} (holds : context.Holds steps)
    (step : Step κ) : (step.take context).Holds (steps ++ [step]) where
  values := by
    rw [Step.values, reverse_filterMap_snoc, ← Step.values, ← holds.values]
    cases step <;> simp [Step.take, Step.value?]
  frames := by
    rw [Step.frames, reverse_filterMap_snoc, ← Step.frames, ← holds.frames]
    cases step <;> simp [Step.take, Step.frame?]
  overlay := by
    rw [Step.registrations, reverse_filterMap_snoc, ← Step.registrations, List.map_append,
      ← holds.overlay]
    cases step with
    | register key value => exact overlay_register holds.flat key value
    | _ => simp [Step.take, Step.registration?]
  flat := by
    cases step with
    | register key value => exact flat_register holds.flat key value
    | _ => exact holds.flat

theorem ofSteps_holds (steps : List (Step κ)) : (ofSteps steps).Holds steps := by
  induction steps using List.reverseRecOn with
  | nil => exact ⟨rfl, rfl, rfl, nofun⟩
  | append_singleton steps step ih =>
      rw [ofSteps, List.foldl_append]
      exact ih.take step

variable [Functions κ]

theorem lookup_entry (registration : String × Value κ) (key : String) :
    (entry registration).lookup key =
      if registration.1 = key then registration.2 else .null := by
  obtain ⟨name, value⟩ := registration
  by_cases same : name = key
  · simp [entry, Value.ofPairs, Dictionary.ofPairs, Entries.insert, Entries.toList, Value.lookup,
      same]
  · simp [entry, Value.ofPairs, Dictionary.ofPairs, Entries.insert, Entries.toList, Value.lookup,
      List.lookup_cons, beq_false_of_ne (Ne.symm same), same]

theorem find?_entries (registrations : List (String × Value κ)) (key : String) :
    ((registrations.map entry).map (Value.lookup key)).find? (fun value => !value.isEmpty) =
      (registrations.find? fun (name, value) => name = key ∧ !value.isEmpty).map Prod.snd := by
  induction registrations with
  | nil => rfl
  | cons registration registrations ih =>
      simp only [List.map_cons, List.find?_cons, lookup_entry, ih]
      by_cases same : registration.1 = key
      · cases empty : registration.2.isEmpty <;> simp [same, empty]
      · simp [same, Value.isEmpty]

theorem Holds.lookup_eq {context : Context κ} {steps : List (Step κ)} (holds : context.Holds steps)
    (key : String) : context.lookup key =
      (((Step.registrations steps).find? fun (name, value) =>
          name = key ∧ !value.isEmpty).map Prod.snd).getD
        ((((Step.values steps).map (Value.lookup key)).find? fun value => !value.isEmpty).getD
          .null) := by
  rw [Context.lookup_eq, Value.firstFilled, holds.overlay, holds.values, List.map_append,
    List.find?_append, find?_entries, Option.getD_or]

theorem ofSteps_lists (steps : List (Step κ)) :
    let context := ofSteps steps
    let values := Step.values steps
    (∀ key, context.lookup key =
      (((Step.registrations steps).find? fun (name, value) =>
          name = key ∧ !value.isEmpty).map Prod.snd).getD
        (((values.map (Value.lookup key)).find? fun value => !value.isEmpty).getD .null)) ∧
    context.top = values.head?.getD .null ∧
    context.wills = values.filterMap Value.will? ∧
    context.dids = (values.filterMap Value.did?).reverse ∧
    context.frames = Step.frames steps ∧
    ∀ others : List (Step κ),
      (Step.values others = values → (ofSteps others).top = context.top ∧
        (ofSteps others).wills = context.wills ∧ (ofSteps others).dids = context.dids) ∧
      (Step.values others = values → Step.registrations others = Step.registrations steps →
        ∀ key, (ofSteps others).lookup key = context.lookup key) ∧
      (Step.frames others = Step.frames steps → (ofSteps others).frames = context.frames) := by
  intro context values
  have holds : context.Holds steps := ofSteps_holds steps
  refine ⟨holds.lookup_eq, ?_, ?_, ?_, holds.frames, fun others => ?_⟩
  · rw [top, holds.values, List.headD_eq_head?_getD]
  · rw [wills, holds.values]
  · rw [dids, holds.values]
  have holds' := ofSteps_holds others
  refine ⟨fun same => ?_, fun same registered key => ?_, fun same => ?_⟩
  · have agree : (ofSteps others).values = context.values :=
      holds'.values.trans (same.trans holds.values.symm)
    simp only [top, wills, dids, agree, and_self]
  · rw [holds'.lookup_eq, holds.lookup_eq, same, registered]
  · exact holds'.frames.trans (same.trans holds.frames.symm)

theorem ofSteps_lists_interleaved :
    let frame : Frame := ⟨⟨0⟩, ⟨1⟩⟩
    let value : Value Stock := .ofPairs [("k", .bool true)]
    let steps : List (Step Stock) := [.register "k" (.int 1), .push value, .pushFrame frame]
    let others : List (Step Stock) := [.pushFrame frame, .push value, .register "k" (.int 1)]
    Step.values others = Step.values steps ∧
      Step.registrations others = Step.registrations steps ∧
      Step.frames others = Step.frames steps ∧
      (ofSteps others).top = (ofSteps steps).top ∧
      (ofSteps others).lookup "k" = (ofSteps steps).lookup "k" ∧
      (ofSteps others).frames = (ofSteps steps).frames := by
  intro frame value steps others
  have values : Step.values others = Step.values steps := rfl
  have registrations : Step.registrations others = Step.registrations steps := rfl
  have frames : Step.frames others = Step.frames steps := rfl
  obtain ⟨onValues, onRegistrations, onFrames⟩ := (ofSteps_lists steps).2.2.2.2.2 others
  exact ⟨values, registrations, frames, (onValues values).1,
    onRegistrations values registrations "k", onFrames frames⟩

end Stencil.Context
