import Mathlib
import Stencil.Lookup

namespace Stencil

variable {κ : Type}

theorem Value.firstFilled_append (values others : List (Value κ)) :
    firstFilled (values ++ others) =
      if (firstFilled values).isEmpty then firstFilled others else firstFilled values := by
  unfold firstFilled
  rw [List.find?_append]
  cases found : values.find? fun value => !value.isEmpty with
  | none => rfl
  | some value =>
      have filled : value.isEmpty = false := by simpa using List.find?_some found
      simp [filled]

namespace Context

/-- The values that are asked for a key before those of the stack. -/
def overlay : Context κ → List (Value κ)
  | .node _ none => []
  | .node _ (some registered) => registered.overlay ++ registered.values

variable {context : Context κ}

@[simp] theorem overlay_empty : (empty : Context κ).overlay = [] := rfl

@[simp] theorem overlay_push (context : Context κ) (value : Value κ) :
    (context.push value).overlay = context.overlay := by
  obtain ⟨kind, _ | registered⟩ := context <;> rfl

@[simp] theorem overlay_pushFrame (context : Context κ) (frame : Frame) :
    (context.pushFrame frame).overlay = context.overlay := by
  obtain ⟨kind, _ | registered⟩ := context <;> rfl

theorem lookup_eq [Functions κ] (key : String) : (context : Context κ) →
    context.lookup key =
      .firstFilled ((context.overlay ++ context.values).map (Value.lookup key))
  | .node kind none => rfl
  | .node kind (some registered) => by
    rw [lookup, overlay, List.map_append, Value.firstFilled_append, ← lookup_eq key registered]

structure Each (P : Value κ → Prop) (context : Context κ) : Prop where
  values : ∀ value ∈ context.values, P value
  overlay : ∀ value ∈ context.overlay, P value

namespace Each

variable {P Q : Value κ → Prop}

theorem empty : (empty : Context κ).Each P where
  values := nofun
  overlay := nofun

theorem push (each : context.Each P) {value : Value κ} (pushed : P value) :
    (context.push value).Each P where
  values := List.forall_mem_cons.mpr ⟨pushed, each.values⟩
  overlay := by simpa using each.overlay

theorem pushFrame (each : context.Each P) (frame : Frame) : (context.pushFrame frame).Each P where
  values := each.values
  overlay := by simpa using each.overlay

theorem mono (each : context.Each P) (weaker : ∀ {value}, P value → Q value) :
    context.Each Q where
  values value member := weaker (each.values value member)
  overlay value member := weaker (each.overlay value member)

end Each

theorem lookup_cases [Functions κ] (context : Context κ) (key : String) :
    (∃ value ∈ context.overlay ++ context.values, context.lookup key = value.lookup key) ∨
      context.lookup key = .null := by
  rw [lookup_eq]
  unfold Value.firstFilled
  cases found : ((context.overlay ++ context.values).map (Value.lookup key)).find?
      fun value => !value.isEmpty with
  | none => exact .inr rfl
  | some value =>
      obtain ⟨asked, member, rfl⟩ := List.mem_map.mp (List.mem_of_find?_eq_some found)
      exact .inl ⟨asked, member, rfl⟩

end Context

end Stencil
