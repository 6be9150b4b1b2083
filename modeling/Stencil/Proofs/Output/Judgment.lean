import Stencil.Proofs.Output.Runs

namespace Stencil

def side {α : Type} (a a' : α) (other : Bool) : α :=
  if other then a' else a

theorem eq_side {α : Type} (as : Bool → α) : as = side (as false) (as true) :=
  funext (Bool.rec rfl rfl)

theorem side_self {α : Type} (a : α) : side a a = fun _ => a :=
  funext (Bool.rec rfl rfl)

theorem side_map {α β : Type} (f : α → β) (a a' : α) :
    side (f a) (f a') = fun other => f (side a a' other) :=
  funext (Bool.rec rfl rfl)

structure Judgment (κ ι : Type) where
  Holds : {α : Type} → (ι → Run κ α) → Prop
  done {α : Type} (a : α) : Holds fun _ => (pure a : Run κ α)
  /-- Only the values that a run can come to matter for what follows it. -/
  andThen {α β : Type} {runs : ι → Run κ α} {next : ι → α → Run κ β} : Holds runs →
    (∀ a, (∃ i, (runs i).result = .ok a) → Holds fun i => next i a) →
    Holds fun i => runs i >>= next i

namespace Judgment

def any (κ ι : Type) : Judgment κ ι where
  Holds _ := True
  done _ := trivial
  andThen _ _ := trivial

variable {κ ι α β : Type} {J : Judgment κ ι} {P : α → Prop} {Q : β → Prop} {runs : ι → Run κ α}

structure Yields (J : Judgment κ ι) (P : α → Prop) (runs : ι → Run κ α) : Prop where
  holds : J.Holds runs
  value : ∀ i a, (runs i).result = .ok a → P a

namespace Yields

theorem pure {a : α} (holds : P a) : J.Yields P fun _ => (pure a : Run κ α) where
  holds := J.done a
  value _ _ ok := by
    rw [Run.result_pure ok]
    exact holds

theorem fail {errors : ι → RenderError} (holds : J.Holds fun i => (.fail (errors i) : Run κ α)) :
    J.Yields P fun i => (.fail (errors i) : Run κ α) where
  holds := holds
  value _ _ ok := by cases ok

theorem bind {next : ι → α → Run κ β} (first : J.Yields P runs)
    (rest : ∀ a, P a → J.Yields Q fun i => next i a) : J.Yields Q fun i => runs i >>= next i where
  holds := J.andThen first.holds fun a ⟨i, ok⟩ => (rest a (first.value i a ok)).holds
  value i b ok := by
    obtain ⟨a, here, last⟩ := Run.result_bind ok
    exact (rest a (first.value i a here)).value i b last

theorem mono {R : α → Prop} (yields : J.Yields P runs) (weaker : ∀ a, P a → R a) :
    J.Yields R runs :=
  ⟨yields.holds, fun i a ok => weaker a (yields.value i a ok)⟩

theorem map {f : α → β} (yields : J.Yields P runs) (weaker : ∀ a, P a → Q (f a)) :
    J.Yields Q fun i => f <$> runs i := by
  simp only [map_eq_pure_bind]
  exact yields.bind fun a holds => .pure (weaker a holds)

theorem foldlM {f : ι → β → α → Run κ β} {items : List α} {b : β} (start : Q b)
    (step : ∀ b, ∀ a ∈ items, Q b → J.Yields Q fun i => f i b a) :
    J.Yields Q fun i => items.foldlM (f i) b := by
  induction items generalizing b with
  | nil => exact .pure start
  | cons a items ih =>
      simp only [List.foldlM_cons]
      apply (step b a (by simp) start).bind
      intro b' holds
      exact ih holds fun b a member => step b a (List.mem_cons_of_mem _ member)

end Yields

end Judgment

end Stencil
