import Mathlib
import Stencil.Run

namespace Stencil

namespace Run

variable {κ α β : Type} {run : Run κ α} {next : α → Run κ β}

theorem result_bind {b : β} (ok : (run >>= next).result = .ok b) :
    ∃ a, run.result = .ok a ∧ (next a).result = .ok b := by
  simp only [bind, andThen] at ok
  cases result : run.result with
  | error halt =>
      rw [result] at ok
      cases ok
  | ok a =>
      rw [result] at ok
      exact ⟨a, rfl, ok⟩

theorem result_bind_of_ok {a : α} (ok : run.result = .ok a) :
    (run >>= next).result = (next a).result := by
  simp [bind, andThen, ok]

theorem result_bind_of_error {halt : Halt} (failed : run.result = .error halt) :
    (run >>= next).result = .error halt := by
  simp [bind, andThen, failed]

theorem bind_congr {next' : α → Run κ β} (same : ∀ a, run.result = .ok a → next a = next' a) :
    run >>= next = run >>= next' := by
  obtain ⟨result, calls⟩ := run
  cases result with
  | error halt => rfl
  | ok a => simp only [bind, andThen, same a rfl]

theorem result_pure {a b : α} (ok : (pure a : Run κ α).result = .ok b) : b = a := by
  cases ok
  rfl

@[simp] theorem calls_map (f : α → β) (run : Run κ α) : (f <$> run).calls = run.calls := by
  obtain ⟨result, calls⟩ := run
  cases result <;> simp [Functor.map, andThen, done]

@[simp] theorem result_map (f : α → β) (run : Run κ α) :
    (f <$> run).result = run.result.map f := by
  obtain ⟨result, calls⟩ := run
  cases result <;> rfl

/-- From some depth on runs are the same, and not exhausted. -/
def Settles (runs : Nat → Run κ α) : Prop :=
  ∃ depth run, run.result ≠ .error .exhausted ∧ ∀ deeper, depth ≤ deeper → runs deeper = run

namespace Settles

variable {runs : Nat → Run κ α}

theorem const (finishes : run.result ≠ .error .exhausted) : Settles fun _ => run :=
  ⟨0, run, finishes, fun _ _ => rfl⟩

theorem pure (a : α) : Settles fun _ => (pure a : Run κ α) :=
  const fun exhausted => by cases exhausted

theorem fail (error : RenderError) : Settles fun _ => (fail error : Run κ α) :=
  const fun exhausted => by cases exhausted

theorem succ (settles : Settles fun depth => runs (depth + 1)) : Settles runs := by
  obtain ⟨depth, run, finishes, same⟩ := settles
  refine ⟨depth + 1, run, finishes, fun deeper le => ?_⟩
  obtain ⟨deeper, rfl⟩ := Nat.exists_eq_add_of_le' (Nat.le_of_add_left_le le)
  exact same deeper (Nat.le_of_add_le_add_right le)

theorem bind {next : Nat → α → Run κ β} (first : Settles runs)
    (rest : ∀ a, (∃ depth, (runs depth).result = .ok a) → Settles fun depth => next depth a) :
    Settles fun depth => runs depth >>= next depth := by
  obtain ⟨depth, run, finishes, same⟩ := first
  cases result : run.result with
  | error halt =>
      have other : halt ≠ .exhausted := by
        rintro rfl
        exact finishes result
      refine ⟨depth, ⟨.error halt, run.calls⟩, by simpa using other, fun deeper le => ?_⟩
      simp [Bind.bind, andThen, same deeper le, result]
  | ok a =>
      have here : (runs depth).result = .ok a := by rw [same depth le_rfl, result]
      obtain ⟨depth', last, finishes', same'⟩ := rest a ⟨depth, here⟩
      refine ⟨max depth depth', ⟨last.result, run.calls ++ last.calls⟩, finishes',
        fun deeper le => ?_⟩
      have first := same deeper (by omega)
      have second := same' deeper (by omega)
      simp [Bind.bind, andThen, first, second, result]

end Settles

end Run

end Stencil
