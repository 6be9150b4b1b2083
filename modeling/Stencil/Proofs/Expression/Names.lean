import Stencil.Stock

namespace Stencil

namespace Expression

mutual

def names : Expression → List String
  | .top => []
  | .name identifier => [identifier]
  | .key base _ => base.names
  | .call filter arguments => filter.names ++ namesOf arguments

def namesOf : List Expression → List String
  | [] => []
  | argument :: arguments => argument.names ++ namesOf arguments

end

variable {κ : Type} [Functions κ] {context other : Context κ}

mutual

theorem evaluate_congr (top : other.top = context.top) : (expression : Expression) →
    (∀ name ∈ expression.names, other.lookup name = context.lookup name) →
    expression.evaluate other = expression.evaluate context
  | .top, _ => by rw [evaluate, evaluate, top]
  | .name identifier, same => by rw [evaluate, evaluate, same identifier (by simp [names])]
  | .key base identifier, same => by rw [evaluate, evaluate, evaluate_congr top base same]
  | .call filter arguments, same => by
    have filter_ := evaluate_congr top filter fun name member => same name (by simp [names, member])
    have arguments_ := evaluateArguments_congr top arguments fun name member =>
      same name (by simp [names, member])
    rw [evaluate, evaluate, filter_, arguments_]

theorem evaluateArguments_congr (top : other.top = context.top) : (arguments : List Expression) →
    (∀ name ∈ namesOf arguments, other.lookup name = context.lookup name) →
    evaluateArguments other arguments = evaluateArguments context arguments
  | [], _ => by rw [evaluateArguments, evaluateArguments]
  | argument :: arguments, same => by
    have first := evaluate_congr top argument fun name member =>
      same name (by simp [namesOf, member])
    have rest := evaluateArguments_congr top arguments fun name member =>
      same name (by simp [namesOf, member])
    rw [evaluateArguments, evaluateArguments, first, rest]

end

section Refusal

variable {filter : Expression} {value : Value κ} {arguments : List Expression}

theorem evaluate_call_of_empty (evaluates : filter.evaluate context = .ok value)
    (empty : value.isEmpty = true) :
    (call filter arguments).evaluate context = .error (.missingFilter filter.describe) := by
  rw [evaluate, evaluates]
  simp [bind, Except.bind, empty, throw, throwThe, MonadExceptOf.throw]

theorem evaluate_call_of_no_filter (evaluates : filter.evaluate context = .ok value)
    (filled : value.isEmpty = false) (none : value.filter? = none) :
    (call filter arguments).evaluate context = .error (.notAFilter filter.describe) := by
  rw [evaluate, evaluates]
  simp [bind, Except.bind, filled, none, throw, throwThe, MonadExceptOf.throw]

end Refusal

theorem evaluate_of_names (expression : Expression) (context other : Context κ)
    (top : other.top = context.top)
    (names : ∀ name ∈ expression.names, other.lookup name = context.lookup name) :
    expression.evaluate other = expression.evaluate context ∧
      (∀ key, (expression.key key).evaluate other =
        Value.lookup key <$> expression.evaluate context) ∧
      ∀ value, expression.evaluate context = .ok value → ∀ arguments,
        (value.isEmpty = true → (call expression arguments).evaluate other =
          .error (.missingFilter expression.describe)) ∧
        (value.isEmpty = false → value.filter? = none →
          (call expression arguments).evaluate other =
            .error (.notAFilter expression.describe)) := by
  have same := evaluate_congr top expression names
  refine ⟨same, fun key => ?_, fun value evaluates arguments => ⟨fun empty => ?_, fun filled none => ?_⟩⟩
  · rw [evaluate, same, map_eq_pure_bind]
  · exact evaluate_call_of_empty (same.trans evaluates) empty
  · exact evaluate_call_of_no_filter (same.trans evaluates) filled none

theorem evaluate_of_names_key :
    let filter : Value Stock := .custom 1 none { filter := some (.host .list) }
    let user : Value Stock := .ofPairs [("f", filter), ("k", .int 1), ("n", .int 2)]
    let context := Context.empty.push user
    let other := (((Context.empty.push (.ofPairs [("arg", .int 3)])).push user).pushFrame
      ⟨⟨0⟩, ⟨1⟩⟩).register "k" (.int 4)
    let called := call (name "f") [name "n", key top "k"]
    let arguments := [name "arg", call (name "missing") []]
    called.evaluate other = called.evaluate context ∧
      (key (name "n") "k").evaluate other = .ok .null ∧
      (call (name "missing") arguments).evaluate other = .error (.missingFilter "missing") ∧
      (call (name "n") arguments).evaluate other = .error (.notAFilter "n") := by
  intro filter user context other called arguments
  have called_ := evaluate_of_names called context other rfl (by
    simp only [called, names, namesOf, List.append_nil, List.cons_append, List.nil_append,
      List.forall_mem_cons]
    exact ⟨rfl, rfl, nofun⟩)
  have agree : other.lookup "n" = context.lookup "n" := rfl
  have agree' : other.lookup "missing" = context.lookup "missing" := rfl
  have number := evaluate_of_names (name "n") context other rfl (by simpa [names] using agree)
  have missing := evaluate_of_names (name "missing") context other rfl
    (by simpa [names] using agree')
  exact ⟨called_.1, number.2.1 "k", (missing.2.2 .null rfl arguments).1 rfl,
    (number.2.2 (.int 2) rfl arguments).2 rfl rfl⟩

end Expression

end Stencil
