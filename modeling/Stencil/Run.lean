import Stencil.Context
import Stencil.Error

namespace Stencil

/-- A call of a hook, before a tag renders with the value so far, or after it has rendered with the
final value and what the tag wrote, if it did not fail. -/
inductive Call (κ : Type) where
  | will (hook : κ) (tag : Element) (value : Value κ)
  | did (hook : κ) (tag : Element) (value : Value κ) (output : Option String)

inductive Halt where
  | error (error : RenderError)
  | exhausted
deriving DecidableEq, Repr

structure Run (κ α : Type) where
  result : Except Halt α
  calls : List (Call κ)

namespace Run

variable {κ α β γ : Type}

def done (a : α) : Run κ α :=
  ⟨.ok a, []⟩

def fail (error : RenderError) : Run κ α :=
  ⟨.error (.error error), []⟩

def exhausted : Run κ α :=
  ⟨.error .exhausted, []⟩

def ofExcept : Except RenderError α → Run κ α
  | .ok a => done a
  | .error error => fail error

def call (c : Call κ) : Run κ Unit :=
  ⟨.ok (), [c]⟩

def andThen (run : Run κ α) (next : α → Run κ β) : Run κ β :=
  match run.result with
  | .ok a =>
    let rest := next a
    ⟨rest.result, run.calls ++ rest.calls⟩
  | .error halt => ⟨.error halt, run.calls⟩

instance : Monad (Run κ) where
  pure := done
  bind := andThen

def attempt (run : Run κ α) : Run κ (Except RenderError α) :=
  match run.result with
  | .ok a => ⟨.ok (.ok a), run.calls⟩
  | .error (.error error) => ⟨.ok (.error error), run.calls⟩
  | .error .exhausted => ⟨.error .exhausted, run.calls⟩

theorem id_map (run : Run κ α) : id <$> run = run := by
  obtain ⟨result, calls⟩ := run
  cases result <;> simp [Functor.map, andThen, done]

theorem bind_assoc (run : Run κ α) (f : α → Run κ β) (g : β → Run κ γ) :
    run >>= f >>= g = run >>= fun a => f a >>= g := by
  obtain ⟨result, calls⟩ := run
  cases result with
  | error halt => simp [bind, andThen]
  | ok a =>
    simp only [bind, andThen]
    cases (f a).result <;> simp

instance : LawfulMonad (Run κ) :=
  .mk' _ id_map (fun a next => by simp [pure, bind, andThen, done]) bind_assoc

end Run

end Stencil
