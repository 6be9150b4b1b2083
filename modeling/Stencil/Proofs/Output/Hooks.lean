import Stencil.Output
import Stencil.Proofs.Output.Runs

namespace Stencil

variable {κ : Type}

structure TagJob (κ : Type) where
  expression : Expression
  inverted : Bool
  escapes : Bool
  info : Info κ

def Node.tagJob? (context : Context κ) : Node → Option (TagJob κ)
  | .variableTag tag expression escapes =>
    some ⟨expression, false, escapes, ⟨tag, none, context, false⟩⟩
  | .sectionTag tag expression inverted body source =>
    some ⟨expression, inverted, true, ⟨tag, some ⟨body, source⟩, context, false⟩⟩
  | _ => none

theorem Node.context_of_tagJob? {context : Context κ} {node : Node} {job : TagJob κ}
    (tag : node.tagJob? context = some job) : job.info.context = context := by
  cases node <;> cases tag <;> rfl

variable [Host κ]

def willCalls (tag : Element) : List κ → Value κ → List (Call κ)
  | [], _ => []
  | hook :: hooks, value => .will hook tag value :: willCalls tag hooks (Host.will hook tag value)

def replaced (tag : Element) (hooks : List κ) (value : Value κ) : Value κ :=
  hooks.foldl (fun value hook => Host.will hook tag value) value

def didCalls (tag : Element) (value : Value κ) (output : Option String) (hooks : List κ) :
    List (Call κ) :=
  hooks.map fun hook => .did hook tag value output

namespace TagJob

def run (job : TagJob κ) (run : Runner κ) (host : ContentType) : Run κ String :=
  run.tag host job.expression job.inverted job.escapes job.info

def final (job : TagJob κ) (value : Value κ) : Value κ :=
  replaced job.info.element job.info.context.wills value

def inner (job : TagJob κ) (run : Runner κ) (value : Value κ) : Run κ Rendering :=
  run.tagged (job.final value) job.inverted job.info

def written (job : TagJob κ) (host : ContentType) (rendering : Rendering) : String :=
  if job.escapes then rendering.within host else rendering.string

def opening (job : TagJob κ) (value : Value κ) : List (Call κ) :=
  willCalls job.info.element job.info.context.wills value

def closing (job : TagJob κ) (value : Value κ) (output : Option String) : List (Call κ) :=
  didCalls job.info.element (job.final value) output job.info.context.dids

end TagJob

theorem Runner.willRender_eq (tag : Element) (hooks : List κ) (value : Value κ) :
    Runner.willRender tag hooks value =
      ⟨.ok (replaced tag hooks value), willCalls tag hooks value⟩ := by
  induction hooks generalizing value with
  | nil => rfl
  | cons hook hooks ih =>
      have first : Runner.willRender tag (hook :: hooks) value =
          Run.call (.will hook tag value) >>= fun _ =>
            Runner.willRender tag hooks (Host.will hook tag value) := by
        simp [willRender]
      rw [first, ih]
      rfl

omit [Host κ] in
theorem Runner.didRender_eq (tag : Element) (value : Value κ) (output : Option String)
    (hooks : List κ) :
    Runner.didRender tag value output hooks = ⟨.ok (), didCalls tag value output hooks⟩ := by
  induction hooks with
  | nil => rfl
  | cons hook hooks ih =>
      have first : Runner.didRender tag value output (hook :: hooks) =
          Run.call (.did hook tag value output) >>= fun _ =>
            Runner.didRender tag value output hooks := by
        simp [didRender]
      rw [first, ih]
      rfl

namespace TagJob

variable {job : TagJob κ} {run : Runner κ} {host : ContentType} {value : Value κ}

theorem final_of_wills (none : job.info.context.wills = []) : job.final value = value := by
  rw [final, none]
  rfl

theorem run_of_error {error : RenderError}
    (fails : job.expression.evaluate job.info.context = .error error) :
    job.run run host = .fail (.evaluation job.info.tag.describe error.message) := by
  rw [TagJob.run, Runner.tag, fails]

theorem run_eq (evaluates : job.expression.evaluate job.info.context = .ok value) :
    job.run run host =
      match (job.inner run value).result with
      | .ok rendering => ⟨.ok (job.written host rendering), job.opening value ++
          (job.inner run value).calls ++ job.closing value (some (job.written host rendering))⟩
      | .error (.error error) => ⟨.error (.error error), job.opening value ++
          (job.inner run value).calls ++ job.closing value none⟩
      | .error .exhausted =>
        ⟨.error .exhausted, job.opening value ++ (job.inner run value).calls⟩ := by
  have rendered : run.tagged (replaced job.info.element job.info.context.wills value)
      job.inverted job.info = job.inner run value := rfl
  rw [TagJob.run, Runner.tag, evaluates]
  simp only [Runner.willRender_eq, Runner.didRender_eq, bind, Run.andThen, rendered]
  obtain ⟨result, calls⟩ := job.inner run value
  rcases result with (error | _) | rendering
  · simp [Run.attempt, Run.fail, opening, closing, final]
  · simp [Run.attempt, opening]
  · simp [Run.attempt, pure, Run.done, opening, closing, final, written]

theorem run_of_hookless (evaluates : job.expression.evaluate job.info.context = .ok value)
    (wills : job.info.context.wills = []) (dids : job.info.context.dids = []) :
    job.run run host = job.written host <$> run.tagged value job.inverted job.info := by
  have inner : job.inner run value = run.tagged value job.inverted job.info := by
    rw [TagJob.inner, final_of_wills wills]
  have opening : job.opening value = [] := by rw [TagJob.opening, wills, willCalls]
  have closing (output : Option String) : job.closing value output = [] := by
    rw [TagJob.closing, dids, didCalls, List.map_nil]
  rw [run_eq evaluates, inner]
  obtain ⟨result, calls⟩ := run.tagged value job.inverted job.info
  rcases result with (error | _) | rendering
  · simp [opening, closing, Functor.map, Run.andThen]
  · simp [opening, Functor.map, Run.andThen]
  · simp [opening, closing, Functor.map, Run.andThen, Run.done]

theorem run_calls (evaluates : job.expression.evaluate job.info.context = .ok value)
    (finishes : (job.run run host).result ≠ .error .exhausted) :
    (job.inner run value).result ≠ .error .exhausted ∧
      (job.run run host).calls = job.opening value ++ (job.inner run value).calls ++
        job.closing value (job.run run host).result.toOption := by
  rw [run_eq evaluates] at finishes ⊢
  split at finishes
  · rename_i rendering rendered
    simp [rendered, Except.toOption]
  · rename_i error failed
    simp [failed, Except.toOption]
  · simp at finishes

theorem node_eq {store : Store} {context : Context κ} {output : String} {node : Node}
    (tag : node.tagJob? context = some job) :
    run.node store host context output node = (output ++ ·) <$> job.run run host := by
  cases node <;> cases tag <;> rfl

end TagJob

theorem Runner.node_variableTag {run : Runner κ} {value : Value κ} {context : Context κ}
    (store : Store) (wills : context.wills = []) (dids : context.dids = [])
    {expression : Expression} (evaluates : expression.evaluate context = .ok value)
    {host : ContentType} {output : String} {tag : Tag} {escapes : Bool} :
    run.node store host context output (.variableTag tag expression escapes) =
      (fun rendering : Rendering =>
        output ++ if escapes then rendering.within host else rendering.string) <$>
          run (.value value ⟨tag, none, context, false⟩) := by
  let job : TagJob κ := ⟨expression, false, escapes, ⟨tag, none, context, false⟩⟩
  have isTag : (Node.variableTag tag expression escapes).tagJob? context = some job := rfl
  have runs : job.run run host = job.written host <$>
      run (.value value ⟨tag, none, context, false⟩) :=
    @TagJob.run_of_hookless _ _ job run host value evaluates wills dids
  rw [TagJob.node_eq isTag, runs, Functor.map_map]
  rfl

end Stencil
