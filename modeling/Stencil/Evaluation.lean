import Stencil.Expression.Reader
import Stencil.Filter

namespace Stencil

variable {κ : Type} [Functions κ]

namespace Expression

mutual

def evaluate (context : Context κ) : Expression → Except RenderError (Value κ)
  | .top => .ok context.top
  | .name identifier => .ok (context.lookup identifier)
  | .key base identifier => do return (← base.evaluate context).lookup identifier
  | .call filter arguments => do
    let value ← filter.evaluate context
    if value.isEmpty then throw (.missingFilter filter.describe)
    match value.filter? with
    | none => throw (.notAFilter filter.describe)
    | some applied => applied.apply (← evaluateArguments context arguments)

def evaluateArguments (context : Context κ) : List Expression → Except RenderError (List (Value κ))
  | [] => .ok []
  | argument :: arguments => do
    let value ← argument.evaluate context
    return value :: (← evaluateArguments context arguments)

end

end Expression

def Context.evaluate (context : Context κ) (text : String) : Except RenderError (Value κ) :=
  match Expression.ofText text with
  | .error error => .error (.custom error.message)
  | .ok expression => expression.evaluate context

end Stencil
