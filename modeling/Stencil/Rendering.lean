import Stencil.Text.Entity

namespace Stencil

inductive ContentType where
  | html
  | text
deriving DecidableEq, Repr

structure Rendering where
  string : String
  contentType : ContentType
deriving DecidableEq, Repr

namespace Rendering

def plain (string : String) : Rendering :=
  ⟨string, .text⟩

def within (rendering : Rendering) (host : ContentType) : String :=
  match host, rendering.contentType with
  | .html, .text => Text.escape rendering.string
  | _, _ => rendering.string

theorem within_self (rendering : Rendering) :
    rendering.within rendering.contentType = rendering.string := by
  cases rendering with
  | mk string contentType => cases contentType <;> rfl

end Rendering

end Stencil
