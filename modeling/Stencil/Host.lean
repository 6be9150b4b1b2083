import Stencil.Context
import Stencil.Error

namespace Stencil

structure Info (κ : Type) where
  tag : Tag
  content? : Option SectionContent
  context : Context κ
  isItem : Bool

def Info.element {κ : Type} (info : Info κ) : Element :=
  ⟨info.tag, info.content?⟩

inductive Action (κ : Type) where
  | finish (result : Except RenderError Rendering)
  | value (value : Value κ) (info : Info κ) (next : Except RenderError Rendering → Action κ)
  | document (document : Document) (context : Context κ)
      (next : Except RenderError Rendering → Action κ)

def Action.content {κ : Type} (info : Info κ) (context : Context κ)
    (next : Except RenderError Rendering → Action κ) : Action κ :=
  match info.content? with
  | none => next (.ok (.plain ""))
  | some content => .document content.document context next

class Functions (κ : Type) where
  lookup : κ → String → Value κ
  filter : κ → List (Value κ) → Except RenderError (Value κ)

/-- What the named functions of a host do. A render function finds the documents that the nodes and
frames it is given refer to. A hook called after a tag has rendered only takes note of it. -/
class Host (κ : Type) extends Functions κ where
  render : κ → Store → Info κ → Action κ
  will : κ → Element → Value κ → Value κ

end Stencil
