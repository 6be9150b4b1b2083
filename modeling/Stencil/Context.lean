import Stencil.Value.Text

namespace Stencil

inductive Context.Kind (κ γ : Type) where
  | root
  | scope (value : Value κ) (parent : γ)
  | inherited (frame : Frame) (parent : γ)

/-- A context is its innermost node. Each node carries the keys registered so far, as a stack of
maps of one key each. -/
inductive Context (κ : Type) where
  | node (kind : Context.Kind κ (Context κ)) (registered : Option (Context κ))

namespace Context

variable {κ : Type}

def kind : Context κ → Kind κ (Context κ)
  | .node kind _ => kind

def registered? : Context κ → Option (Context κ)
  | .node _ registered => registered

def empty : Context κ :=
  .node .root none

instance : Inhabited (Context κ) := ⟨empty⟩

def push (context : Context κ) (value : Value κ) : Context κ :=
  .node (.scope value context) context.registered?

def pushFrame (context : Context κ) (frame : Frame) : Context κ :=
  .node (.inherited frame context) context.registered?

def register (context : Context κ) (key : String) (value : Value κ) : Context κ :=
  .node context.kind (some ((context.registered?.getD empty).push (.ofPairs [(key, value)])))

def nodes : Context κ → List (Context κ)
  | .node .root registered => [.node .root registered]
  | .node (.scope value parent) registered => .node (.scope value parent) registered :: parent.nodes
  | .node (.inherited frame parent) registered =>
    .node (.inherited frame parent) registered :: parent.nodes

def value? : Context κ → Option (Value κ)
  | .node (.scope value _) _ => some value
  | _ => none

def frame? : Context κ → Option Frame
  | .node (.inherited frame _) _ => some frame
  | _ => none

def values (context : Context κ) : List (Value κ) :=
  context.nodes.filterMap value?

def frames (context : Context κ) : List Frame :=
  context.nodes.filterMap frame?

def top (context : Context κ) : Value κ :=
  context.values.headD .null

def wills (context : Context κ) : List κ :=
  context.values.filterMap Value.will?

def dids (context : Context κ) : List κ :=
  (context.values.filterMap Value.did?).reverse

def describeNode : Context κ → String
  | .node .root _ => "Context.Root"
  | .node (.scope value _) _ => "Context.Scope(" ++ value.describe ++ ")"
  | .node (.inherited _ _) _ => "Context.InheritedPartial"

def describe (context : Context κ) : String :=
  String.intercalate ":" (context.nodes.map describeNode)

@[simp] theorem values_empty : (empty : Context κ).values = [] := rfl

@[simp] theorem frames_empty : (empty : Context κ).frames = [] := rfl

@[simp] theorem values_push (context : Context κ) (value : Value κ) :
    (context.push value).values = value :: context.values := rfl

@[simp] theorem values_pushFrame (context : Context κ) (frame : Frame) :
    (context.pushFrame frame).values = context.values := rfl

@[simp] theorem values_register (context : Context κ) (key : String) (value : Value κ) :
    (context.register key value).values = context.values := by
  obtain ⟨kind, registered⟩ := context
  cases kind <;> rfl

@[simp] theorem frames_push (context : Context κ) (value : Value κ) :
    (context.push value).frames = context.frames := rfl

@[simp] theorem frames_pushFrame (context : Context κ) (frame : Frame) :
    (context.pushFrame frame).frames = frame :: context.frames := rfl

@[simp] theorem frames_register (context : Context κ) (key : String) (value : Value κ) :
    (context.register key value).frames = context.frames := by
  obtain ⟨kind, registered⟩ := context
  cases kind <;> rfl

end Context

end Stencil
