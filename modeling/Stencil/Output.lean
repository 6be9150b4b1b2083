import Stencil.Evaluation
import Stencil.Inheritance
import Stencil.Run

/-!
# Output

How documents and values render. Two kinds of job call each other: a document is appended to the
output of a host, and a value renders for a tag. What a job does is said with the means to run
further jobs as a parameter; `Store.render` closes the circle, up to a depth.

A document of the host's own content type is written straight into its output. Any other is rendered
apart and taken in as a whole.
-/

namespace Stencil

variable {κ : Type} [Host κ]

inductive Job (κ : Type) where
  | append (host : ContentType) (output : String) (document : Document) (context : Context κ)
  | value (value : Value κ) (info : Info κ)

/-- The means to run a job. The rendering of a document appended is the whole output. -/
abbrev Runner (κ : Type) := Job κ → Run κ Rendering

namespace Runner

def document (run : Runner κ) (document : Document) (context : Context κ) : Run κ Rendering :=
  run (.append document.contentType "" document context)

def content (run : Runner κ) (info : Info κ) (context : Context κ) : Run κ Rendering :=
  match info.content? with
  | none => pure (.plain "")
  | some content => run.document content.document context

def action (run : Runner κ) : Action κ → Run κ Rendering
  | .finish result => .ofExcept result
  | .value value info next => do
    let outcome ← (run (.value value info)).attempt
    run.action (next outcome)
  | .document document context next => do
    let outcome ← (run.document document context).attempt
    run.action (next outcome)

def item (run : Runner κ) (info : Info κ) (before : Option Rendering) (item : Value κ) :
    Run κ (Option Rendering) := do
  let rendering ← run (.value item { info with isItem := true })
  match before with
  | none => return some rendering
  | some before =>
    if before.contentType = rendering.contentType then
      return some { before with string := before.string ++ rendering.string }
    else .fail .contentTypeMismatch

def items (run : Runner κ) (items : List (Value κ)) (info : Info κ) : Run κ Rendering := do
  return (← items.foldlM (run.item info) none).getD (.plain "")

def renderer (run : Runner κ) (store : Store) (renderer : Renderer κ (Value κ)) (info : Info κ) :
    Run κ Rendering :=
  match renderer with
  | .item position item =>
    run (.value item { info with context := info.context.push position })
  | .escaped value => do
    let rendering ← run (.value value info)
    return ⟨Text.escape rendering.string, .html⟩
  | .template root => run.document (store.get root) info.context
  | .host name => run.action (Host.render name store info)

/-- Render a custom value without a renderer of its own. A variable tag renders the wrapped value or
the description; a section tag renders its content with the custom value on top, once, unless the
wrapped value is a list to iterate. -/
def wrapper (run : Runner κ) (value : Value κ) (inner : Option (Value κ))
    (traits : Traits κ (Value κ)) (info : Info κ) : Run κ Rendering :=
  match info.content?, inner with
  | none, some inner => run (.value inner info)
  | none, none => pure (.plain (traits.description.getD ""))
  | some _, some (.list items) =>
    if info.isItem then run.content info (info.context.push value)
    else run (.value (.list items) info)
  | some _, _ => run.content info (info.context.push value)

def value (run : Runner κ) (store : Store) (value : Value κ) (info : Info κ) : Run κ Rendering :=
  match value with
  | .list items =>
    if info.isItem then run.content info (info.context.push value) else run.items items info
  | .custom _ inner traits =>
    match traits.renderer with
    | some renderer => run.renderer store renderer info
    | none => run.wrapper value inner traits info
  | _ =>
    match info.content? with
    | none => pure (.plain value.plainText)
    | some _ => run.content info (info.context.push value)

def willRender (tag : Element) (hooks : List κ) (value : Value κ) : Run κ (Value κ) :=
  hooks.foldlM (fun value hook => do
    Run.call (.will hook tag value)
    return Host.will hook tag value) value

def didRender (tag : Element) (value : Value κ) (output : Option String) (hooks : List κ) :
    Run κ Unit :=
  hooks.forM fun hook => Run.call (.did hook tag value output)

def tagged (run : Runner κ) (value : Value κ) (inverted : Bool) (info : Info κ) :
    Run κ Rendering :=
  match info.content?, inverted, value.truth with
  | none, _, _ => run (.value value info)
  | some _, false, true => run (.value value info)
  | some _, true, false => run.content info info.context
  | some _, _, _ => pure (.plain "")

def tag (run : Runner κ) (host : ContentType) (expression : Expression)
    (inverted escapes : Bool) (info : Info κ) : Run κ String := do
  match expression.evaluate info.context with
  | .error error => .fail (.evaluation info.tag.describe error.message)
  | .ok value =>
    let value ← willRender info.element info.context.wills value
    match ← (run.tagged value inverted info).attempt with
    | .error error =>
      didRender info.element value none info.context.dids
      .fail error
    | .ok rendering =>
      let output := if escapes then rendering.within host else rendering.string
      didRender info.element value (some output) info.context.dids
      return output

def node (run : Runner κ) (store : Store) (host : ContentType) (context : Context κ)
    (output : String) (node : Node) : Run κ String :=
  match node with
  | .text string => return output ++ string
  | .variableTag tag expression escapes => do
    let info : Info κ := { tag, content? := none, context, isItem := false }
    return output ++ (← run.tag host expression false escapes info)
  | .sectionTag tag expression inverted body source => do
    let info : Info κ := { tag, content? := some ⟨body, source⟩, context, isItem := false }
    return output ++ (← run.tag host expression inverted true info)
  | .blockTag name body => do
    let body := store.resolve context.frames name body
    return (← run (.append host output body context)).string
  | .partialTag _ target =>
    return (← run (.append host output (store.get target) context)).string
  | .inheritTag _ parent overriding =>
    return (← run (.append host output (store.get parent)
      (context.pushFrame ⟨parent, overriding⟩))).string

def nodes (run : Runner κ) (store : Store) (host : ContentType) (context : Context κ)
    (nodes : List Node) (output : String) : Run κ String :=
  nodes.foldlM (run.node store host context) output

def append (run : Runner κ) (store : Store) (host : ContentType) (output : String)
    (document : Document) (context : Context κ) : Run κ Rendering :=
  if document.contentType = host then do
    return ⟨← run.nodes store host context document.nodes output, host⟩
  else do
    let string ← run.nodes store document.contentType context document.nodes ""
    return ⟨output ++ (Rendering.mk string document.contentType).within host, host⟩

end Runner

namespace Store

def run (store : Store) : Nat → Runner κ
  | 0, _ => .exhausted
  | depth + 1, .append host output document context =>
    Runner.append (store.run depth) store host output document context
  | depth + 1, .value value info => Runner.value (store.run depth) store value info

def render (store : Store) (depth : Nat) (document : Document) (context : Context κ) :
    Run κ Rendering :=
  Runner.document (store.run depth) document context

end Store

end Stencil
