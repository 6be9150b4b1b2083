import Stencil.Context

/-!
# Inheritance

Which body a block renders with. The inherited templates being rendered are asked from the innermost
outwards; each offers the last block of that name met in its parent and then in what overrides it.
A parent that has offered a body is not asked again further out.
-/

namespace Stencil

structure Block where
  name : String
  body : Document

/-- The state of a search is the path to the document that is being searched. A search that goes too
deep has no result. -/
abbrev Search := StateT (List Ref) Option

def Frame.search (enter : Block → Ref → Search (Block × Bool)) (block : Block) (frame : Frame) :
    Search (Block × Bool) := do
  let (block, inParent) ← enter block frame.parent
  let (block, inOverriding) ← enter block frame.overriding
  return (block, inParent || inOverriding)

def Node.search (enter : Block → Ref → Search (Block × Bool)) (met : Block × Bool) (node : Node) :
    Search (Block × Bool) :=
  match node with
  | .blockTag name body => return if name = met.1.name then (⟨name, body⟩, true) else met
  | .partialTag _ target => do
    let (block, found) ← enter met.1 target
    return (block, met.2 || found)
  | .inheritTag _ parent overriding => do
    let (block, found) ← Frame.search enter met.1 ⟨parent, overriding⟩
    return (block, met.2 || found)
  | _ => return met

namespace Store

/-- The last block of a block's name that is met at the top level of a document and of the templates
it includes, or else the block itself, and whether one has been met. Documents on the path to the
present one are not entered again. A path holds every document at most once, so a depth of one more
than the number of documents suffices. -/
def search (store : Store) : Nat → Block → Ref → Search (Block × Bool)
  | 0, _, _ => failure
  | depth + 1, block, ref => do
    let path ← getThe (List Ref)
    if ref ∈ path then return (block, false)
    set (ref :: path)
    let met ← (store.get ref).nodes.foldlM (Node.search (store.search depth)) (block, false)
    modify List.tail
    return met

def offer? (store : Store) (block : Block) (frame : Frame) : Option Block :=
  match (Frame.search (store.search (store.size + 1)) block frame).run [] with
  | some ((offered, true), _) => some offered
  | _ => none

def resolveIn (store : Store) : List Frame → List Ref → Block → Block
  | [], _, block => block
  | frame :: frames, used, block =>
    if frame.parent ∈ used then store.resolveIn frames used block
    else
      match store.offer? block frame with
      | some offered => store.resolveIn frames (frame.parent :: used) offered
      | none => store.resolveIn frames used block

def resolve (store : Store) (frames : List Frame) (name : String) (body : Document) : Document :=
  (store.resolveIn frames [] ⟨name, body⟩).body

end Store

end Stencil
