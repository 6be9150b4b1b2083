import Stencil.Proofs.Library.Growth

namespace Stencil

inductive Node.Part (store : Store) : Node → Document → Prop
  | sectionTag {tag : Tag} {expression : Expression} {inverted : Bool} {body : Document}
      {source : String} : Part store (.sectionTag tag expression inverted body source) body
  | blockTag {name : String} {body : Document} : Part store (.blockTag name body) body
  | inheritTag {name : String} {parent overriding : Ref} {body : Document} :
      store.get? overriding = some body → Part store (.inheritTag name parent overriding) body

inductive Content.Within (store : Store) : Document → Document → Prop
  | whole {document : Document} : Within store document document
  | part {document part inner : Document} {node : Node} : node ∈ document.nodes →
      node.Part store part → Within store part inner → Within store document inner

/-- A document renders another one: a body, a template it includes or inherits, or what overrides
one. -/
inductive Content.Uses (store : Store) (document : Document) : Document → Prop
  | sectionTag {tag : Tag} {expression : Expression} {inverted : Bool} {body : Document}
      {source : String} : .sectionTag tag expression inverted body source ∈ document.nodes →
      Uses store document body
  | blockTag {name : String} {body : Document} : .blockTag name body ∈ document.nodes →
      Uses store document body
  | partialTag {name : String} {target : Ref} : .partialTag name target ∈ document.nodes →
      Uses store document (store.get target)
  | parent {name : String} {parent overriding : Ref} :
      .inheritTag name parent overriding ∈ document.nodes → Uses store document (store.get parent)
  | overriding {name : String} {parent overriding : Ref} :
      .inheritTag name parent overriding ∈ document.nodes →
      Uses store document (store.get overriding)

def Store.Hereditary (store : Store) (kind : Document → Prop) : Prop :=
  ∀ document other, kind document → document.Uses store other → kind other

inductive Store.Shows (store : Store) (document : Document) (frames : List Frame) :
    Document → Prop
  | whole : Shows store document frames document
  | parent {frame : Frame} : frame ∈ frames → Shows store document frames (store.get frame.parent)
  | overriding {frame : Frame} : frame ∈ frames →
      Shows store document frames (store.get frame.overriding)
  | uses {middle other : Document} : Shows store document frames middle →
      middle.Uses store other → Shows store document frames other

inductive Node.Refers : Node → String → Ref → Prop
  | partialTag {name : String} {target : Ref} : Refers (.partialTag name target) name target
  | inheritTag {name : String} {parent overriding : Ref} :
      Refers (.inheritTag name parent overriding) name parent

inductive Node.Needs : Node → Ref → Prop
  | sectionTag {tag : Tag} {expression : Expression} {inverted : Bool} {body : Document}
      {source : String} {node : Node} {ref : Ref} : node ∈ body.nodes → Needs node ref →
      Needs (.sectionTag tag expression inverted body source) ref
  | blockTag {name : String} {body : Document} {node : Node} {ref : Ref} : node ∈ body.nodes →
      Needs node ref → Needs (.blockTag name body) ref
  | target {node : Node} {name : String} {ref : Ref} : node.Refers name ref → Needs node ref
  | overriding {name : String} {parent overriding : Ref} :
      Needs (.inheritTag name parent overriding) overriding

namespace Store

inductive Reaches (store : Store) (root : Ref) : Ref → Prop
  | root : Reaches store root root
  | next {ref next : Ref} {document : Document} {node : Node} : Reaches store root ref →
      store.get? ref = some document → node ∈ document.nodes → node.Needs next →
      Reaches store root next

/-- All that can be reached is filled. -/
def Sealed (store : Store) (root : Ref) : Prop :=
  ∀ ref, store.Reaches root ref → ∃ document, store.get? ref = some document

theorem Sealed.reaches {store later : Store} {root ref : Ref} (whole : store.Sealed root)
    (kept : store.Keeps later) (reaches : later.Reaches root ref) : store.Reaches root ref := by
  induction reaches with
  | root => exact .root
  | @next ref next document node _ filled member needs ih =>
      obtain ⟨document', filled'⟩ := whole ref ih
      rw [kept ref document' filled'] at filled
      cases filled
      exact .next ih filled' member needs

theorem Sealed.kept {store later : Store} {root : Ref} (whole : store.Sealed root)
    (kept : store.Keeps later) : later.Sealed root := by
  intro ref reaches
  obtain ⟨document, filled⟩ := whole ref (whole.reaches kept reaches)
  exact ⟨document, kept ref document filled⟩

end Store

end Stencil
