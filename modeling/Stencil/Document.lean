import Stencil.Delimiters
import Stencil.Expression
import Stencil.Location
import Stencil.Rendering

namespace Stencil

structure Tag where
  source : String
  location : Location
  delimiters : Delimiters
deriving DecidableEq, Repr

def Tag.describe (tag : Tag) : String :=
  "`" ++ tag.source ++ "` at " ++ tag.location.describe

structure Ref where
  index : Nat
deriving DecidableEq, Repr

structure Content (ν : Type) where
  contentType : ContentType
  nodes : List ν
deriving Repr

inductive Node where
  | text (string : String)
  | variableTag (tag : Tag) (expression : Expression) (escapes : Bool)
  | sectionTag (tag : Tag) (expression : Expression) (inverted : Bool) (body : Content Node)
      (source : String)
  /-- A part of a template that can be overridden where the template is inherited. -/
  | blockTag (name : String) (body : Content Node)
  | partialTag (name : String) (target : Ref)
  /-- The inclusion of a parent template some of whose blocks are overridden. -/
  | inheritTag (name : String) (parent overriding : Ref)
deriving Repr

abbrev Document := Content Node

structure SectionContent where
  document : Document
  source : String

structure Element extends Tag where
  content? : Option SectionContent

instance : Coe Tag Element := ⟨fun tag => ⟨tag, none⟩⟩

structure Frame where
  parent : Ref
  overriding : Ref
deriving DecidableEq, Repr

/-- The documents made so far. The place of a document may be reserved before it is known; until
then it counts as empty. -/
structure Store where
  cells : Array (Option Document)

namespace Store

def empty : Store :=
  ⟨#[]⟩

def size (store : Store) : Nat :=
  store.cells.size

def get? (store : Store) (ref : Ref) : Option Document :=
  store.cells[ref.index]?.join

def get (store : Store) (ref : Ref) : Document :=
  (store.get? ref).getD ⟨.html, []⟩

def reserve (store : Store) : Ref × Store :=
  (⟨store.size⟩, ⟨store.cells.push none⟩)

def fill (store : Store) (ref : Ref) (document : Document) : Store :=
  match store.get? ref with
  | some _ => store
  | none => ⟨store.cells.setIfInBounds ref.index (some document)⟩

def add (store : Store) (document : Document) : Ref × Store :=
  (⟨store.size⟩, ⟨store.cells.push (some document)⟩)

theorem get?_add_self (store : Store) (document : Document) :
    (store.add document).2.get? (store.add document).1 = some document := by
  simp [add, get?, size]

theorem get?_add_of_lt (store : Store) (document : Document) {ref : Ref}
    (known : ref.index < store.size) : (store.add document).2.get? ref = store.get? ref := by
  simp only [size] at known
  simp [add, get?, Array.getElem?_push, Nat.ne_of_lt known]

theorem get?_reserve (store : Store) (ref : Ref) : store.reserve.2.get? ref = store.get? ref := by
  simp only [reserve, get?, Array.getElem?_push]
  split
  · rename_i h
    simp [h]
  · rfl

theorem get?_fill_of_some {store : Store} {ref : Ref} {document : Document}
    (filled : store.get? ref = some document) (other : Ref) (new : Document) :
    (store.fill other new).get? ref = some document := by
  unfold fill
  split
  · exact filled
  · rename_i h
    have apart : other.index ≠ ref.index := by
      intro same
      obtain ⟨i⟩ := other
      obtain ⟨j⟩ := ref
      cases same
      simp [h] at filled
    simpa [get?, Array.getElem?_setIfInBounds, apart] using filled

end Store

end Stencil
