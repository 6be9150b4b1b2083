import Mathlib
import Stencil.Proofs.Assembly.Recompile
import Stencil.Proofs.Library.Ownership
import Stencil.Proofs.Scan.Places

namespace Stencil

inductive Node.Similar : List Node → List Node → Prop
  | nil : Similar [] []
  | text {string : String} {nodes others : List Node} : Similar nodes others →
      Similar (.text string :: nodes) (.text string :: others)
  | cut {first second : String} {nodes others : List Node} : Similar nodes others →
      Similar (.text (first ++ second) :: nodes) (.text first :: .text second :: others)
  | variableTag {tag other : Tag} {expression : Expression} {escapes : Bool}
      {nodes others : List Node} : tag.Alike other → Similar nodes others →
      Similar (.variableTag tag expression escapes :: nodes)
        (.variableTag other expression escapes :: others)
  | sectionTag {tag other : Tag} {expression : Expression} {inverted : Bool}
      {contentType : ContentType} {body body' : List Node} {source source' : String}
      {nodes others : List Node} : tag.Alike other → Similar body body' → Similar nodes others →
      Similar (.sectionTag tag expression inverted ⟨contentType, body⟩ source :: nodes)
        (.sectionTag other expression inverted ⟨contentType, body'⟩ source' :: others)
  | blockTag {name : String} {contentType : ContentType} {body body' nodes others : List Node} :
      Similar body body' → Similar nodes others →
      Similar (.blockTag name ⟨contentType, body⟩ :: nodes)
        (.blockTag name ⟨contentType, body'⟩ :: others)
  | partialTag {name : String} {target : Ref} {nodes others : List Node} : Similar nodes others →
      Similar (.partialTag name target :: nodes) (.partialTag name target :: others)
  | inheritTag {name : String} {parent overriding : Ref} {nodes others : List Node} :
      Similar nodes others →
      Similar (.inheritTag name parent overriding :: nodes)
        (.inheritTag name parent overriding :: others)

theorem Node.Similar.append {nodes nodes' others others' : List Node}
    (first : Node.Similar nodes nodes') (second : Node.Similar others others') :
    Node.Similar (nodes ++ others) (nodes' ++ others') := by
  induction first with
  | nil => exact second
  | text _ ih => exact .text ih
  | cut _ ih => exact .cut ih
  | variableTag tag _ ih => exact .variableTag tag ih
  | sectionTag tag body _ _ ih => exact .sectionTag tag body ih
  | blockTag body _ _ ih => exact .blockTag body ih
  | partialTag _ ih => exact .partialTag ih
  | inheritTag _ ih => exact .inheritTag ih

mutual

theorem Node.Similar.one (node : Node) : Node.Similar [node] [node] := by
  cases node with
  | text => exact .text .nil
  | variableTag => exact .variableTag ⟨rfl, rfl, rfl⟩ .nil
  | sectionTag tag expression inverted body =>
      obtain ⟨contentType, body⟩ := body
      exact .sectionTag ⟨rfl, rfl, rfl⟩ (.refl body) .nil
  | blockTag name body =>
      obtain ⟨contentType, body⟩ := body
      exact .blockTag (.refl body) .nil
  | partialTag => exact .partialTag .nil
  | inheritTag => exact .inheritTag .nil

theorem Node.Similar.refl (nodes : List Node) : Node.Similar nodes nodes := by
  cases nodes with
  | nil => exact .nil
  | cons node nodes => exact .append (.one node) (.refl nodes)

end

structure Document.Similar (document document' : Document) : Prop where
  contentType : document'.contentType = document.contentType
  nodes : Node.Similar document.nodes document'.nodes

theorem Document.Similar.refl (document : Document) : Document.Similar document document :=
  ⟨rfl, .refl document.nodes⟩

theorem Document.Similar.sectionTag {document document' : Document}
    (documents : Document.Similar document document') {tag tag' : Tag} (tags : tag.Alike tag')
    (expression : Expression) (inverted : Bool) (source source' : String) :
    Node.Similar [.sectionTag tag expression inverted document source]
      [.sectionTag tag' expression inverted document' source'] := by
  obtain ⟨contentType, nodes⟩ := document
  obtain ⟨contentType', nodes'⟩ := document'
  obtain rfl : contentType' = contentType := documents.contentType
  exact .sectionTag tags documents.nodes .nil

theorem Document.Similar.blockTag {document document' : Document}
    (documents : Document.Similar document document') (name : String) :
    Node.Similar [.blockTag name document] [.blockTag name document'] := by
  obtain ⟨contentType, nodes⟩ := document
  obtain ⟨contentType', nodes'⟩ := document'
  obtain rfl : contentType' = contentType := documents.contentType
  exact .blockTag documents.nodes .nil

structure Store.Similar (store store' : Store) : Prop where
  size : store'.size = store.size
  cells : ∀ ref, Option.Rel Document.Similar (store.get? ref) (store'.get? ref)

namespace Store.Similar

variable {store store' : Store} {document document' : Document}

theorem refl (store : Store) : store.Similar store := by
  refine ⟨rfl, fun ref => ?_⟩
  cases store.get? ref with
  | none => exact .none
  | some document => exact .some (.refl document)

theorem get (similar : store.Similar store') (ref : Ref) :
    Document.Similar (store.get ref) (store'.get ref) := by
  have cells := similar.cells ref
  unfold Store.get
  generalize store.get? ref = found, store'.get? ref = found' at cells
  cases cells with
  | none => exact .refl _
  | some documents => exact documents

theorem reserve (similar : store.Similar store') : store.reserve.2.Similar store'.reserve.2 := by
  refine ⟨by rw [size_reserve, size_reserve, similar.size], fun ref => ?_⟩
  rw [get?_reserve, get?_reserve]
  exact similar.cells ref

theorem fill (similar : store.Similar store') (ref : Ref)
    (documents : Document.Similar document document') :
    (store.fill ref document).Similar (store'.fill ref document') := by
  refine ⟨by rw [size_fill, size_fill, similar.size], fun other => ?_⟩
  by_cases same : other = ref
  · subst same
    have cells := similar.cells other
    cases before : store.get? other with
    | some old =>
        cases before' : store'.get? other with
        | none =>
            rw [before, before'] at cells
            cases cells
        | some old' =>
            rw [get?_fill_of_some before, get?_fill_of_some before', ← before, ← before']
            exact cells
    | none =>
        cases before' : store'.get? other with
        | some old' =>
            rw [before, before'] at cells
            cases cells
        | none =>
            by_cases known : other.index < store.size
            · rw [get?_fill_self document known before,
                get?_fill_self document' (similar.size ▸ known) before']
              exact .some documents
            · have beyond := not_lt.mp known
              rw [get?_eq_none (by rwa [size_fill]), get?_eq_none (by rwa [size_fill, similar.size])]
              exact .none
  · rw [get?_fill_of_ne store document same, get?_fill_of_ne store' document' same]
    exact similar.cells other

theorem add (similar : store.Similar store') (documents : Document.Similar document document') :
    (store.add document).2.Similar (store'.add document').2 := by
  rw [add_eq_fill, add_eq_fill, similar.size]
  exact similar.reserve.fill _ documents

end Store.Similar

structure Library.Similar (library library' : Library) : Prop where
  store : library.store.Similar library'.store
  cache : library'.cache = library.cache

theorem Library.Similar.refl (library : Library) : library.Similar library :=
  ⟨.refl library.store, rfl⟩

theorem Library.Similar.reserved {library library' : Library} (similar : library.Similar library')
    (id : String) : (library.reserved id).Similar (library'.reserved id) := by
  refine ⟨similar.store.reserve, ?_⟩
  simp only [Library.reserved, similar.cache, similar.store.size]

inductive Failure.Alike : Failure → Failure → Prop
  | parse {error error' : ParseError} : error.Alike error' →
      Alike (.error (.parse error)) (.error (.parse error'))
  | same {failure : Failure} : Alike failure failure

namespace Build

variable {α β γ δ : Type} {Q : α → β → Prop} {Q' : γ → δ → Prop} {before before' : Library}

inductive Parses (Q : α → β → Prop) : Except ParseError α → Except ParseError β → Prop
  | failed {error error' : ParseError} : error.Alike error' → Parses Q (.error error) (.error error')
  | ok {a : α} {b : β} : Q a b → Parses Q (.ok a) (.ok b)

/-- Two builds fail alike, or succeed with related results, and leave similar libraries. -/
inductive Parallel (Q : α → β → Prop) :
    Except Failure α × Library → Except Failure β × Library → Prop
  | failed {failure failure' : Failure} {after after' : Library} : failure.Alike failure' →
      after.Similar after' → Parallel Q (.error failure, after) (.error failure', after')
  | succeeded {a : α} {b : β} {after after' : Library} : Q a b → after.Similar after' →
      Parallel Q (.ok a, after) (.ok b, after')

theorem Parallel.bind {build : Build α} {build' : Build β} {next : α → Build γ} {next' : β → Build δ}
    (first : Parallel Q (build.run before) (build'.run before'))
    (second : ∀ {a b after after'}, Q a b → after.Similar after' →
      Parallel Q' ((next a).run after) ((next' b).run after')) :
    Parallel Q' ((build >>= next).run before) ((build' >>= next').run before') := by
  rw [run_bind, run_bind]
  generalize build.run before = run at first
  generalize build'.run before' = run' at first
  cases first with
  | failed alike similar => exact .failed alike similar
  | succeeded related similar => exact second related similar

theorem Parallel.ofParse {result : Except ParseError α} {result' : Except ParseError β}
    (parses : Parses Q result result') (similar : before.Similar before') :
    Parallel Q ((ofParse result).run before) ((ofParse result').run before') := by
  cases parses with
  | failed alike => exact .failed (.parse alike) similar
  | ok related => exact .succeeded related similar

theorem Parallel.add (similar : before.Similar before') {document document' : Document}
    (documents : Document.Similar document document') :
    Parallel (fun ref ref' => ref' = ref) ((add document).run before)
      ((add document').run before') := by
  refine .succeeded ?_ ⟨similar.store.add documents, similar.cache⟩
  rw [similar.store.size]

theorem Parallel.fill (similar : before.Similar before') (ref : Ref) {document document' : Document}
    (documents : Document.Similar document document') :
    Parallel (fun _ _ => True) ((fill ref document).run before) ((fill ref document').run before') :=
  .succeeded trivial ⟨similar.store.fill ref documents, similar.cache⟩

theorem Parallel.attempt {build : Build α} {build' : Build β}
    (parallel : Parallel Q (build.run before) (build'.run before)) :
    Parallel Q (build.attempt before) (build'.attempt before) := by
  unfold Build.attempt
  generalize build.run before = run at parallel
  generalize build'.run before = run' at parallel
  cases parallel with
  | failed alike similar =>
      refine .failed alike ⟨similar.store, ?_⟩
      simp only [Library.retain, similar.cache]
  | succeeded related similar => exact .succeeded related similar

end Build

end Stencil
