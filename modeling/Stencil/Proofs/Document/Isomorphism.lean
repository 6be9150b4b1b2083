import Mathlib.Data.List.Nodup
import Mathlib.Data.List.Zip
import Stencil.Proofs.Document.Parts

/-!
# Isomorphic documents

Two documents are isomorphic if a one-to-one relation between the references of their stores relates
them, and whatever it relates has the same nodes but for related references (`Store.Isomorphic`). The
references to what overrides blocks are each held by one document in one place (`Store.Separate`). So
the documents in the same place of two stores are related one to one (`Twins.unique`), and if they
match, they are isomorphic (`isomorphic_of_matches`).
-/

namespace Stencil

inductive Corresponds (R : Ref → Ref → Prop) : List Node → List Node → Prop
  | nil : Corresponds R [] []
  | text {string : String} {nodes others : List Node} : Corresponds R nodes others →
      Corresponds R (.text string :: nodes) (.text string :: others)
  | variableTag {tag : Tag} {expression : Expression} {escapes : Bool} {nodes others : List Node} :
      Corresponds R nodes others →
      Corresponds R (.variableTag tag expression escapes :: nodes)
        (.variableTag tag expression escapes :: others)
  | sectionTag {tag : Tag} {expression : Expression} {inverted : Bool} {contentType : ContentType}
      {body body' : List Node} {source : String} {nodes others : List Node} :
      Corresponds R body body' → Corresponds R nodes others →
      Corresponds R (.sectionTag tag expression inverted ⟨contentType, body⟩ source :: nodes)
        (.sectionTag tag expression inverted ⟨contentType, body'⟩ source :: others)
  | blockTag {name : String} {contentType : ContentType} {body body' nodes others : List Node} :
      Corresponds R body body' → Corresponds R nodes others →
      Corresponds R (.blockTag name ⟨contentType, body⟩ :: nodes)
        (.blockTag name ⟨contentType, body'⟩ :: others)
  | partialTag {name : String} {target target' : Ref} {nodes others : List Node} :
      R target target' → Corresponds R nodes others →
      Corresponds R (.partialTag name target :: nodes) (.partialTag name target' :: others)
  | inheritTag {name : String} {parent parent' overriding overriding' : Ref}
      {nodes others : List Node} : R parent parent' → R overriding overriding' →
      Corresponds R nodes others →
      Corresponds R (.inheritTag name parent overriding :: nodes)
        (.inheritTag name parent' overriding' :: others)

namespace Store

structure Isomorphism (store other : Store) (R : Ref → Ref → Prop) : Prop where
  left : ∀ {ref ref' ref'' : Ref}, R ref ref' → R ref ref'' → ref' = ref''
  right : ∀ {ref ref' ref'' : Ref}, R ref ref'' → R ref' ref'' → ref = ref'
  filled : ∀ {ref ref' : Ref}, R ref ref' →
    ∃ contentType nodes nodes', store.get? ref = some ⟨contentType, nodes⟩ ∧
      other.get? ref' = some ⟨contentType, nodes'⟩ ∧ Corresponds R nodes nodes'

/-- Two documents cannot be told apart by anything that can be reached from them, nor by which
references lead to the same document. -/
def Isomorphic (store : Store) (root : Ref) (other : Store) (root' : Ref) : Prop :=
  ∃ R, store.Isomorphism other R ∧ R root root'

end Store

mutual

def Node.overrides : Node → List Ref
  | .sectionTag _ _ _ ⟨_, body⟩ _ => overridesOf body
  | .blockTag _ ⟨_, body⟩ => overridesOf body
  | .inheritTag _ _ overriding => [overriding]
  | _ => []

def overridesOf : List Node → List Ref
  | [] => []
  | node :: nodes => node.overrides ++ overridesOf nodes

end

theorem overridesOf_append (nodes others : List Node) :
    overridesOf (nodes ++ others) = overridesOf nodes ++ overridesOf others := by
  induction nodes with
  | nil => rfl
  | cons node nodes ih => simp [overridesOf, ih]

namespace Store

variable {store other : Store} {linked anchor : Ref → Ref → Prop} {nodes nodes' : List Node}
  {ref ref' : Ref}

/-- Nodes that differ at most in their references: those to templates are linked, and the others are to
documents that match again. -/
inductive Matches (store other : Store) (linked : Ref → Ref → Prop) : List Node → List Node → Prop
  | nil : Matches store other linked [] []
  | text {string : String} {nodes others : List Node} : Matches store other linked nodes others →
      Matches store other linked (.text string :: nodes) (.text string :: others)
  | variableTag {tag : Tag} {expression : Expression} {escapes : Bool} {nodes others : List Node} :
      Matches store other linked nodes others →
      Matches store other linked (.variableTag tag expression escapes :: nodes)
        (.variableTag tag expression escapes :: others)
  | sectionTag {tag : Tag} {expression : Expression} {inverted : Bool} {contentType : ContentType}
      {body body' : List Node} {source : String} {nodes others : List Node} :
      Matches store other linked body body' → Matches store other linked nodes others →
      Matches store other linked
        (.sectionTag tag expression inverted ⟨contentType, body⟩ source :: nodes)
        (.sectionTag tag expression inverted ⟨contentType, body'⟩ source :: others)
  | blockTag {name : String} {contentType : ContentType} {body body' nodes others : List Node} :
      Matches store other linked body body' → Matches store other linked nodes others →
      Matches store other linked (.blockTag name ⟨contentType, body⟩ :: nodes)
        (.blockTag name ⟨contentType, body'⟩ :: others)
  | partialTag {name : String} {target target' : Ref} {nodes others : List Node} :
      linked target target' → Matches store other linked nodes others →
      Matches store other linked (.partialTag name target :: nodes)
        (.partialTag name target' :: others)
  | inheritTag {name : String} {parent parent' overriding overriding' : Ref}
      {contentType : ContentType} {body body' nodes others : List Node} : linked parent parent' →
      store.get? overriding = some ⟨contentType, body⟩ →
      other.get? overriding' = some ⟨contentType, body'⟩ → Matches store other linked body body' →
      Matches store other linked nodes others →
      Matches store other linked (.inheritTag name parent overriding :: nodes)
        (.inheritTag name parent' overriding' :: others)

def Filled (store other : Store) (linked : Ref → Ref → Prop) (ref ref' : Ref) : Prop :=
  ∃ contentType nodes nodes', store.get? ref = some ⟨contentType, nodes⟩ ∧
    other.get? ref' = some ⟨contentType, nodes'⟩ ∧ store.Matches other linked nodes nodes'

theorem Matches.append {others others' : List Node} (first : store.Matches other linked nodes nodes')
    (second : store.Matches other linked others others') :
    store.Matches other linked (nodes ++ others) (nodes' ++ others') := by
  induction first with
  | nil => exact second
  | text _ ih => exact .text ih
  | variableTag _ ih => exact .variableTag ih
  | sectionTag body _ _ ih => exact .sectionTag body ih
  | blockTag body _ _ ih => exact .blockTag body ih
  | partialTag here _ ih => exact .partialTag here ih
  | inheritTag here filled filled' body _ _ ih => exact .inheritTag here filled filled' body ih

theorem Matches.length_overrides (alike : store.Matches other linked nodes nodes') :
    (overridesOf nodes).length = (overridesOf nodes').length := by
  induction alike with
  | nil => rfl
  | text _ ih => simpa [overridesOf, Node.overrides] using ih
  | variableTag _ ih => simpa [overridesOf, Node.overrides] using ih
  | sectionTag _ _ body ih => simp [overridesOf, Node.overrides, body, ih]
  | blockTag _ _ body ih => simp [overridesOf, Node.overrides, body, ih]
  | partialTag _ _ ih => simpa [overridesOf, Node.overrides] using ih
  | inheritTag _ _ _ _ _ _ ih => simpa [overridesOf, Node.overrides] using ih

theorem Matches.filled (alike : store.Matches other linked nodes nodes')
    (member : (ref, ref') ∈ (overridesOf nodes).zip (overridesOf nodes')) :
    store.Filled other linked ref ref' := by
  induction alike with
  | nil => simp [overridesOf] at member
  | text _ ih => exact ih member
  | variableTag _ ih => exact ih member
  | sectionTag inner _ body ih =>
      simp only [overridesOf, Node.overrides, List.zip_append inner.length_overrides] at member
      exact (List.mem_append.mp member).elim body ih
  | blockTag inner _ body ih =>
      simp only [overridesOf, Node.overrides, List.zip_append inner.length_overrides] at member
      exact (List.mem_append.mp member).elim body ih
  | partialTag _ _ ih => exact ih member
  | inheritTag _ filled filled' inner _ _ ih =>
      rcases List.mem_cons.mp member with here | member
      · cases here
        exact ⟨_, _, _, filled, filled', inner⟩
      · exact ih member

theorem Matches.corresponds {R : Ref → Ref → Prop}
    (alike : store.Matches other linked nodes nodes')
    (links : ∀ {ref ref' : Ref}, linked ref ref' → R ref ref')
    (overrides : ∀ {ref ref' : Ref},
      (ref, ref') ∈ (overridesOf nodes).zip (overridesOf nodes') → R ref ref') :
    Corresponds R nodes nodes' := by
  induction alike with
  | nil => exact .nil
  | text _ ih => exact .text (ih overrides)
  | variableTag _ ih => exact .variableTag (ih overrides)
  | sectionTag inner _ body ih =>
      simp only [overridesOf, Node.overrides, List.zip_append inner.length_overrides] at overrides
      exact .sectionTag (body fun member => overrides (List.mem_append_left _ member))
        (ih fun member => overrides (List.mem_append_right _ member))
  | blockTag inner _ body ih =>
      simp only [overridesOf, Node.overrides, List.zip_append inner.length_overrides] at overrides
      exact .blockTag (body fun member => overrides (List.mem_append_left _ member))
        (ih fun member => overrides (List.mem_append_right _ member))
  | partialTag here _ ih => exact .partialTag (links here) (ih overrides)
  | inheritTag here _ _ _ _ _ ih =>
      exact .inheritTag (links here) (overrides List.mem_cons_self)
        (ih fun member => overrides (List.mem_cons_of_mem _ member))

structure Separate (store : Store) (anchored : Ref → Prop) : Prop where
  once : ∀ {owner : Ref} {document : Document}, store.get? owner = some document →
    (overridesOf document.nodes).Nodup
  owner : ∀ {ref owner owner' : Ref} {document document' : Document},
    store.get? owner = some document → ref ∈ overridesOf document.nodes →
    store.get? owner' = some document' → ref ∈ overridesOf document'.nodes → owner = owner'
  anchored : ∀ {ref owner : Ref} {document : Document}, store.get? owner = some document →
    ref ∈ overridesOf document.nodes → ¬ anchored ref

/-- Documents in the same place of two stores: anchors, and what overrides blocks in the same place of
such documents. -/
inductive Twins (store other : Store) (anchor : Ref → Ref → Prop) : Ref → Ref → Prop
  | anchor {ref ref' : Ref} : anchor ref ref' → Twins store other anchor ref ref'
  | override {owner owner' ref ref' : Ref} {document document' : Document} :
      Twins store other anchor owner owner' → store.get? owner = some document →
      other.get? owner' = some document' →
      (ref, ref') ∈ (overridesOf document.nodes).zip (overridesOf document'.nodes) →
      Twins store other anchor ref ref'

theorem eq_of_mem_zip {refs refs' : List Ref} {ref'' : Ref} (nodup : refs.Nodup)
    (member : (ref, ref') ∈ refs.zip refs') (member' : (ref, ref'') ∈ refs.zip refs') :
    ref' = ref'' := by
  obtain ⟨i, hi, at_i⟩ := List.getElem_of_mem member
  obtain ⟨j, hj, at_j⟩ := List.getElem_of_mem member'
  simp only [List.getElem_zip, Prod.mk.injEq] at at_i at_j
  have same : i = j := (List.Nodup.getElem_inj_iff nodup).mp (at_i.1.trans at_j.1.symm)
  subst same
  exact at_i.2.symm.trans at_j.2

theorem Twins.unique {ref'' : Ref} (separate : store.Separate fun ref => ∃ ref', anchor ref ref')
    (anchors : ∀ {ref ref' ref'' : Ref}, anchor ref ref' → anchor ref ref'' → ref' = ref'')
    (twins : store.Twins other anchor ref ref') (twins' : store.Twins other anchor ref ref'') :
    ref' = ref'' := by
  -- What overrides blocks has one owner, so both ways lead back to the same anchor.
  induction twins generalizing ref'' with
  | anchor here =>
      cases twins' with
      | anchor here' => exact anchors here here'
      | override _ filled _ member =>
          exact absurd ⟨_, here⟩ (separate.anchored filled (List.of_mem_zip member).1)
  | override _ filled filled' member ih =>
      have held := (List.of_mem_zip member).1
      cases twins' with
      | anchor here' => exact absurd ⟨_, here'⟩ (separate.anchored filled held)
      | override twins' other_ other' member' =>
          obtain rfl := separate.owner filled held other_ (List.of_mem_zip member').1
          obtain rfl := ih twins'
          rw [filled] at other_
          rw [filled'] at other'
          cases other_
          cases other'
          exact eq_of_mem_zip (separate.once filled) member member'

theorem Twins.symm (twins : store.Twins other anchor ref ref') :
    other.Twins store (fun ref' ref => anchor ref ref') ref' ref := by
  induction twins with
  | anchor here => exact .anchor here
  | override _ filled filled' member ih =>
      refine .override ih filled' filled ?_
      rw [← List.zip_swap, List.mem_map]
      exact ⟨_, member, rfl⟩

theorem Twins.filled
    (anchors : ∀ {ref ref' : Ref}, anchor ref ref' → store.Filled other linked ref ref')
    (twins : store.Twins other anchor ref ref') : store.Filled other linked ref ref' := by
  induction twins with
  | anchor here => exact anchors here
  | override _ filled filled' member ih =>
      obtain ⟨contentType, nodes, nodes', here, here', alike⟩ := ih
      rw [filled] at here
      rw [filled'] at here'
      cases here
      cases here'
      exact alike.filled member

theorem isomorphic_of_matches
    (separate : store.Separate fun ref => ∃ ref', anchor ref ref')
    (separate' : other.Separate fun ref' => ∃ ref, anchor ref ref')
    (left : ∀ {ref ref' ref'' : Ref}, anchor ref ref' → anchor ref ref'' → ref' = ref'')
    (right : ∀ {ref ref' ref'' : Ref}, anchor ref ref'' → anchor ref' ref'' → ref = ref')
    (links : ∀ {ref ref' : Ref}, linked ref ref' → anchor ref ref')
    (anchors : ∀ {ref ref' : Ref}, anchor ref ref' → store.Filled other linked ref ref')
    (root : anchor ref ref') : store.Isomorphic ref other ref' := by
  refine ⟨store.Twins other anchor, ⟨Twins.unique separate left, ?_, ?_⟩, .anchor root⟩
  · intro ref ref' ref'' twins twins'
    exact twins.symm.unique separate' (fun here here' => right here here') twins'.symm
  · intro ref ref' twins
    obtain ⟨contentType, nodes, nodes', filled, filled', alike⟩ := twins.filled anchors
    exact ⟨contentType, nodes, nodes', filled, filled',
      alike.corresponds (fun here => .anchor (links here))
        fun member => .override twins filled filled' member⟩

end Store

end Stencil
