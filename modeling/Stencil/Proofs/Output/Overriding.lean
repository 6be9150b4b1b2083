import Stencil.Proofs.Output.Customs
import Stencil.Proofs.Output.Realm
import Stencil.Stock

namespace Stencil

variable {κ : Type}

/-! ## Stripped templates -/

def Node.isSearched : Node → Bool
  | .blockTag .. | .partialTag .. | .inheritTag .. => true
  | .text _ | .variableTag .. | .sectionTag .. => false

def Content.stripped (document : Document) : Document :=
  { document with nodes := document.nodes.filter Node.isSearched }

namespace Store

def stripped (store : Store) (ref : Ref) : Store :=
  ⟨store.cells.modify ref.index (Option.map Content.stripped)⟩

end Store

/-! ## What renders a template -/

/-- A template renders in the place of a node, or in its body. What only overrides blocks does not. -/
inductive Node.Renders : Node → Ref → Prop
  | sectionTag {tag : Tag} {expression : Expression} {inverted : Bool} {body : Document}
      {source : String} {node : Node} {ref : Ref} : node ∈ body.nodes → Renders node ref →
      Renders (.sectionTag tag expression inverted body source) ref
  | blockTag {name : String} {body : Document} {node : Node} {ref : Ref} : node ∈ body.nodes →
      Renders node ref → Renders (.blockTag name body) ref
  | refers {node : Node} {name : String} {ref : Ref} : node.Refers name ref → Renders node ref

namespace Node

variable {tag : Tag} {expression : Expression} {name : String} {body : Document} {ref : Ref}

@[simp] theorem not_renders_text (string : String) : ¬ (text string).Renders ref := by
  rintro (_ | _ | ⟨⟨⟩⟩)

@[simp] theorem not_renders_variableTag (escapes : Bool) :
    ¬ (variableTag tag expression escapes).Renders ref := by
  rintro (_ | _ | ⟨⟨⟩⟩)

@[simp] theorem renders_sectionTag (inverted : Bool) (source : String) :
    (sectionTag tag expression inverted body source).Renders ref ↔
      ∃ node ∈ body.nodes, node.Renders ref := by
  constructor
  · rintro (⟨member, renders⟩ | _ | ⟨⟨⟩⟩)
    exact ⟨_, member, renders⟩
  · rintro ⟨node, member, renders⟩
    exact .sectionTag member renders

@[simp] theorem renders_blockTag :
    (blockTag name body).Renders ref ↔ ∃ node ∈ body.nodes, node.Renders ref := by
  constructor
  · rintro (_ | ⟨member, renders⟩ | ⟨⟨⟩⟩)
    exact ⟨_, member, renders⟩
  · rintro ⟨node, member, renders⟩
    exact .blockTag member renders

@[simp] theorem renders_partialTag (target : Ref) :
    (partialTag name target).Renders ref ↔ target = ref := by
  constructor
  · rintro (_ | _ | ⟨⟨⟩⟩)
    rfl
  · rintro rfl
    exact .refers .partialTag

@[simp] theorem renders_inheritTag (parent overriding : Ref) :
    (inheritTag name parent overriding).Renders ref ↔ parent = ref := by
  constructor
  · rintro (_ | _ | ⟨⟨⟩⟩)
    rfl
  · rintro rfl
    exact .refers .inheritTag

end Node

def Content.Avoids (ref : Ref) (document : Document) : Prop :=
  ∀ node ∈ document.nodes, ¬ node.Renders ref

structure Traits.Avoids {α : Type} (known : κ → Prop) (ref : Ref) (traits : Traits κ α) : Prop where
  lookup : ∀ name, traits.lookup = some (.host name) → known name
  filter : ∀ name, traits.filter = some (.host name) → known name
  renderer : ∀ name, traits.renderer = some (.host name) → known name
  template : traits.renderer ≠ some (.template ref)
  will : ∀ name, traits.will = some name → known name

def Value.Avoids (known : κ → Prop) (ref : Ref) : Value κ → Prop :=
  Value.Every (Traits.Avoids known ref)

structure Info.Avoids (known : κ → Prop) (ref : Ref) (info : Info κ) : Prop where
  content : ∀ content, info.content? = some content → content.document.Avoids ref
  context : info.context.Each (Value.Avoids known ref)

inductive Action.Avoids (known : κ → Prop) (ref : Ref) : Action κ → Prop
  | finish {result : Except RenderError Rendering} : Avoids known ref (.finish result)
  | value {value : Value κ} {info : Info κ} {next : Except RenderError Rendering → Action κ} :
      value.Avoids known ref → info.Avoids known ref →
      (∀ outcome, Avoids known ref (next outcome)) → Avoids known ref (.value value info next)
  | document {document : Document} {context : Context κ}
      {next : Except RenderError Rendering → Action κ} : document.Avoids ref →
      context.Each (Value.Avoids known ref) → (∀ outcome, Avoids known ref (next outcome)) →
      Avoids known ref (.document document context next)

variable [Host κ]

/-- The functions of a host whose names are of a kind do not come by a template that they are not
given, and do not look at its texts, variables and sections through an inherited template. -/
structure Host.Avoids (known : κ → Prop) (store : Store) (ref : Ref) : Prop where
  lookup : ∀ {name}, known name → ∀ key, (Functions.lookup name key).Avoids known ref
  filter : ∀ {name}, known name → ∀ {arguments value},
    (∀ argument ∈ arguments, Value.Avoids known ref argument) →
    Functions.filter name arguments = .ok value → value.Avoids known ref
  render : ∀ {name}, known name → ∀ {info}, Info.Avoids known ref info →
    Host.render name (store.stripped ref) info = Host.render name store info ∧
      (Host.render name store info).Avoids known ref
  will : ∀ {name}, known name → ∀ {tag value}, Value.Avoids known ref value →
    (Host.will name tag value).Avoids known ref

namespace Host.Avoids

variable {known : κ → Prop} {store : Store} {ref : Ref} {value : Value κ} {context : Context κ}

omit [Host κ] in
theorem standard : Value.Standard (Traits.Avoids known ref) where
  each := ⟨by simp, by simp, by simp, by simp, by simp⟩
  escape := ⟨by simp, by simp, by simp, by simp, by simp⟩
  item _ _ := ⟨by simp, by simp, by simp, by simp, by simp⟩
  escaped _ := ⟨by simp, by simp, by simp, by simp, by simp⟩

theorem kept (closed : Host.Avoids known store ref) : Value.Kept (Traits.Avoids known ref) where
  toStandard := standard
  lookup avoids found := closed.lookup (avoids.lookup _ found)
  filter avoids found := closed.filter (avoids.filter _ found)

theorem replaced (closed : Host.Avoids known store ref)
    (each : context.Each (Value.Avoids known ref)) (avoids : value.Avoids known ref)
    (tag : Element) : (Stencil.replaced tag context.wills value).Avoids known ref := by
  have hooks : ∀ name ∈ context.wills, known name := by
    intro name member
    obtain ⟨hooked, inside, found⟩ := List.mem_filterMap.mp member
    cases each.values hooked inside with
    | custom _ traits => exact traits.will name found
    | _ => cases found
  unfold Stencil.replaced
  generalize context.wills = names at hooks
  induction names generalizing value with
  | nil => exact avoids
  | cons name names ih =>
      obtain ⟨here, rest⟩ := List.forall_mem_cons.mp hooks
      exact ih (closed.will here avoids) rest

end Host.Avoids

/-! ## Rendering -/

def Judgment.same (κ : Type) : Judgment κ Bool where
  Holds runs := runs true = runs false
  done _ := rfl
  andThen {_ _ runs next} first rest := by
    dsimp only
    rw [first]
    exact Run.bind_congr fun a ok => rest a ⟨false, ok⟩

namespace Realm

variable {known : κ → Prop} {store : Store} {ref : Ref}

variable (closed : Host.Avoids known store ref) (everywhere : ∀ other, (store.get other).Avoids ref)

end Realm

namespace Store

variable {known : κ → Prop} {store : Store} {ref : Ref}

end Store

/-! ## Hosts that look at templates -/

instance : Host Onlooker where
  lookup _ _ := .null
  filter _ _ := .ok .null
  render _ store info :=
    let counted := (info.context.frames.map fun frame => (store.get frame.overriding).nodes.length).sum
    .finish (.ok (.plain (toString counted)))
  will _ _ value := value

end Stencil
