import Stencil.Proofs.Output.Hooks
import Stencil.Proofs.Output.Isolation

namespace Stencil

variable {κ : Type} [Host κ]

namespace Store

theorem value_template (store : Store) (depth identity : Nat) (root : Ref) (info : Info κ) :
    store.run (depth + 1) (.value (.ofTemplate identity root) info) =
      store.render depth (store.get root) info.context := rfl

theorem node_partialTag (store : Store) (depth : Nat) (host : ContentType) (context : Context κ)
    (output name : String) (target : Ref) :
    (store.run depth).node store host context output (.partialTag name target) =
      (fun rendering => output ++ rendering.within host) <$>
        store.render depth (store.get target) context := by
  simp only [Runner.node, store.run_appends depth host output, map_eq_pure_bind, bind_assoc,
    pure_bind]
  rfl

theorem variableTag_template (store : Store) (depth : Nat) (context : Context κ)
    (wills : context.wills = []) (dids : context.dids = []) (template : Template κ)
    (identity : Nat) (expression : Expression)
    (evaluates : expression.evaluate context = .ok (.ofTemplate identity template.root))
    (host : ContentType) (output : String) (tag : Tag) (name : String) :
    (store.run (depth + 1)).node store host context output (.variableTag tag expression true) =
      (store.run depth).node store host context output (.partialTag name template.root) := by
  rw [Runner.node_variableTag store wills dids evaluates, value_template, node_partialTag]
  rfl

theorem variableTag_template_overridden :
    let template : Template Stock := ⟨⟨0⟩, .empty⟩
    let overriding : Document := ⟨.html, [.blockTag "b" ⟨.html, [.text "&"]⟩]⟩
    let store : Store :=
      ⟨#[some ⟨.text, [.text "<", .blockTag "b" ⟨.text, []⟩]⟩, some ⟨.html, []⟩, some overriding]⟩
    let context : Context Stock :=
      (Context.empty.push (.ofPairs [("t", .ofTemplate 1 template.root)])).pushFrame ⟨⟨1⟩, ⟨2⟩⟩
    let tag : Tag := ⟨"\x7b\x7bt\x7d\x7d", ⟨1, none⟩, .braces⟩
    context.wills = [] ∧ context.dids = [] ∧
      (Expression.name "t").evaluate context = .ok (.ofTemplate 1 template.root) ∧
      ((store.run 3).node store .html context "<p>" (.variableTag tag (.name "t") true)).result =
        .ok "<p>&lt;&amp;" ∧
      (store.run 3).node store .html context "<p>" (.variableTag tag (.name "t") true) =
        (store.run 2).node store .html context "<p>" (.partialTag "t" template.root) := by
  intro template overriding store context tag
  have evaluates : (Expression.name "t").evaluate context = .ok (.ofTemplate 1 template.root) := by
    cbv
  have written : ((store.run 3).node store .html context "<p>"
      (.variableTag tag (.name "t") true)).result = .ok "<p>&lt;&amp;" := by
    cbv
  exact ⟨rfl, rfl, evaluates, written,
    variableTag_template store 2 context rfl rfl template 1 (.name "t") evaluates .html "<p>" tag "t"⟩

end Store

end Stencil
