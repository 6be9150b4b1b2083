import Stencil.Proofs.Output.Hooks
import Stencil.Proofs.Output.Iteration

namespace Stencil

variable {κ : Type}

/-- What a variable tag writes for a plain value, before it is escaped. Lists within a list have no
text. -/
def Value.written : Value κ → String
  | .list items => String.join (items.map plainText)
  | value => value.plainText

variable [Host κ] {store : Store} {info : Info κ} {value : Value κ}

namespace Runner

variable {run : Runner κ}

theorem value_plain_item (plain : value.Plain) (isVariable : info.content? = none)
    (isItem : info.isItem = true) :
    run.value store value info = pure (.plain value.plainText) := by
  cases plain <;>
    simp [Runner.value, wrapper, content, isVariable, isItem, Value.plainText, Value.text?]

end Runner

namespace Store

theorem run_plain (plain : value.Plain) (isVariable : info.content? = none)
    (outer : info.isItem = false) (depth : Nat) :
    store.run (depth + 2) (.value value info) = pure (.plain value.written) := by
  show Runner.value _ _ _ _ = _
  cases plain with
  | @list items each =>
      have renders : List.Forall₂ (fun item place =>
          store.run (depth + 1) (.value item { info with isItem := true }) =
            (fun string => ⟨string, .text⟩) <$> (pure (Value.plainText place) : Run κ String))
          items items := by
        rw [List.forall₂_same]
        intro item member
        exact Runner.value_plain_item (each item member) isVariable rfl
      have joined := Runner.items_joined renders
      rw [List.mapM_pure, map_pure, ite_self] at joined
      simpa [Runner.value, outer, Value.written, Rendering.plain] using joined
  | _ => simp [Runner.value, Runner.wrapper, isVariable, Value.written, Value.plainText, Value.text?]

theorem run_escaped (plain : value.Plain) (isVariable : info.content? = none)
    (outer : info.isItem = false) (depth : Nat) :
    store.run (depth + 3) (.value (.rendering (.escaped value)) info) =
      pure ⟨Text.escape value.written, .html⟩ := by
  show (do
    let rendering ← store.run (depth + 2) (.value value info)
    return ⟨Text.escape rendering.string, .html⟩ : Run κ Rendering) = _
  rw [run_plain plain isVariable outer]
  rfl

theorem escape_agrees (store : Store) (context : Context κ) (wills : context.wills = [])
    (dids : context.dids = []) (plain : value.Plain) {expression filtered : Expression}
    (evaluates : expression.evaluate context = .ok value)
    (escaped : filtered.evaluate context = Filter.escape.apply [value])
    (depth : Nat) (output : String) (tag tag' : Tag) (escapes escapes' : Bool) :
    let run := store.run (depth + 3)
    run.node store .html context output (.variableTag tag filtered escapes) =
        run.node store .html context output (.variableTag tag' expression true) ∧
      run.node store .html context output (.variableTag tag' expression true) =
        pure (output ++ Text.escape value.written) ∧
      run.node store .text context output (.variableTag tag' expression escapes') =
        pure (output ++ value.written) ∧
      run.node store .text context output (.variableTag tag filtered escapes) =
        pure (output ++ Text.escape value.written) := by
  intro run
  have written : run (.value value ⟨tag', none, context, false⟩) = pure (.plain value.written) :=
    run_plain plain rfl rfl (depth + 1)
  have filter : run (.value (.rendering (.escaped value)) ⟨tag, none, context, false⟩) =
      pure ⟨Text.escape value.written, .html⟩ :=
    run_escaped plain rfl rfl depth
  have direct (host : ContentType) (escapes : Bool) :
      run.node store host context output (.variableTag tag' expression escapes) =
        pure (output ++ if escapes then (Rendering.plain value.written).within host
          else value.written) := by
    rw [Runner.node_variableTag store wills dids evaluates, written, map_pure]
    rfl
  have through (host : ContentType) :
      run.node store host context output (.variableTag tag filtered escapes) =
        pure (output ++ Text.escape value.written) := by
    rw [Runner.node_variableTag store wills dids escaped, filter, map_pure]
    cases host <;> cases escapes <;> rfl
  have html := direct .html true
  refine ⟨(through .html).trans html.symm, html, ?_, through .text⟩
  rw [direct]
  cases escapes' <;> rfl

theorem escape_agrees_nested :
    let items : Value Stock := .list [.text "<", .list [.text "b"], .text "&lt;"]
    let context : Context Stock :=
      (Context.empty.push (.standardFilters 1)).push (.ofPairs [("x", items)])
    let filtered := Expression.call (.name "HTMLEscape") [.name "x"]
    let tag : Tag := ⟨"\x7b\x7bx\x7d\x7d", ⟨1, none⟩, .braces⟩
    items.Plain ∧ context.wills = [] ∧ context.dids = [] ∧
      (Expression.name "x").evaluate context = .ok items ∧
      filtered.evaluate context = Filter.escape.apply [items] ∧
      (empty.run 3).node empty .html context "<p>" (.variableTag tag filtered false) =
        pure "<p>&lt;&amp;lt;" ∧
      (empty.run 3).node empty .html context "<p>" (.variableTag tag (.name "x") true) =
        pure "<p>&lt;&amp;lt;" ∧
      (empty.run 3).node empty .text context "<p>" (.variableTag tag filtered false) =
        pure "<p>&lt;&amp;lt;" := by
  intro items context filtered tag
  have plain : items.Plain := by
    simp [items, Value.Plain.list, Value.Plain.text]
  have evaluates : (Expression.name "x").evaluate context = .ok items := by rfl
  have escaped : filtered.evaluate context = Filter.escape.apply [items] := by rfl
  have written : "<p>" ++ Text.escape items.written = "<p>&lt;&amp;lt;" := by cbv
  obtain ⟨same, html, -, text⟩ := escape_agrees empty context rfl rfl plain evaluates escaped 0 "<p>"
    tag tag false false
  rw [written] at html text
  exact ⟨plain, rfl, rfl, evaluates, escaped, same.trans html, html, text⟩

end Store

end Stencil
